import Mathlib.Logic.Function.Basic

/-! Datagrams between the sockets of one host and the servers that its programs ask.  Datagrams
are lost, doubled and late, and an address is free again once its socket is closed. -/

namespace Datagrams

variable {ι A P : Type}

structure Packet (A P : Type) where
  client : A
  server : A
  payload : P

/-- An open socket; one that is not connected takes what anyone sends to its address. -/
structure Socket (A P : Type) where
  addr : A
  peer : Option A
  inbox : List P

structure Net (ι A P : Type) where
  /-- Who opened a socket, if it was ever opened. -/
  opener : Nat → Option ι
  sockets : Nat → Option (Socket A P)
  /-- Queries and replies on their way. -/
  queries : List (Packet A P)
  replies : List (Packet A P)
  /-- Queries that their servers may still reply to. -/
  heard : List (Packet A P)
  /-- What was ever sent on a socket. -/
  sent : Nat → List P
  /-- The server, the query and the reply of every reply that was ever sent. -/
  replied : List (A × P × P)

namespace Net

def empty : Net ι A P := ⟨fun _ => none, fun _ => none, [], [], [], fun _ => [], []⟩

variable (s : Net ι A P)

/-! ### What the host does -/

def Free (k : Nat) (a : A) : Prop :=
  s.opener k = none ∧ ∀ j x, s.sockets j = some x → x.addr ≠ a

def put (k : Nat) (x : Option (Socket A P)) : Net ι A P :=
  { s with sockets := Function.update s.sockets k x }

def bind (i : ι) (k : Nat) (a : A) : Net ι A P :=
  { s with opener := Function.update s.opener k (some i) }.put k (some ⟨a, none, []⟩)

def send (k : Nat) (x : Socket A P) (server : A) (payload : P) : Net ι A P := { s with
  queries := ⟨x.addr, server, payload⟩ :: s.queries
  sent := Function.update s.sent k (s.sent k ++ [payload]) }

/-! ### What happens by itself -/

/-- A reply that arrives may arrive again, as what is lost is lost on its own. -/
inductive Step (answers : P → P → Prop) : Net ι A P → Net ι A P → Prop
  | hear {s : Net ι A P} (p : Packet A P) : p ∈ s.queries →
    Step answers s { s with heard := p :: s.heard }
  | reply {s : Net ι A P} (p : Packet A P) (r : P) : p ∈ s.heard → answers p.payload r →
    Step answers s { s with
      replies := ⟨p.client, p.server, r⟩ :: s.replies
      replied := (p.server, p.payload, r) :: s.replied }
  | arrive {s : Net ι A P} (p : Packet A P) (k : Nat) (x : Socket A P) : p ∈ s.replies →
    s.sockets k = some x → x.addr = p.client → (∀ a, x.peer = some a → a = p.server) →
    Step answers s (s.put k (some { x with inbox := x.inbox ++ [p.payload] }))
  | lose {s : Net ι A P} (queries replies heard : List (Packet A P)) : queries ⊆ s.queries →
    replies ⊆ s.replies → heard ⊆ s.heard →
    Step answers s { s with queries := queries, replies := replies, heard := heard }

/-! ### Whose replies a socket can get -/

structure Quiet (a : A) : Prop where
  queries : ∀ p ∈ s.queries, p.client ≠ a
  replies : ∀ p ∈ s.replies, p.client ≠ a
  heard : ∀ p ∈ s.heard, p.client ≠ a

structure Owned (k : Nat) (x : Socket A P) : Prop where
  queries : ∀ p ∈ s.queries, p.client = x.addr → p.payload ∈ s.sent k
  heard : ∀ p ∈ s.heard, p.client = x.addr → p.payload ∈ s.sent k
  replies : ∀ p ∈ s.replies, p.client = x.addr →
    ∃ q ∈ s.sent k, (p.server, q, p.payload) ∈ s.replied
  inbox : ∀ b ∈ x.inbox, ∃ server, ∃ q ∈ s.sent k, (server, q, b) ∈ s.replied

structure Isolated : Prop where
  opened : ∀ k, s.opener k = none → s.sockets k = none ∧ s.sent k = []
  distinct : ∀ j k x y, s.sockets j = some x → s.sockets k = some y → x.addr = y.addr → j = k
  owned : ∀ k x, s.sockets k = some x → s.Owned k x

variable {s} {t : Net ι A P} {i : ι} {j k : Nat} {a : A} {x y : Socket A P} {answers : P → P → Prop}

theorem isolated_empty : (empty : Net ι A P).Isolated where
  opened _ _ := ⟨rfl, rfl⟩
  distinct _ _ _ _ h := nomatch h
  owned _ _ h := nomatch h

theorem put_self (o : Option (Socket A P)) : (s.put k o).sockets k = o := by
  simp only [put, Function.update_self]

theorem put_ne (o : Option (Socket A P)) (h : j ≠ k) : (s.put k o).sockets j = s.sockets j := by
  simp only [put, Function.update_of_ne h]

theorem sockets_put {o : Option (Socket A P)} (hj : (s.put k o).sockets j = some y) :
    (j = k ∧ o = some y) ∨ (j ≠ k ∧ s.sockets j = some y) := by
  by_cases hjk : j = k
  · subst hjk
    rw [put_self] at hj
    exact .inl ⟨rfl, hj⟩
  · rw [put_ne o hjk] at hj
    exact .inr ⟨hjk, hj⟩

theorem Isolated.put (h : s.Isolated) (hk : s.sockets k = some x) (haddr : y.addr = x.addr)
    (hinbox : ∀ b ∈ y.inbox, ∃ server, ∃ q ∈ s.sent k, (server, q, b) ∈ s.replied) :
    (s.put k (some y)).Isolated := by
  have howned := h.owned k x hk
  constructor
  · intro j hj
    have hjk : j ≠ k := by
      rintro rfl
      rw [(h.opened j hj).1] at hk
      cases hk
    rw [put_ne _ hjk]
    exact h.opened j hj
  · intro j j' z z' hz hz' heq
    obtain ⟨rfl, hnew⟩ | ⟨-, hold⟩ := sockets_put hz
    · cases hnew
      obtain ⟨rfl, -⟩ | ⟨-, hold'⟩ := sockets_put hz'
      · rfl
      · exact h.distinct j j' x z' hk hold' (haddr.symm.trans heq)
    · obtain ⟨rfl, hnew⟩ | ⟨-, hold'⟩ := sockets_put hz'
      · cases hnew
        exact h.distinct j j' z x hold hk (heq.trans haddr)
      · exact h.distinct j j' z z' hold hold' heq
  · intro j z hz
    obtain ⟨rfl, hnew⟩ | ⟨-, hz⟩ := sockets_put hz
    · cases hnew
      constructor
      · rw [haddr]
        exact howned.queries
      · rw [haddr]
        exact howned.heard
      · rw [haddr]
        exact howned.replies
      · exact hinbox
    · have hz := h.owned j z hz
      exact ⟨hz.queries, hz.heard, hz.replies, hz.inbox⟩

theorem Isolated.close (h : s.Isolated) (k : Nat) : (s.put k none).Isolated := by
  constructor
  · intro j hj
    obtain ⟨hnone, hsent⟩ := h.opened j hj
    refine ⟨?_, hsent⟩
    by_cases hjk : j = k
    · subst hjk
      rw [put_self]
    · rw [put_ne _ hjk]
      exact hnone
  · intro j j' z z' hz hz' heq
    obtain ⟨-, hnew⟩ | ⟨-, hz⟩ := sockets_put hz
    · cases hnew
    · obtain ⟨-, hnew⟩ | ⟨-, hz'⟩ := sockets_put hz'
      · cases hnew
      · exact h.distinct j j' z z' hz hz' heq
  · intro j z hz
    obtain ⟨-, hnew⟩ | ⟨-, hz⟩ := sockets_put hz
    · cases hnew
    · have hz := h.owned j z hz
      exact ⟨hz.queries, hz.heard, hz.replies, hz.inbox⟩

theorem sockets_bind (hj : (s.bind i k a).sockets j = some y) :
    (j = k ∧ y = ⟨a, none, []⟩) ∨ (j ≠ k ∧ s.sockets j = some y) := by
  obtain ⟨rfl, hnew⟩ | hold := sockets_put hj
  · cases hnew
    exact .inl ⟨rfl, rfl⟩
  · exact .inr hold

theorem Isolated.bind (h : s.Isolated) (hfree : s.Free k a) (hquiet : s.Quiet a) (i : ι) :
    (s.bind i k a).Isolated := by
  obtain ⟨-, hunused⟩ := hfree
  constructor
  · intro j hj
    have hjk : j ≠ k := by
      rintro rfl
      simp [Net.bind, Net.put] at hj
    rw [Net.bind, put_ne _ hjk]
    apply h.opened j
    simpa [Net.bind, Net.put, hjk] using hj
  · intro j j' z z' hz hz' heq
    obtain ⟨rfl, rfl⟩ | ⟨-, hold⟩ := sockets_bind hz
    · obtain ⟨rfl, -⟩ | ⟨-, hold'⟩ := sockets_bind hz'
      · rfl
      · exact absurd heq.symm (hunused j' z' hold')
    · obtain ⟨rfl, rfl⟩ | ⟨-, hold'⟩ := sockets_bind hz'
      · exact absurd heq (hunused j z hold)
      · exact h.distinct j j' z z' hold hold' heq
  · intro j z hz
    obtain ⟨rfl, rfl⟩ | ⟨-, hold⟩ := sockets_bind hz
    · exact ⟨fun p hp heq => absurd heq (hquiet.queries p hp),
        fun p hp heq => absurd heq (hquiet.heard p hp),
        fun p hp heq => absurd heq (hquiet.replies p hp), nofun⟩
    · have hz := h.owned j z hold
      exact ⟨hz.queries, hz.heard, hz.replies, hz.inbox⟩

theorem sent_send_self {server : A} {payload : P} :
    (s.send k x server payload).sent k = s.sent k ++ [payload] := by
  simp only [Net.send, Function.update_self]

theorem sent_send_ne {server : A} {payload : P} (h : j ≠ k) :
    (s.send k x server payload).sent j = s.sent j := by
  simp only [Net.send, Function.update_of_ne h]

theorem mem_sent_send {server : A} {payload q : P} (hq : q ∈ s.sent j) :
    q ∈ (s.send k x server payload).sent j := by
  by_cases hjk : j = k
  · subst hjk
    rw [sent_send_self]
    exact List.mem_append_left [payload] hq
  · rw [sent_send_ne hjk]
    exact hq

theorem Isolated.send (h : s.Isolated) (hk : s.sockets k = some x) (server : A) (payload : P) :
    (s.send k x server payload).Isolated := by
  constructor
  · intro j hj
    have hjk : j ≠ k := by
      rintro rfl
      rw [(h.opened j hj).1] at hk
      cases hk
    rw [sent_send_ne hjk]
    exact h.opened j hj
  · exact h.distinct
  · intro j z hz
    have hold := h.owned j z hz
    constructor
    · intro p hp haddr
      cases List.mem_cons.mp hp with
      | inl hnew =>
        subst hnew
        obtain rfl := h.distinct k j x z hk hz haddr
        rw [sent_send_self]
        exact List.mem_append_right _ (List.mem_singleton_self payload)
      | inr hp => exact mem_sent_send (hold.queries p hp haddr)
    · exact fun p hp haddr => mem_sent_send (hold.heard p hp haddr)
    · intro p hp haddr
      obtain ⟨q, hq, hr⟩ := hold.replies p hp haddr
      exact ⟨q, mem_sent_send hq, hr⟩
    · intro b hb
      obtain ⟨server, q, hq, hr⟩ := hold.inbox b hb
      exact ⟨server, q, mem_sent_send hq, hr⟩

theorem Step.keeps (h : Step answers s t) : t.opener = s.opener ∧ t.sent = s.sent ∧
    s.replied ⊆ t.replied := by
  cases h with
  | reply p r => exact ⟨rfl, rfl, List.subset_cons_self _ _⟩
  | hear | arrive | lose => exact ⟨rfl, rfl, fun _ h => h⟩

theorem Isolated.step (h : s.Isolated) (hs : Step answers s t) : t.Isolated := by
  cases hs with
  | hear p hp =>
    refine ⟨h.opened, h.distinct, fun k x hk => ?_⟩
    have hold := h.owned k x hk
    refine ⟨hold.queries, fun p' hp' haddr => ?_, hold.replies, hold.inbox⟩
    cases List.mem_cons.mp hp' with
    | inl hnew =>
      subst hnew
      exact hold.queries p' hp haddr
    | inr hp' => exact hold.heard p' hp' haddr
  | reply p r hp hr =>
    refine ⟨h.opened, h.distinct, fun k x hk => ?_⟩
    have hold := h.owned k x hk
    refine ⟨hold.queries, hold.heard, fun p' hp' haddr => ?_, fun b hb => ?_⟩
    · cases List.mem_cons.mp hp' with
      | inl hnew =>
        subst hnew
        exact ⟨p.payload, hold.heard p hp haddr, List.mem_cons_self⟩
      | inr hp' =>
        obtain ⟨q, hq, hmem⟩ := hold.replies p' hp' haddr
        exact ⟨q, hq, List.mem_cons_of_mem _ hmem⟩
    · obtain ⟨server, q, hq, hmem⟩ := hold.inbox b hb
      exact ⟨server, q, hq, List.mem_cons_of_mem _ hmem⟩
  | arrive p k x hp hk haddr hpeer =>
    have hold := h.owned k x hk
    refine h.put hk (y := { x with inbox := x.inbox ++ [p.payload] }) rfl ?_
    intro b hb
    cases List.mem_append.mp hb with
    | inl hb => exact hold.inbox b hb
    | inr hnew =>
      obtain rfl := List.mem_singleton.mp hnew
      obtain ⟨q, hq, hmem⟩ := hold.replies p hp haddr.symm
      exact ⟨p.server, q, hq, hmem⟩
  | lose queries replies heard hqueries hreplies hheard =>
    refine ⟨h.opened, h.distinct, fun k x hk => ?_⟩
    have hold := h.owned k x hk
    exact ⟨fun p hp => hold.queries p (hqueries hp), fun p hp => hold.heard p (hheard hp),
      fun p hp => hold.replies p (hreplies hp), hold.inbox⟩

end Net

end Datagrams
