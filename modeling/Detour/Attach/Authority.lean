import Detour.Attach.ProcFiles
import Detour.Attach.Strays
import Detour.Lib.Transcript

/-! What `tunnel attach`, which runs as root, has to be told before it does anything. -/

namespace Detour.Attach

open Atomic Atomic.Prog Detour.Rust Detour.Tunnel Worklist

abbrev AttachPast := Transcript AttachOp AttachOp.Ret

/-! ### The filter of a socket -/

theorem noInterface_plain :
    ∀ i, (none : Option Text) = some i → ∀ c ∈ i, isWhitespace c = false := by
  intro i h
  cases h

def plainEndpoint (a : SocketAddr) : Endpoint where
  ip := a.ip
  addr := a.ip.display.toList
  port := a.port
  iface := none
  parse_addr := a.ip.parse_display
  iface_plain := noInterface_plain

theorem plainEndpoint_text (a : SocketAddr) : (plainEndpoint a).text = a.display.toList := by
  obtain ⟨ip, port⟩ := a
  cases ip <;>
    simp [plainEndpoint, Endpoint.text, Endpoint.host, zone, SocketAddr.display, toString, Nat.repr]

theorem parseSockaddr_display (a : SocketAddr) : parseSockaddr a.display.toList = some a := by
  rw [← plainEndpoint_text]
  exact (parseSockaddr_iff (plainEndpoint a)).1 fun h => h.2 rfl

theorem display_injective : Function.Injective fun a : SocketAddr => a.display.toList := by
  intro a b h
  have hparse := congrArg parseSockaddr h
  rw [parseSockaddr_display, parseSockaddr_display] at hparse
  exact Option.some.inj hparse

def movedIn : AttachPast → List UInt32
  | [] => []
  | ⟨.move pid _, .ok ()⟩ :: past => pid :: movedIn past
  | _ :: past => movedIn past

def listArgs : List String := ["-tunpH"]

def killArgs (sock : SocketEntry) : List String :=
  ["-K", if sock.proto = "udp".toList then "-u" else "-t", ssKillFilter sock]

def resetIn : AttachPast → Nat
  | [] => 0
  | ⟨.ss args, .ok (true, _)⟩ :: past => if args = listArgs then resetIn past else resetIn past + 1
  | _ :: past => resetIn past

structure Cleared (uid : UInt32) (hold : Text) (roots : List UInt32) (scope : Text)
    (past : AttachPast) : Prop where
  user : uid ≠ 0
  resolved : ⟨.canonicalize hold, .ok scope⟩ ∈ past
  inside : isInside uid scope = true
  owned : ∀ root ∈ roots, ⟨.processUid root, some uid⟩ ∈ past

def Since (table : List (UInt32 × UInt32)) (since past : AttachPast) : Prop :=
  (∀ x ∈ since, x.1 ≠ .processTable) ∧ ∃ before, past = since ++ ⟨.processTable, table⟩ :: before

/-- The process was in the tree when the table was last read, and was found to be the user's
after that. -/
def Found (uid : UInt32) (roots : List UInt32) (pid : UInt32) (past : AttachPast) : Prop :=
  ∃ table since, Since table since past ∧ ⟨.processUid pid, some uid⟩ ∈ since ∧
    Worklist.Reaches (fun parent pid => (pid, parent) ∈ table) roots pid

structure Worth (moved : List UInt32) (sock : SocketEntry) : Prop where
  moved : ∃ pid ∈ sock.pids, pid ∈ moved
  tunnelled : isLocalDestination sock.peer.ip = false

variable {uid : UInt32} {hold scope : Text} {roots moved fresh tree : List UInt32} {reset : Bool}
  {table : List (UInt32 × UInt32)} {since past new : AttachPast}

def Asking (new : AttachPast) : Prop := ∀ x ∈ new, ∃ pid, x.1 = .processUid pid

theorem Asking.idle (h : Asking new) :
    movedIn (new ++ past) = movedIn past ∧ resetIn (new ++ past) = resetIn past := by
  induction new with
  | nil => exact ⟨rfl, rfl⟩
  | cons x new ih =>
    obtain ⟨pid, hx⟩ := h x List.mem_cons_self
    obtain ⟨o, r⟩ := x
    obtain rfl : o = .processUid pid := hx
    exact ih fun y hy => h y (List.mem_cons_of_mem _ hy)

theorem Asking.concat (h : Asking new) (pid : UInt32) (owner : Option UInt32) :
    Asking (new ++ [⟨.processUid pid, owner⟩]) :=
  List.forall_mem_append.mpr ⟨h, List.forall_mem_singleton.mpr ⟨pid, rfl⟩⟩

theorem Asking.after (h : Asking new) :
    Since table new (new ++ ⟨.processTable, table⟩ :: past) := by
  refine ⟨fun x hx => ?_, past, rfl⟩
  obtain ⟨pid, hpid⟩ := h x hx
  rw [hpid]
  exact AttachOp.noConfusion

theorem Since.cons {x : (o : AttachOp) × o.Ret} (h : Since table since past)
    (hx : x.1 ≠ .processTable) : Since table (x :: since) (x :: past) := by
  obtain ⟨hsince, before, rfl⟩ := h
  exact ⟨List.forall_mem_cons.mpr ⟨hx, hsince⟩, before, rfl⟩

theorem Found.cons {pid : UInt32} {x : (o : AttachOp) × o.Ret} (h : Found uid roots pid past)
    (hx : x.1 ≠ .processTable) : Found uid roots pid (x :: past) := by
  obtain ⟨table, since, hsince, howner, hreach⟩ := h
  exact ⟨table, x :: since, hsince.cons hx, List.mem_cons_of_mem _ howner, hreach⟩

theorem Cleared.append (h : Cleared uid hold roots scope past) :
    Cleared uid hold roots scope (new ++ past) where
  user := h.user
  resolved := List.mem_append_right _ h.resolved
  inside := h.inside
  owned root hroot := List.mem_append_right _ (h.owned root hroot)

theorem Cleared.cons {x : (o : AttachOp) × o.Ret} (h : Cleared uid hold roots scope past) :
    Cleared uid hold roots scope (x :: past) :=
  (h.append : Cleared uid hold roots scope ([x] ++ past))

/-! ### One round -/

structure Moves (uid : UInt32) (hold : Text) (roots : List UInt32) (scope : Text)
    (moved : List UInt32) (past : AttachPast) : Prop where
  cleared : Cleared uid hold roots scope past
  moved : moved = (movedIn past).reverse
  untouched : resetIn past = 0

structure Next (uid : UInt32) (roots fresh : List UInt32) (past : AttachPast) : Prop where
  found : ∀ pid ∈ fresh, Found uid roots pid past
  once : roots.Nodup → fresh.Nodup ∧ ∀ pid ∈ fresh, pid ∉ movedIn past

theorem Next.gone {pid : UInt32} {x : (o : AttachOp) × o.Ret}
    (h : Next uid roots (pid :: fresh) past) (hx : x.1 ≠ .processTable)
    (hmoved : movedIn (x :: past) = movedIn past) : Next uid roots fresh (x :: past) where
  found q hq := (h.found q (List.mem_cons_of_mem _ hq)).cons hx
  once hroots := by
    rw [hmoved]
    exact ⟨(h.once hroots).1.of_cons, fun q hq => (h.once hroots).2 q (List.mem_cons_of_mem _ hq)⟩

theorem Next.entered {pid : UInt32} (h : Next uid roots (pid :: fresh) past) :
    Next uid roots fresh (⟨.move pid scope, .ok ()⟩ :: past) where
  found q hq := (h.found q (List.mem_cons_of_mem _ hq)).cons AttachOp.noConfusion
  once hroots := by
    obtain ⟨hnodup, hold⟩ := h.once hroots
    refine ⟨hnodup.of_cons, fun q hq => ?_⟩
    rw [movedIn, List.mem_cons, not_or]
    refine ⟨?_, hold q (List.mem_cons_of_mem _ hq)⟩
    rintro rfl
    exact (List.nodup_cons.mp hnodup).1 hq

structure ResetAll (rows : List Text) (past : AttachPast) (r : Except String Nat)
    (past' : AttachPast) : Prop where
  later : past <:+ past'
  moved : movedIn past' = movedIn past
  count : r = .ok (resetIn past')
  asked : ∀ line ∈ rows, ∀ sock, parseSsLine line = some sock → Worth (movedIn past) sock →
    ∃ x, ⟨.ss (killArgs sock), x⟩ ∈ past'

theorem ResetAll.cons {line : Text} {rows : List Text} {r : Except String Nat} {past' : AttachPast}
    (h : ResetAll rows past r past') (hline : ∀ sock, parseSsLine line = some sock →
      Worth (movedIn past) sock → ∃ x, ⟨.ss (killArgs sock), x⟩ ∈ past') :
    ResetAll (line :: rows) past r past' :=
  ⟨h.later, h.moved, h.count, List.forall_mem_cons.mpr ⟨hline, h.asked⟩⟩

def webLine : Text :=
  "tcp ESTAB 0 0 10.0.0.2:43210 9.9.9.9:443 users:((\"app\",pid=100,fd=3))".toList

def obliging : Handler AttachOp AttachOp.Ret Unit
  | .canonicalize path, _ => (.ok path, ())
  | .processUid _, _ => (some 1000, ())
  | .processTable, _ => ([(100, 1)], ())
  | .move _ _, _ => (.ok (), ())
  | .println _, _ => ((), ())
  | .ss _, _ => (.ok (true, webLine), ())

end Detour.Attach
