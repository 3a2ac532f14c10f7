import Mathlib.Order.Basic

/-! The live status snapshot that the helper writes and the GUI reads. -/

namespace Detour.Helper

structure QueryLogEntry where
  name : String
  recordType : String
  route : String
  outcome : String
  elapsedMs : UInt64
  answers : List String
  deriving DecidableEq

structure Snapshot where
  active : Bool
  listen : String
  pid : UInt32
  /-- Whether `/etc/resolv.conf` is currently pointed at us. -/
  tookOverResolvConf : Bool
  profile : Option String
  providers : List String
  forcedDomains : List String
  upstreams : List String
  cacheEntries : Nat
  queriesTotal : Nat
  recent : List QueryLogEntry
  updatedAt : Nat
  deriving DecidableEq

def Snapshot.inactive : Snapshot where
  active := false
  listen := ""
  pid := 0
  tookOverResolvConf := false
  profile := none
  providers := []
  forcedDomains := []
  upstreams := []
  cacheEntries := 0
  queriesTotal := 0
  recent := []
  updatedAt := 0

/-! ### Time -/

abbrev Nanos := Nat

def Nanos.asSecs (t : Nanos) : Nat := t / 1000000000

theorem asSecs_mul_le (t : Nanos) : t.asSecs * 1000000000 ≤ t := Nat.div_mul_le_self ..

/-! ### Writing -/

def LOG_SLICE : Nat := 100

structure Counters where
  log : List QueryLogEntry
  total : Nat
  /-- Nothing when the lock of the cache is poisoned. -/
  cache : Option Nat

def snapshot (base : Snapshot) (counters : Counters) (now : Nanos) : Snapshot :=
  { base with
    recent := counters.log.reverse.take LOG_SLICE
    queriesTotal := counters.total
    cacheEntries := counters.cache.getD 0
    updatedAt := now.asSecs }

/-! ### Reading -/

inductive StatusText
  | json (snapshot : Snapshot)
  | garbled
  deriving DecidableEq

def readSnapshot (file : Option StatusText) (now maxAge : Nanos) : Snapshot :=
  match file with
  | some (.json s) => if now.asSecs - s.updatedAt > maxAge.asSecs then .inactive else s
  | _ => .inactive

theorem readSnapshot_active {file : Option StatusText} {now maxAge : Nanos}
    (h : (readSnapshot file now maxAge).active = true) :
    ∃ s, file = some (.json s) ∧ readSnapshot file now maxAge = s ∧
      now.asSecs - s.updatedAt ≤ maxAge.asSecs := by
  unfold readSnapshot at h ⊢
  split at h
  · next s =>
    split at h
    · cases h
    · next hage => exact ⟨s, rfl, if_neg hage, Nat.le_of_not_lt hage⟩
  · cases h

end Detour.Helper
