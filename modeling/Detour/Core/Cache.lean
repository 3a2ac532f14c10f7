import Detour.Core.Message
import Detour.Lib.ExpiringTable

/-! TTL-respecting response cache. Durations and instants are in nanoseconds. -/

namespace Detour.Core

open Detour.Rust ExpiringTable

def SECOND : Nat := 1000000000

def MAX_TTL : Nat := 3600 * SECOND

def MIN_TTL : Nat := 5 * SECOND

def NEGATIVE_TTL : Nat := 30 * SECOND

structure Key where
  name : Name
  recordType : RecordType
  deriving DecidableEq

def Key.new (name : Name) (recordType : RecordType) : Key := ⟨name.toLowercase, recordType⟩

structure Entry where
  message : Message
  storedAt : Nat
  ttl : Nat
  deriving DecidableEq

structure Cache where
  entries : Table Key Entry
  capacity : Nat

def Cache.new (capacity : Nat) : Cache := ⟨∅, capacity⟩

def checkedSub (a b : Nat) : Option Nat := if b ≤ a then some (a - b) else none

def Record.spend (spent : UInt32) (r : Record) : Record :=
  { r with ttl := if spent ≤ r.ttl then r.ttl - spent else 0 }

def Cache.getAt (c : Cache) (key : Key) (now : Nat) : Option Message := do
  let entry ← c.entries.lookup key
  let elapsed := now - entry.storedAt
  let remaining ← checkedSub entry.ttl elapsed
  if remaining = 0 then none
  else
    let spent := (elapsed / SECOND).toUInt32
    some { entry.message with
      answers := entry.message.answers.map (Record.spend spent)
      nameServers := entry.message.nameServers.map (Record.spend spent) }

def cacheableTtl (message : Message) : Option Nat :=
  match message.responseCode with
  | .nxDomain => some NEGATIVE_TTL
  | .noError =>
    if message.answers = [] then some NEGATIVE_TTL
    else (message.answers.map fun r => r.ttl.toNat).min?.map fun min =>
      clamp (min * SECOND) MIN_TTL MAX_TTL
  -- Anything else is a transient upstream failure.
  | _ => none

def Entry.remaining (now : Nat) (e : Entry) : Nat := e.ttl - (now - e.storedAt)

/-- Drop the entry closest to expiry. The entries come in the order in which the table is
iterated. -/
def Cache.evictOne (c : Cache) (entries : List (Item Key Entry)) (now : Nat) : Cache :=
  { c with entries := eraseOpt (least (Entry.remaining now) entries) c.entries }

def Cache.insertAt (c : Cache) (entries : List (Item Key Entry)) (key : Key) (message : Message)
    (now : Nat) : Option Nat × Cache :=
  match cacheableTtl message with
  | none => (none, c)
  | some ttl =>
    let c' := if c.capacity ≤ size c.entries ∧ key ∉ c.entries then c.evictOne entries now else c
    (some ttl, { c' with entries := c'.entries.insert key ⟨message, now, ttl⟩ })

def Cache.purgeExpired (c : Cache) (now : Nat) : Cache :=
  { c with entries := retain (fun e => e.ttl > now - e.storedAt) c.entries }

def Cache.clear (c : Cache) : Cache := { c with entries := ∅ }

end Detour.Core
