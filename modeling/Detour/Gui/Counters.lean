import Detour.Dpi.Counters
import Detour.Gui.Instances

/-! What the control panel shows of the filter bypass while connections come and go. -/

namespace Detour.Gui

open Atomic Detour.Dpi

/-! ### The code -/

structure FilterStatus where
  running : Bool
  port : UInt16
  connections : UInt64
  fragmented : UInt64

def filterStatus : DpiM FilterStatus := do
  let running : Bool ← dpiOp .loadRunning
  let connections : UInt64 ← dpiOp .loadConnections
  let fragmented : UInt64 ← dpiOp .loadFragmented
  return ⟨running, FILTER_PORT, connections, fragmented⟩

inductive FilterEvent
  | connection (incomer : Incomer)
  | look

inductive FilterResult
  | ended (e : Ended)
  | status (snapshot : FilterStatus)

def FilterEvent.prog : FilterEvent → DpiM FilterResult
  | .connection incomer => do return .ended (← DpiProxy.serve incomer)
  | .look => do return .status (← filterStatus)

def Alone (_ _ : Stats Nat) : Prop := False

def filterIdle : Server FilterEvent DpiOp DpiOp.Ret FilterResult (Stats Nat) :=
  Server.start Stats.default

/-! ### The counters -/

variable {i : Nat} {s t : Stats Nat}
  {y : Server FilterEvent DpiOp DpiOp.Ret FilterResult (Stats Nat)}

theorem relies_of_guarantees (i j : Nat) (s t : Stats Nat) (hij : i ≠ j)
    (hg : StatsGuarantees j s t) : StatsRelies i s t := hg.2 i hij

variable {x : Server FilterEvent DpiOp DpiOp.Ret FilterResult (Stats Nat)}

theorem counted_received (hr : Server.Runs FilterEvent.prog counting Alone filterIdle y)
    (hi : i ∈ y.state.connections.who) : i < y.received.length := by
  have hstart : filterIdle.Owned fun j s => j ∈ s.connections.who :=
    Server.owned_start fun _ => List.not_mem_nil
  exact (hstart.runs (fun _ _ _ h => h.elim) (fun _ _ _ _ _ _ he hj => counting_step he hj)
    hr).marked i hi

end Detour.Gui
