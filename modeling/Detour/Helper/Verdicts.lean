import Detour.Helper.Diagnose
import Detour.Helper.Listen
import Detour.Helper.QueryLog
import Detour.Helper.Replies
import Detour.Lib.Transcript
import Detour.Upstream.Forward

/-! `Diagnostics::check`: what the system's resolvers and the providers answer, which of the
addresses connect, and what is said about it. -/

namespace Detour.Helper

open Atomic Detour.Core Detour.Rust Detour.Upstream

/-! ### The code -/

inductive DiagnoseOp
  | forward (query : Bytes)
  | resolver (o : ResolverOp)
  | probe (addr : SocketAddr)

abbrev DiagnoseOp.Ret : DiagnoseOp → Type
  | .forward _ => Except String Bytes
  | .resolver o => o.Ret
  | .probe _ => Bool

def addressOf (r : Record) : Option IpAddr :=
  match r.recordType, r.data with
  | 1, [a, b, c, d] => some (.v4 (.new a b c d))
  | 28, [a, b, c, d, e, f, g, h, i, j, k, l, m, n, o, p] =>
    some (.v6 ⟨#v[ofBe a b, ofBe c d, ofBe e f, ofBe g h, ofBe i j, ofBe k l, ofBe m n, ofBe o p]⟩)
  | _, _ => none
where
  ofBe (high low : UInt8) : UInt16 := high.toUInt16 <<< 8 ||| low.toUInt16

def addressesOf (msg : Message) : List IpAddr := msg.answers.filterMap addressOf

variable (codec : Codec) (texts : Texts) (fromUtf8 : Text → Except ProtoError Name)

def split : Except String (List IpAddr) → List IpAddr × Option String
  | .ok addrs => (addrs, none)
  | .error e => ([], some e)

variable {codec texts fromUtf8} {x : Diagnostics} {domain : Text} {isp doh reachable : List IpAddr}
  {l : Prog.Transcript DiagnoseOp DiagnoseOp.Ret} {v : Verdict}

end Detour.Helper
