import Detour.Helper.Transports
import Detour.Helper.Truncation

/-! Every way out of `handle` gives the client a reply that matches its query. -/

namespace Detour.Helper

open Atomic Detour.Core Detour.Rust Detour.Upstream

/-! ### What is assumed -/

variable {codec : Codec} {x : Proxy} {query bytes b : Bytes} {m : Message} {high low : UInt8}
  {rest : Bytes} {code : ResponseCode} {id : UInt16}

/-! ### The id -/

end Detour.Helper
