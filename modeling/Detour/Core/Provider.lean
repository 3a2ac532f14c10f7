import Detour.Rust.IpAddr

/-! DoH provider definitions. -/

namespace Detour.Core

open Detour.Rust

abbrev Text := List Char

structure Provider where
  /-- Human-readable name. -/
  name : Text
  /-- RFC 8484 endpoint. -/
  url : Text
  /-- Literal addresses for the endpoint's host, used to bypass resolution. -/
  bootstrap : List IpAddr
  deriving DecidableEq

def Provider.host (p : Provider) : Option Text :=
  (stripPrefix "https://".toList p.url).map fun rest =>
    rest.takeWhile fun c => c ≠ '/' ∧ c ≠ ':'

def Provider.bootstrapAddrs (p : Provider) : List SocketAddr := p.bootstrap.map fun ip => ⟨ip, 443⟩

end Detour.Core
