import Detour.Rust.Bytes

/-! Names of the DNS as they are decoded from the wire. -/

namespace Detour.Core

open Detour.Rust

def dot : UInt8 := 46

def backslash : UInt8 := 92

structure Name where
  labels : List Bytes
  nonempty : ∀ l ∈ labels, l ≠ []
  deriving DecidableEq

/-- How a label is written in the text of a name.  That the dot is all that is escaped is an
assumption: the library escapes some other bytes as well. -/
def escape (l : Bytes) : Bytes := l.flatMap fun b => if b = dot then [backslash, dot] else [b]

/-- `Name::to_ascii` so far as labels are written like that, but for the dot that ends it, which
nothing here looks at. -/
def Name.toAscii (n : Name) : Bytes := [dot].intercalate (n.labels.map escape)

def Name.toLowercase (n : Name) : Name where
  labels := n.labels.map lowerBytes
  nonempty l hl := by
    obtain ⟨l', hl', rfl⟩ := List.mem_map.mp hl
    intro hnil
    exact n.nonempty l' hl' (List.map_eq_nil_iff.mp hnil)

end Detour.Core
