import Detour.Rust.Str

/-! `std::net::IpAddr`: reading an address from text and writing it back. -/

namespace Detour.Rust

structure Ipv4Addr where
  octets : Vector UInt8 4
  deriving DecidableEq

def Ipv4Addr.firstOctet (a : Ipv4Addr) : UInt8 := a.octets[0]

def Ipv4Addr.new (a b c d : UInt8) : Ipv4Addr := ⟨#v[a, b, c, d]⟩

structure Ipv6Addr where
  segments : Vector UInt16 8
  deriving DecidableEq

def Ipv6Addr.firstSegment (a : Ipv6Addr) : UInt16 := a.segments[0]

inductive IpAddr
  | v4 (addr : Ipv4Addr)
  | v6 (addr : Ipv6Addr)
  deriving DecidableEq

/-! ### `Display` -/

def Ipv4Addr.display (a : Ipv4Addr) : String :=
  ".".intercalate (a.octets.toList.map (fun o => toString o.toNat))

def hex (n : UInt16) : String := String.ofList (Nat.toDigits 16 n.toNat)

structure Span where
  start : Nat
  len : Nat
  deriving DecidableEq

/-- The first longest run of zero segments; the pair carries the run being read. -/
def zeroes (segments : List UInt16) : Span :=
  (segments.zipIdx.foldl (fun (longest, current) (segment, i) =>
    if segment = 0 then
      let current : Span := ⟨if current.len = 0 then i else current.start, current.len + 1⟩
      (if current.len > longest.len then current else longest, current)
    else (longest, ⟨0, 0⟩)) ((⟨0, 0⟩, ⟨0, 0⟩) : Span × Span)).1

def fmtSubslice (segments : List UInt16) : String := ":".intercalate (segments.map hex)

def Ipv6Addr.toIpv4Mapped (a : Ipv6Addr) : Option Ipv4Addr :=
  match a.segments.toList with
  | [0, 0, 0, 0, 0, 0xffff, x, y] =>
    some ⟨#v[(x >>> 8).toUInt8, x.toUInt8, (y >>> 8).toUInt8, y.toUInt8]⟩
  | _ => none

def Ipv6Addr.display (a : Ipv6Addr) : String :=
  match a.toIpv4Mapped with
  | some v4 => "::ffff:" ++ v4.display
  | none =>
    let segments := a.segments.toList
    let z := zeroes segments
    if z.len > 1 then
      fmtSubslice (segments.take z.start) ++ "::" ++ fmtSubslice (segments.drop (z.start + z.len))
    else fmtSubslice segments

def IpAddr.display : IpAddr → String
  | .v4 a => a.display
  | .v6 a => a.display

/-! ### `FromStr`: each reader returns what it read and the characters left. -/

def toDigit (radix : Nat) (c : Char) : Option Nat :=
  let n := c.toNat
  let d := if 48 ≤ n ∧ n ≤ 57 then n - 48
    else if 97 ≤ n ∧ n ≤ 122 then n - 87
    else if 65 ≤ n ∧ n ≤ 90 then n - 55
    else radix
  if d < radix then some d else none

def readDigits (radix : Nat) : List Char → List Nat × List Char
  | [] => ([], [])
  | c :: cs => match toDigit radix c with
    | some d => let (ds, rest) := readDigits radix cs; (d :: ds, rest)
    | none => ([], c :: cs)

def readNumber (radix maxDigits : Nat) (allowZeroPrefix : Bool) (max : Nat) (cs : List Char) :
    Option (Nat × List Char) :=
  let (ds, rest) := readDigits radix cs
  let value := ds.foldl (fun v d => v * radix + d) 0
  if ds.length > maxDigits || ds.isEmpty then none
  else if !allowZeroPrefix && ds.head? == some 0 && ds.length > 1 then none
  else if value ≤ max then some (value, rest) else none

def readGivenChar (sep : Char) : List Char → Option (List Char)
  | [] => none
  | c :: cs => if c = sep then some cs else none

def readSeparator (sep : Char) (index : Nat) (cs : List Char) : Option (List Char) :=
  if index > 0 then readGivenChar sep cs else some cs

def readOctet (index : Nat) (cs : List Char) : Option (UInt8 × List Char) := do
  let (n, cs) ← readNumber 10 3 false 255 (← readSeparator '.' index cs)
  return (n.toUInt8, cs)

def readIpv4Addr (cs : List Char) : Option (Ipv4Addr × List Char) := do
  let (a, cs) ← readOctet 0 cs
  let (b, cs) ← readOctet 1 cs
  let (c, cs) ← readOctet 2 cs
  let (d, cs) ← readOctet 3 cs
  return (⟨#v[a, b, c, d]⟩, cs)

/-- Reads groups number `index` up to `index + slots`; says whether an IPv4 tail ended them. -/
def readGroups (index : Nat) : (slots : Nat) → List Char → List UInt16 × Bool × List Char
  | 0, cs => ([], false, cs)
  | slots + 1, cs =>
    let body := readSeparator ':' index cs
    -- an embedded IPv4 address needs two free slots
    match if slots > 0 then body.bind readIpv4Addr else none with
    | some (v4, rest) =>
      let o := v4.octets
      ([o[0].toUInt16 <<< 8 ||| o[1].toUInt16, o[2].toUInt16 <<< 8 ||| o[3].toUInt16], true, rest)
    | none => match body.bind (readNumber 16 4 true 65535) with
      | some (g, rest) =>
        let (gs, v4, rest) := readGroups (index + 1) slots rest
        (g.toUInt16 :: gs, v4, rest)
      | none => ([], false, cs)

def segmentsOf (gs : List UInt16) : Vector UInt16 8 := Vector.ofFn (fun i => gs.getD i 0)

def readIpv6Addr (cs : List Char) : Option (Ipv6Addr × List Char) :=
  let (head, headIpv4, cs) := readGroups 0 8 cs
  if head.length = 8 then some (⟨segmentsOf head⟩, cs)
  -- an IPv4 part is not allowed before `::`
  else if headIpv4 then none
  else do
    let cs ← readGivenChar ':' (← readGivenChar ':' cs)
    let (tail, _, cs) := readGroups 0 (8 - (head.length + 1)) cs
    let zeros := List.replicate (8 - head.length - tail.length) 0
    return (⟨segmentsOf (head ++ zeros ++ tail)⟩, cs)

/-- `str::parse::<IpAddr>`: the whole text must be one address. -/
def IpAddr.parse (s : List Char) : Option IpAddr :=
  match readIpv4Addr s with
  | some (a, rest) => if rest = [] then some (.v4 a) else none
  | none => match readIpv6Addr s with
    | some (a, rest) => if rest = [] then some (.v6 a) else none
    | none => none

structure SocketAddr where
  ip : IpAddr
  port : UInt16
  deriving DecidableEq

def SocketAddr.display (a : SocketAddr) : String :=
  match a.ip with
  | .v4 _ => a.ip.display ++ ":" ++ toString a.port.toNat
  | .v6 _ => "[" ++ a.ip.display ++ "]:" ++ toString a.port.toNat

def parseSocketAddrV4 (s : List Char) : Option SocketAddr := do
  let (a, cs) ← readIpv4Addr s
  let cs ← readGivenChar ':' cs
  let (port, rest) ← readNumber 10 cs.length true 65535 cs
  if rest = [] then return ⟨.v4 a, port.toUInt16⟩ else none

/-- A `SocketAddr` with the scope of an IPv6 address; 0 stands for none. -/
structure ScopedAddr extends SocketAddr where
  scope : UInt32
  deriving DecidableEq

def SocketAddr.unscoped (a : SocketAddr) : ScopedAddr := ⟨a, 0⟩

def readPort (cs : List Char) : Option (UInt16 × List Char) := do
  let cs ← readGivenChar ':' cs
  let (port, rest) ← readNumber 10 cs.length true 65535 cs
  return (port.toUInt16, rest)

def readScopeId (cs : List Char) : Option (UInt32 × List Char) := do
  let cs ← readGivenChar '%' cs
  let (scope, rest) ← readNumber 10 cs.length true 4294967295 cs
  return (scope.toUInt32, rest)

def readSocketAddrV4 (cs : List Char) : Option (ScopedAddr × List Char) := do
  let (a, cs) ← readIpv4Addr cs
  let (port, cs) ← readPort cs
  return (⟨⟨.v4 a, port⟩, 0⟩, cs)

def readSocketAddrV6 (cs : List Char) : Option (ScopedAddr × List Char) := do
  let (a, cs) ← readIpv6Addr (← readGivenChar '[' cs)
  let (scope, cs) := (readScopeId cs).getD (0, cs)
  let (port, cs) ← readPort (← readGivenChar ']' cs)
  return (⟨⟨.v6 a, port⟩, scope⟩, cs)

def parseSocketAddr (s : List Char) : Option ScopedAddr :=
  match (readSocketAddrV4 s).or (readSocketAddrV6 s) with
  | some (a, rest) => if rest = [] then some a else none
  | none => none

end Detour.Rust
