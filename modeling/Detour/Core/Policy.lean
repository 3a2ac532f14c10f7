import Detour.Core.Name

/-! Per-query routing policy: which names go to DoH, and which must stay on the network's own
resolver. -/

namespace Detour.Core

open Detour.Rust

inductive Route
  | doh
  | systemUpstream
  deriving DecidableEq

def LOCAL_SUFFIXES : List Bytes :=
  [ascii "local", ascii "lan", ascii "home", ascii "home.arpa", ascii "internal",
    ascii "intranet", ascii "localdomain", ascii "localhost"]

structure Policy where
  /-- Default route for names matching nothing more specific. -/
  defaultDoh : Bool
  /-- Suffixes forced onto DoH. -/
  forceDoh : List Bytes
  /-- Suffixes forced to the system resolver, on top of the built-in local set. -/
  forceLocal : List Bytes
  deriving DecidableEq

def Policy.default : Policy := ⟨true, [], []⟩

def normaliseStr (s : Bytes) : Bytes := lowerBytes (trimEndMatches dot s)

def normalise (name : Name) : Bytes := normaliseStr name.toAscii

def endsBelow (name suffix : Bytes) : Bool :=
  suffix.length < name.length && suffix.isSuffixOf name &&
    name[name.length - suffix.length - 1]? == some dot

def suffixMatches (name suffix : Bytes) : Bool :=
  if normaliseStr suffix = [] then false
  else match stripPrefixBytes (ascii "*.") (normaliseStr suffix) with
    -- A leading wildcard means subdomains only, not the bare name.
    | some stripped => endsBelow name stripped
    | none => name == normaliseStr suffix || endsBelow name (normaliseStr suffix)

def isPrivateReverse (name : Bytes) : Bool :=
  match stripSuffixBytes (ascii ".in-addr.arpa") name with
  | some rest =>
    -- Reversed order: the last label here is the first octet of the address.
    match (rest.splitOn dot).reverse with
    | a :: b :: _ => match parseU8Bytes a, parseU8Bytes b with
      | some 10, _ => true
      | some 192, some 168 => true
      | some 172, some n => 16 ≤ n && n ≤ 31
      | some 127, _ => true
      | some 169, some 254 => true
      | _, _ => false
    | [a] => parseU8Bytes a = some 10 ∨ parseU8Bytes a = some 127
    | [] => false
  | none =>
    if (ascii ".ip6.arpa").isSuffixOf name then
      -- fc00::/7 (unique local) and fe80::/10 (link local).
      match ((trimEndMatchesText (ascii ".ip6.arpa") name).splitOn dot).reverse with
      | d :: c :: _ =>
        ["fc", "fd", "fe8", "fe9", "fea", "feb"].any fun p => (ascii p).isPrefixOf (d ++ c)
      | _ => false
    else false

def isSingleLabel (name : Bytes) : Bool := !name.contains dot

def isBuiltinLocal (name : Bytes) : Bool :=
  if LOCAL_SUFFIXES.any fun s => suffixMatches name s then true
  else if isSingleLabel name then true
  else isPrivateReverse name

def Policy.route (p : Policy) (name : Name) : Route :=
  let labels := normalise name
  if p.forceLocal.any fun s => suffixMatches labels s then .systemUpstream
  else if isBuiltinLocal labels then .systemUpstream
  else if p.forceDoh.any fun s => suffixMatches labels s then .doh
  else if p.defaultDoh then .doh
  else .systemUpstream

def Policy.setForceDoh (p : Policy) (domains : List Bytes) : Policy :=
  { p with forceDoh := domains.map normaliseStr }

end Detour.Core
