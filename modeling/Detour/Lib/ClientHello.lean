import Detour.Lib.TlsRecord
import Mathlib.Tactic.Common

/-! The ClientHello message of a TLS handshake, and the host name it asks for.  The fields are
bounded only by the width of their lengths. -/

namespace Tls

theorem drop_add {p a b : List UInt8} {i : Nat} (h : p.drop i = a ++ b) :
    p.drop (i + a.length) = b := by
  rw [← List.drop_drop, h, List.drop_left]

/-! ### Extensions -/

structure Extension where
  type : Nat
  data : List UInt8
  type_fits : type < 65536
  fits : data.length < 65536

def Extension.encode (e : Extension) : List UInt8 :=
  be16 e.type ++ (be16 e.data.length ++ e.data)

@[simp] theorem Extension.length_encode (e : Extension) :
    e.encode.length = 4 + e.data.length := by
  simp [Extension.encode]
  omega

def encodeExtensions (es : List Extension) : List UInt8 := es.flatMap Extension.encode

@[simp] theorem encodeExtensions_cons (e : Extension) (es : List Extension) :
    encodeExtensions (e :: es) = e.encode ++ encodeExtensions es := rfl

@[simp] theorem encodeExtensions_append (es fs : List Extension) :
    encodeExtensions (es ++ fs) = encodeExtensions es ++ encodeExtensions fs :=
  List.flatMap_append

/-! ### The message -/

structure ClientHello where
  version : UInt8 × UInt8
  random : List UInt8
  sessionId : List UInt8
  cipherSuites : List UInt8
  compressions : List UInt8
  extensions : List Extension
  random_length : random.length = 32
  sessionId_fits : sessionId.length < 256
  cipherSuites_fits : cipherSuites.length < 65536
  compressions_fits : compressions.length < 256
  extensions_fits : (encodeExtensions extensions).length < 65536

namespace ClientHello

variable (c : ClientHello)

def choices : List UInt8 :=
  UInt8.ofNat c.sessionId.length :: (c.sessionId ++
    (be16 c.cipherSuites.length ++ (c.cipherSuites ++
      (UInt8.ofNat c.compressions.length :: (c.compressions ++
        (be16 (encodeExtensions c.extensions).length ++ encodeExtensions c.extensions))))))

def body : List UInt8 := c.version.1 :: c.version.2 :: (c.random ++ c.choices)

def encode : List UInt8 :=
  1 :: UInt8.ofNat (c.body.length / 65536) :: (be16 c.body.length ++ c.body)

def choicesThen (tail : List UInt8) : List UInt8 :=
  UInt8.ofNat c.sessionId.length :: (c.sessionId ++
    (be16 c.cipherSuites.length ++ (c.cipherSuites ++
      (UInt8.ofNat c.compressions.length :: (c.compressions ++ tail)))))

def bareBody : List UInt8 := c.version.1 :: c.version.2 :: (c.random ++ c.choicesThen [])

def encodeBare : List UInt8 :=
  1 :: UInt8.ofNat (c.bareBody.length / 65536) :: (be16 c.bareBody.length ++ c.bareBody)

theorem drop_bareChoices : c.encodeBare.drop 38 = c.choicesThen [] := by
  have h : c.random.length = 32 := c.random_length
  simp [encodeBare, be16, bareBody, h]

theorem drop_choices : c.encode.drop 38 = c.choices := by
  have h : c.random.length = 32 := c.random_length
  simp [encode, be16, body, h]

/-! Where the parts after the random bytes start. -/

def ciphersOffset : Nat := 38 + (1 + c.sessionId.length)

def compressionsOffset : Nat := c.ciphersOffset + (2 + c.cipherSuites.length)

def totalOffset : Nat := c.compressionsOffset + (1 + c.compressions.length)

def extensionsOffset : Nat := c.totalOffset + 2

section Fields

variable {c} {p tail : List UInt8} (h : p.drop 38 = c.choicesThen tail)

include h

theorem drop_ciphers : p.drop c.ciphersOffset = be16 c.cipherSuites.length ++
    (c.cipherSuites ++ (UInt8.ofNat c.compressions.length :: (c.compressions ++ tail))) := by
  rw [ciphersOffset, Nat.add_comm 1]
  apply drop_add (a := UInt8.ofNat c.sessionId.length :: c.sessionId)
  exact h

theorem drop_compressions : p.drop c.compressionsOffset =
    UInt8.ofNat c.compressions.length :: (c.compressions ++ tail) := by
  rw [compressionsOffset, ← Nat.add_assoc]
  exact drop_add (drop_add (drop_ciphers h))

theorem drop_total : p.drop c.totalOffset = tail := by
  rw [totalOffset, Nat.add_comm 1]
  apply drop_add (a := UInt8.ofNat c.compressions.length :: c.compressions)
  exact drop_compressions h

end Fields

theorem drop_extensionBlock : c.encode.drop c.totalOffset =
    be16 (encodeExtensions c.extensions).length ++ encodeExtensions c.extensions :=
  drop_total c.drop_choices

theorem drop_extensions : c.encode.drop c.extensionsOffset = encodeExtensions c.extensions :=
  drop_add c.drop_extensionBlock

end ClientHello

/-! ### The host name -/

def serverName : Nat := 0

/-- The `server_name` extension of a ClientHello, whose list starts with a host name. -/
structure HostName (c : ClientHello) where
  before : List Extension
  extension : Extension
  after : List Extension
  name : List UInt8
  /-- Further names of the list. -/
  more : List UInt8
  extensions : c.extensions = before ++ extension :: after
  first : ∀ e ∈ before, e.type ≠ serverName
  type : extension.type = serverName
  data : extension.data =
    be16 (3 + name.length + more.length) ++ (0 :: (be16 name.length ++ (name ++ more)))

namespace HostName

variable {c : ClientHello} (h : HostName c)

theorem name_fits : h.name.length < 65536 := by
  have := h.extension.fits
  rw [h.data] at this
  simp at this
  omega

def extensionOffset : Nat := c.extensionsOffset + (encodeExtensions h.before).length

def offset : Nat := h.extensionOffset + 9

theorem drop_extension :
    c.encode.drop h.extensionOffset = h.extension.encode ++ encodeExtensions h.after := by
  apply drop_add
  rw [c.drop_extensions, h.extensions, encodeExtensions_append, encodeExtensions_cons]

theorem drop_data : c.encode.drop (h.extensionOffset + 4) =
    be16 (3 + h.name.length + h.more.length) ++
      (0 :: (be16 h.name.length ++ (h.name ++ (h.more ++ encodeExtensions h.after)))) := by
  have hdata := h.drop_extension
  rw [Extension.encode, List.append_assoc, List.append_assoc] at hdata
  have h' := drop_add (drop_add hdata)
  rw [length_be16, length_be16, Nat.add_assoc, h.data] at h'
  rw [h']
  simp

theorem drop_name : c.encode.drop h.offset = h.name ++ (h.more ++ encodeExtensions h.after) := by
  have h' := drop_add (b := _ :: _) h.drop_data
  rw [length_be16, ← List.singleton_append] at h'
  exact drop_add (drop_add h')

theorem name_le : h.offset + h.name.length ≤ c.encode.length := by
  have hlen := congrArg List.length h.drop_data
  rw [List.length_drop] at hlen
  simp only [List.length_append, List.length_cons, length_be16] at hlen
  rw [offset]
  omega

end HostName

end Tls
