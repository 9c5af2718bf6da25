import Mathlib.Algebra.Group.Nat.Defs
import Tolla.Library.Der
import Tolla.Library.Reader
import Tolla.Library.Text

/-!
# ASN.1, as Go reads it

The part of `encoding/asn1` of Go 1.8 that the proxy calls: `Unmarshal` into a
`RawValue`, into the structure `OtherName`, into a string and, for the serial
number of a certificate, into a `big.Int`.  All errors are one here, because the
proxy does not tell them apart.

Lengths and tags have to be in their shortest form, a tag or an object
identifier component has at most four bytes, and bytes after the last element
of a sequence are ignored.
-/

namespace Tolla.Asn1

open Readers

structure RawValue where
  «class» : Nat
  tag : Nat
  isCompound : Bool
  bytes : List UInt8
  fullBytes : List UInt8
  deriving DecidableEq, Repr

/-- The universal tags. -/
def tagBoolean : Nat := 1
def tagInteger : Nat := 2
def tagOctetString : Nat := 4
def tagObjectIdentifier : Nat := 6
def tagUtf8String : Nat := 12
def tagSequence : Nat := 16
def tagPrintableString : Nat := 19
def tagT61String : Nat := 20
def tagIa5String : Nat := 22
def tagGeneralString : Nat := 27

/-- The loop of `parseBase128Int`, which gives up at the fifth byte. -/
def base128Loop : Nat → Nat → Reader UInt8 Nat
  | 0, _, _ => none
  | _ + 1, _, [] => none
  | fuel + 1, value, byte :: rest =>
      let value' := value * 128 + byte.toNat % 128
      if byte.toNat < 128 then some (value', rest) else base128Loop fuel value' rest

def parseBase128Int : Reader UInt8 Nat := base128Loop 4 0

/-- The class, whether the value is compound, and the tag. -/
def parseTag : Reader UInt8 (Nat × Bool × Nat)
  | [] => none
  | byte :: rest =>
      let «class» := byte.toNat / 64
      let isCompound := byte.toNat / 32 % 2 = 1
      if byte.toNat % 32 = 31 then
        match parseBase128Int rest with
        | none => none
        | some (tag, rest) => if tag < 31 then none else some ((«class», isCompound, tag), rest)
      else some ((«class», isCompound, byte.toNat % 32), rest)

/-- The bytes of a length in its long form. -/
def lengthLoop : Nat → Nat → Reader UInt8 Nat
  | 0, length, bytes => some (length, bytes)
  | _ + 1, _, [] => none
  | numBytes + 1, length, byte :: rest =>
      if 2 ^ 23 ≤ length then none
      else
        let length' := length * 256 + byte.toNat
        if length' = 0 then none else lengthLoop numBytes length' rest

def parseLength : Reader UInt8 Nat
  | [] => none
  | byte :: rest =>
      if byte.toNat < 128 then some (byte.toNat, rest)
      else if byte.toNat = 128 then none
      else
        match lengthLoop (byte.toNat - 128) 0 rest with
        | none => none
        | some (length, rest) => if length < 128 then none else some (length, rest)

/-- `asn1.Unmarshal(bytes, &v)` for a `RawValue`. -/
def unmarshalRaw : Reader UInt8 RawValue := fun input =>
  match parseTag input with
  | none => none
  | some ((«class», isCompound, tag), afterTag) =>
  match parseLength afterTag with
  | none => none
  | some (length, content) =>
      if length ≤ content.length then
        let rest := content.drop length
        some (⟨«class», tag, isCompound, content.take length,
          input.take (input.length - rest.length)⟩, rest)
      else none

/-- A value of a universal type. -/
def unmarshalUniversal (tag : Nat) (isCompound : Bool) : Reader UInt8 RawValue := fun input =>
  match unmarshalRaw input with
  | none => none
  | some (value, rest) =>
      if value.class = 0 ∧ value.tag = tag ∧ value.isCompound = isCompound then some (value, rest)
      else none

/-- The components of an object identifier. -/
def parseObjectIdentifier (bytes : List UInt8) : Option (List Nat) :=
  match many parseBase128Int bytes with
  | none => none
  | some [] => none
  | some (first :: rest) =>
      if first < 80 then some (first / 40 :: first % 40 :: rest)
      else some (2 :: (first - 80) :: rest)

/-- An `asn1.ObjectIdentifier`. -/
def unmarshalObjectIdentifier : Reader UInt8 (List Nat) := fun input =>
  match unmarshalUniversal tagObjectIdentifier false input with
  | none => none
  | some (value, rest) => (parseObjectIdentifier value.bytes).map fun id => (id, rest)

/-- The bytes allowed in a `PrintableString`, and the asterisk. -/
def isPrintable (b : UInt8) : Bool :=
  (97 ≤ b && b ≤ 122) || (65 ≤ b && b ≤ 90) || (48 ≤ b && b ≤ 57) || (39 ≤ b && b ≤ 41) ||
    (43 ≤ b && b ≤ 47) || b == 32 || b == 58 || b == 61 || b == 63 || b == 42

/-- The content of a string type, if it is valid. -/
def stringContent (tag : Nat) (bytes : List UInt8) : Option (List UInt8) :=
  if tag = tagPrintableString then if bytes.all isPrintable then some bytes else none
  else if tag = tagIa5String then if bytes.all (· < 128) then some bytes else none
  else if tag = tagUtf8String then (Text.fromUtf8 bytes).map fun _ => bytes
  else if tag = tagT61String ∨ tag = tagGeneralString then some bytes
  else none

/-- `asn1.Unmarshal(bytes, &s)` for a Go string. -/
def unmarshalString (input : List UInt8) : Option (List UInt8) :=
  match unmarshalRaw input with
  | none => none
  | some (value, _) =>
      if value.class = 0 ∧ value.isCompound = false then stringContent value.tag value.bytes
      else none

/-- `OtherName`: an object identifier, which nobody looks at, and a value. -/
structure OtherName where
  typeId : List Nat
  value : RawValue
  deriving DecidableEq, Repr

/-- `asn1.Unmarshal(bytes, &other)`. -/
def unmarshalOtherName (input : List UInt8) : Option OtherName :=
  match unmarshalUniversal tagSequence true input with
  | none => none
  | some (sequence, _) =>
  match unmarshalObjectIdentifier sequence.bytes with
  | none => none
  | some (typeId, rest) =>
  match unmarshalRaw rest with
  | none => none
  | some (value, _) => some ⟨typeId, value⟩

/-- `parseBigInt`: an integer in two's complement, in the fewest bytes. -/
def parseBigInt (bytes : List UInt8) : Option Int :=
  match bytes with
  | [] => none
  | first :: rest =>
      if (first = 0 ∧ rest.head?.any (· < 128)) ∨ (first = 0xff ∧ rest.head?.any (128 ≤ ·)) then
        none
      else if 128 ≤ first then some (-(Der.number (bytes.map (~~~·)) + 1))
      else some (Der.number bytes)

/-- A `*big.Int`. -/
def unmarshalBigInt : Reader UInt8 Int := fun input =>
  match unmarshalUniversal tagInteger false input with
  | none => none
  | some (value, rest) => (parseBigInt value.bytes).map fun n => (n, rest)

/-! ## Certificates -/

/-- `pkix.Extension`. -/
structure Extension where
  id : List Nat
  value : List UInt8
  deriving DecidableEq, Repr

/-- An extension is a sequence of an identifier, possibly a flag, and a value. -/
def unmarshalExtension (bytes : List UInt8) : Option Extension :=
  match unmarshalObjectIdentifier bytes with
  | none => none
  | some (id, rest) =>
      let rest := match unmarshalUniversal tagBoolean false rest with
        | some (_, rest) => rest
        | none => rest
      (unmarshalUniversal tagOctetString false rest).map fun value => ⟨id, value.1.bytes⟩

/-- The extensions of a certificate: the element of its first part that is tagged
with 3. -/
def parseExtensions (raw : List UInt8) : Option (List Extension) := do
  let (certificate, _) ← unmarshalUniversal tagSequence true raw
  let (tbs, _) ← unmarshalUniversal tagSequence true certificate.bytes
  let elements ← many unmarshalRaw tbs.bytes
  let tagged ← elements.find? fun element => element.class = 2 ∧ element.tag = 3
  let (sequence, _) ← unmarshalUniversal tagSequence true tagged.bytes
  let extensions ← many unmarshalRaw sequence.bytes
  extensions.mapM fun extension => unmarshalExtension extension.bytes

end Tolla.Asn1
