import Mathlib.Data.List.DropRight
import Tolla.Library.Der
import Tolla.Library.Text

/-!
# Alternative names, as OpenSSL makes them

What `X509V3_EXT_nconf_nid` does with the text of a `subjectAltName`, on bytes.
The text is a list of items, separated by commas.  An item is a name and, after a
colon, a value; blanks around both are not part of them.  Commas and colons are
looked for up to the first end of a line only, and what follows it belongs to the
last item.  Each item becomes one name of the extension.

The authority writes one kind of item, an `otherName` with a `UTF8` string, and
only that is spelled out here.  Without a `FORMAT` before it, `UTF8` takes its
bytes for Latin-1.  What OpenSSL makes of other items is a parameter.
-/

namespace Tolla.AltName

/-- `isspace`. -/
def isSpace (b : UInt8) : Bool := b == 32 || (9 ≤ b && b ≤ 13)

/-- `strip_spaces`, which returns nothing if only blanks are there. -/
def stripSpaces (bytes : List UInt8) : Option (List UInt8) :=
  let stripped := (bytes.dropWhile isSpace).rdropWhile isSpace
  if stripped = [] then none else some stripped

/-- A `CONF_VALUE`. -/
structure Item where
  name : List UInt8
  value : Option (List UInt8)
  deriving DecidableEq, Repr

/-- The byte is not the end of a line. -/
def inLine (b : UInt8) : Bool := b ≠ 13 ∧ b ≠ 10

/-- A name, and a value after the first colon of the item.  `rest` follows the item and is not
looked at. -/
def parseItem (item rest : List UInt8) : Option Item :=
  match item.dropWhile (· ≠ 58) with
  | [] => (stripSpaces (item ++ rest)).map fun name => ⟨name, none⟩
  | _ :: value => do
      let name ← stripSpaces (item.takeWhile (· ≠ 58))
      let value ← stripSpaces (value ++ rest)
      return ⟨name, some value⟩

/-- Items with commas between them, and `rest` behind the last. -/
def parseItems (rest : List UInt8) : List (List UInt8) → Option (List Item)
  | [] => some []
  | [last] => (parseItem last rest).map fun item => [item]
  | item :: items => do
      let first ← parseItem item []
      let others ← parseItems rest items
      return first :: others

/-- `X509V3_parse_list`: the first line is divided into items. -/
def parseList (text : List UInt8) : Option (List Item) :=
  parseItems (text.dropWhile inLine) ((text.takeWhile inLine).splitOn 44)

/-- An `otherName` of type 1.3.6.1.4.1.99 with a string made of the text. -/
def otherName (text : List UInt8) : List UInt8 :=
  Der.encode 0xa0 (Der.encode 0x06 [0x2b, 0x06, 0x01, 0x04, 0x01, 0x63] ++
    Der.encode 0xa0 (Der.encode 0x0c (Text.utf8 (Text.latin1 text))))

/-- What stands before the string in the value of an item. -/
def valueFront : List UInt8 := Text.utf8 "1.3.6.1.4.1.99;UTF8:"

/-- `v2i_GENERAL_NAME`. -/
def generalName (other : Item → Option (List UInt8)) (item : Item) : Option (List UInt8) :=
  match item.value with
  | none => other item
  | some value =>
      if item.name = Text.utf8 "otherName" ∧ valueFront <+: value then
        some (otherName (value.drop valueFront.length))
      else other item

/-- The extension.  OpenSSL counts its bytes in a C `int`. -/
def subjectAltName (other : Item → Option (List UInt8)) (text : List UInt8) :
    Option (List UInt8) := do
  let items ← parseList text
  let names ← items.mapM (generalName other)
  let value := Der.encode 0x30 names.flatten
  if value.length < 2 ^ 31 then some value else none

end Tolla.AltName
