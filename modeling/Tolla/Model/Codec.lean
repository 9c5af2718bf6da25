import Tolla.Library.Framing
import Tolla.Library.Text
import Tolla.Library.Wire
import Tolla.Model.Messages

/-!
# The codecs

`tolla_proto/src/lib.rs`, with what `prost` derives from `messages.proto`.

A message is written field by field, in the order of the declaration.  A scalar
with its default value is left out, a member of a `oneof` is always written.
When a message is read, fields that it does not know are passed over, a repeated
field is appended to, and of several values for one field or one `oneof` the
last one stays.  A wrong wire type, text that is not UTF-8 and a broken field
are errors, and an error ends the reading of the message.

`prost` reads and merges field by field; here the fields are read first.  An
error in either makes the whole message an error, so nothing depends on the
order.

The buffers are `BytesMut`, which do not grow when a message is written into
them.
-/

namespace Tolla.Proto

open Wire

/-! ## Scalars -/

def stringField (number : Nat) (text : String) : List Field :=
  if text = "" then [] else [⟨number, .lengthDelimited (Text.utf8 text)⟩]

def bytesField (number : Nat) (bytes : List UInt8) : List Field :=
  if bytes = [] then [] else [⟨number, .lengthDelimited bytes⟩]

def uint64Field (number : Nat) (value : UInt64) : List Field :=
  if value = 0 then [] else [⟨number, .varint value⟩]

def boolField (number : Nat) (value : Bool) : List Field :=
  if value then [⟨number, .varint 1⟩] else []

def repeatedString (number : Nat) (texts : List String) : List Field :=
  texts.map fun text => ⟨number, .lengthDelimited (Text.utf8 text)⟩

def mergeString : Value → Option String
  | .lengthDelimited bytes => Text.fromUtf8 bytes
  | _ => none

def mergeBytes : Value → Option (List UInt8)
  | .lengthDelimited bytes => some bytes
  | _ => none

def mergeUint64 : Value → Option UInt64
  | .varint value => some value
  | _ => none

def mergeBool : Value → Option Bool
  | .varint value => some (value ≠ 0)
  | _ => none

/-! ## Messages -/

/-- A message type: its default, what is written and how a field is read. -/
class Message (μ : Type) where
  default : μ
  fields : μ → List Field
  mergeField : μ → Field → Option μ

namespace Message

variable {μ : Type} [Message μ]

def encodeRaw (message : μ) : List UInt8 := serialize (fields message)

def decode (bytes : List UInt8) : Option μ := do
  let fields ← parse bytes
  fields.foldlM mergeField default

/-- A message inside a message. -/
def field (number : Nat) (message : μ) : Field := ⟨number, .lengthDelimited (encodeRaw message)⟩

def merge : Value → Option μ
  | .lengthDelimited bytes => decode bytes
  | _ => none

end Message

instance : Message Certificate where
  default := ⟨"", [], []⟩
  fields c := stringField 1 c.intent ++ bytesField 2 c.request ++ bytesField 3 c.rootCert
  mergeField c field :=
    match field.number with
    | 1 => (mergeString field.value).map fun value => { c with intent := value }
    | 2 => (mergeBytes field.value).map fun value => { c with request := value }
    | 3 => (mergeBytes field.value).map fun value => { c with rootCert := value }
    | _ => some c

instance : Message Addresses where
  default := ⟨[]⟩
  fields a := repeatedString 1 a.ip
  mergeField a field :=
    match field.number with
    | 1 => (mergeString field.value).map fun value => { a with ip := a.ip ++ [value] }
    | _ => some a

instance : Message Error where
  default := ⟨""⟩
  fields e := stringField 1 e.error
  mergeField e field :=
    match field.number with
    | 1 => (mergeString field.value).map fun value => { e with error := value }
    | _ => some e

instance : Message NewUser where
  default := ⟨"", ""⟩
  fields u := stringField 1 u.userid ++ stringField 2 u.email
  mergeField u field :=
    match field.number with
    | 1 => (mergeString field.value).map fun value => { u with userid := value }
    | 2 => (mergeString field.value).map fun value => { u with email := value }
    | _ => some u

instance : Message Intent where
  default := ⟨"", ""⟩
  fields i := stringField 1 i.id ++ stringField 2 i.intent
  mergeField i field :=
    match field.number with
    | 1 => (mergeString field.value).map fun value => { i with id := value }
    | 2 => (mergeString field.value).map fun value => { i with intent := value }
    | _ => some i

instance : Message Consent where
  default := ⟨"", [], 0, false, false, false⟩
  fields c := stringField 1 c.id ++ repeatedString 2 c.purpose ++ uint64Field 3 c.lifetime ++
    boolField 4 c.marketing ++ boolField 5 c.profiling ++ boolField 6 c.public
  mergeField c field :=
    match field.number with
    | 1 => (mergeString field.value).map fun value => { c with id := value }
    | 2 => (mergeString field.value).map fun value => { c with purpose := c.purpose ++ [value] }
    | 3 => (mergeUint64 field.value).map fun value => { c with lifetime := value }
    | 4 => (mergeBool field.value).map fun value => { c with marketing := value }
    | 5 => (mergeBool field.value).map fun value => { c with profiling := value }
    | 6 => (mergeBool field.value).map fun value => { c with «public» := value }
    | _ => some c

/-- The field of a `from_client::Msg`. -/
def Request.field : Request → Field
  | .consent c => Message.field 1 c
  | .certificateRequest r => Message.field 2 r
  | .intent i => Message.field 3 i
  | .user u => Message.field 4 u
  | .requestIps b => ⟨5, .varint (if b then 1 else 0)⟩

instance : Message FromClient where
  default := ⟨none⟩
  fields m := m.msg.toList.map Request.field
  mergeField m field :=
    match field.number with
    | 1 => (Message.merge field.value).map fun c => ⟨some (.consent c)⟩
    | 2 => (Message.merge field.value).map fun r => ⟨some (.certificateRequest r)⟩
    | 3 => (Message.merge field.value).map fun i => ⟨some (.intent i)⟩
    | 4 => (Message.merge field.value).map fun u => ⟨some (.user u)⟩
    | 5 => (mergeBool field.value).map fun b => ⟨some (.requestIps b)⟩
    | _ => some m

/-- The field of a `to_client::Msg`. -/
def Body.field : Body → Field
  | .error e => Message.field 2 e
  | .certificate c => Message.field 3 c
  | .ips a => Message.field 4 a

instance : Message ToClient where
  default := ⟨false, none⟩
  fields m := boolField 1 m.success ++ m.msg.toList.map Body.field
  mergeField m field :=
    match field.number with
    | 1 => (mergeBool field.value).map fun b => { m with success := b }
    | 2 => (Message.merge field.value).map fun e => { m with msg := some (.error e) }
    | 3 => (Message.merge field.value).map fun c => { m with msg := some (.certificate c) }
    | 4 => (Message.merge field.value).map fun a => { m with msg := some (.ips a) }
    | _ => some m

/-! ## Buffers -/

/-- A byte buffer of a fixed capacity. -/
structure BytesMut where
  capacity : UInt64
  bytes : List UInt8
  fits : bytes.length ≤ capacity.toNat

/-- The write buffer of a new connection. -/
def BytesMut.fresh : BytesMut := ⟨8192, [], by decide⟩

/-- The error of a message that does not fit into the buffer. -/
structure EncodeError where
  required : Nat
  remaining : Nat
  deriving DecidableEq, Repr

def BytesMut.remainingMut (buf : BytesMut) : Nat := buf.capacity.toNat - buf.bytes.length

/-- `prost::Message::encode`. -/
def Message.encode {μ : Type} [Message μ] (message : μ) (buf : BytesMut) :
    Except EncodeError BytesMut :=
  if h : (encodeRaw message).length ≤ buf.remainingMut then
    .ok
      { capacity := buf.capacity
        bytes := buf.bytes ++ encodeRaw message
        fits := by
          have := buf.fits
          rw [BytesMut.remainingMut] at h
          rw [List.length_append]
          omega }
  else .error ⟨(encodeRaw message).length, buf.remainingMut⟩

/-! ## The two sides of a connection -/

/-- The server reads requests. -/
def ProtoCodec.decode : Framing.Decoder UInt8 FromClient := Framing.wholeBuffer Message.decode

/-- The same with the `io::Result` of the source.  A buffer that `prost` refuses is
reported as one that is not complete. -/
def ProtoCodec.tryDecode (buf : List UInt8) : Except String (Option FromClient) × List UInt8 :=
  if buf.isEmpty then (.ok none, buf)
  else
    match Message.decode buf with
    | none => (.ok none, buf)
    | some msg => (.ok (some msg), [])

/-- The server writes replies. -/
def ProtoCodec.encode (reply : ToClient) (buf : BytesMut) : Except EncodeError BytesMut :=
  Message.encode reply buf

/-- The client reads replies. -/
def ProtoClient.decode : Framing.Decoder UInt8 ToClient := Framing.wholeBuffer Message.decode

/-- The client writes requests. -/
def ProtoClient.encode (request : FromClient) (buf : BytesMut) : Except EncodeError BytesMut :=
  Message.encode request buf

/-- The bytes that messages put on a connection, one after another.  The transport
takes bytes out of the buffer when it likes, so the state of the buffer before
each message is given with the message. -/
def sendAll {μ : Type} (encode : μ → BytesMut → Except EncodeError BytesMut) :
    List (BytesMut × μ) → Except EncodeError (List UInt8)
  | [] => .ok []
  | (buf, message) :: rest => do
      let after ← encode message buf
      let others ← sendAll encode rest
      return after.bytes.drop buf.bytes.length ++ others

end Tolla.Proto
