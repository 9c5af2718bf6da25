import Tolla.Library.Schema
import Tolla.Protocol.RoundTrip

/-!
# Garbage on a connection

`prost` has one error for a buffer that ends too early and for one that no later
bytes can repair, and `ProtoCodec::decode` takes both for the first.  So what is
wrong with a buffer is told apart from what is missing only if nothing is wrong
(`tellsApart_iff`), and after garbage the connection delivers nothing any more
(`receive_of_malformed`).

Whether a buffer can be repaired is decided by the wire format and by the shape of
a `FromClient`: which numbers it knows, and what it takes for them.
-/

namespace Tolla.Proto

open Wire Readers

/-! ## The shape of a request -/

def Consent.shape : Nat → Shape
  | 1 | 2 => .text
  | 3 | 4 | 5 | 6 => .number
  | _ => .any

def Certificate.shape : Nat → Shape
  | 1 => .text
  | 2 | 3 => .raw
  | _ => .any

def Intent.shape : Nat → Shape
  | 1 | 2 => .text
  | _ => .any

def NewUser.shape : Nat → Shape
  | 1 | 2 => .text
  | _ => .any

def FromClient.shape : Nat → Shape
  | 1 => .message Consent.shape
  | 2 => .message Certificate.shape
  | 3 => .message Intent.shape
  | 4 => .message NewUser.shape
  | 5 => .number
  | _ => .any

/-- What is merged into a message, whatever is in it already, are the fields that the
shape takes. -/
def Describes (fields : Nat → Shape) (μ : Type) [Message μ] : Prop :=
  ∀ (message : μ) (field : Field),
    (Message.mergeField message field).isSome ↔ Shape.Takes fields field

section Describes

variable {μ : Type} [Message μ] {fields : Nat → Shape}

theorem Describes.isSome_foldlM (hdescribes : Describes fields μ) (message : μ)
    (all : List Field) :
    (all.foldlM Message.mergeField message).isSome ↔ ∀ field ∈ all, Shape.Takes fields field := by
  induction all generalizing message with
  | nil => simp
  | cons field rest ih =>
      rw [List.foldlM_cons, List.forall_mem_cons, ← hdescribes message field]
      cases hmerge : Message.mergeField message field with
      | none => simp
      | some next => simpa using ih next

theorem Describes.isSome_decode (hdescribes : Describes fields μ) (bytes : List UInt8) :
    (Message.decode bytes : Option μ).isSome ↔ (Shape.message fields).Contains bytes := by
  unfold Message.decode
  change _ ↔ ∃ all, parse bytes = some all ∧ ∀ field ∈ all, Shape.Takes fields field
  cases hparse : parse bytes with
  | none => simp
  | some all => simpa using hdescribes.isSome_foldlM _ all

theorem Describes.isSome_merge (hdescribes : Describes fields μ) (value : Value) :
    (Message.merge value : Option μ).isSome ↔ (Shape.message fields).Accepts value := by
  cases value with
  | lengthDelimited bytes =>
      have hfits : (Shape.message fields).Fits 2 := rfl
      rw [Shape.accepts_lengthDelimited hfits]
      exact hdescribes.isSome_decode bytes
  | _ => simp [Message.merge, Shape.Accepts, Shape.Fits, Value.wireType]

end Describes

/-! ## What is merged -/

theorem isSome_mergeString (value : Value) :
    (mergeString value).isSome ↔ Shape.text.Accepts value := by
  cases value <;> simp [mergeString, Shape.Accepts, Shape.Fits, Value.wireType, Shape.Contains]

theorem isSome_mergeBytes (value : Value) :
    (mergeBytes value).isSome ↔ Shape.raw.Accepts value := by
  cases value <;> simp [mergeBytes, Shape.Accepts, Shape.Fits, Value.wireType, Shape.Contains]

theorem isSome_mergeUint64 (value : Value) :
    (mergeUint64 value).isSome ↔ Shape.number.Accepts value := by
  cases value <;> simp [mergeUint64, Shape.Accepts, Shape.Fits, Value.wireType, Shape.Contains]

theorem isSome_mergeBool (value : Value) :
    (mergeBool value).isSome ↔ Shape.number.Accepts value := by
  cases value <;> simp [mergeBool, Shape.Accepts, Shape.Fits, Value.wireType, Shape.Contains]

theorem consent_describes : Describes Consent.shape Consent := by
  intro message field
  obtain ⟨number, value⟩ := field
  simp only [Message.mergeField, Shape.Takes, Consent.shape]
  split <;> simp [isSome_mergeString, isSome_mergeUint64, isSome_mergeBool, Shape.accepts_any]

theorem certificate_describes : Describes Certificate.shape Certificate := by
  intro message field
  obtain ⟨number, value⟩ := field
  simp only [Message.mergeField, Shape.Takes, Certificate.shape]
  split <;> simp [isSome_mergeString, isSome_mergeBytes, Shape.accepts_any]

theorem intent_describes : Describes Intent.shape Intent := by
  intro message field
  obtain ⟨number, value⟩ := field
  simp only [Message.mergeField, Shape.Takes, Intent.shape]
  split <;> simp [isSome_mergeString, Shape.accepts_any]

theorem newUser_describes : Describes NewUser.shape NewUser := by
  intro message field
  obtain ⟨number, value⟩ := field
  simp only [Message.mergeField, Shape.Takes, NewUser.shape]
  split <;> simp [isSome_mergeString, Shape.accepts_any]

theorem fromClient_describes : Describes FromClient.shape FromClient := by
  intro message field
  obtain ⟨number, value⟩ := field
  simp only [Message.mergeField, Shape.Takes, FromClient.shape]
  split <;> simp [consent_describes.isSome_merge, certificate_describes.isSome_merge,
    intent_describes.isSome_merge, newUser_describes.isSome_merge, isSome_mergeBool,
    Shape.accepts_any]

theorem fromClient_open : (Shape.message FromClient.shape).Open := by
  refine ⟨rfl, fun number => ?_⟩
  unfold FromClient.shape
  split
  · exact ⟨rfl, fun inner => by unfold Consent.shape; split <;> trivial⟩
  · exact ⟨rfl, fun inner => by unfold Certificate.shape; split <;> trivial⟩
  · exact ⟨rfl, fun inner => by unfold Intent.shape; split <;> trivial⟩
  · exact ⟨rfl, fun inner => by unfold NewUser.shape; split <;> trivial⟩
  · trivial
  · trivial

/-! ## Buffers -/

/-- Nothing is wrong with the buffer: its complete fields are right, and with some
number of bytes so is the one that has begun. -/
def WellBegun (buffer : List UInt8) : Prop :=
  ∃ count, (Shape.message FromClient.shape).Continues count buffer

/-- Some continuation of the buffer is a `FromClient`. -/
def Repairable (buffer : List UInt8) : Prop :=
  ∃ more, (Message.decode (buffer ++ more) : Option FromClient).isSome

theorem repairable_iff (buffer : List UInt8) : Repairable buffer ↔ WellBegun buffer := by
  constructor
  · rintro ⟨more, hdecode⟩
    rw [fromClient_describes.isSome_decode] at hdecode
    exact ⟨more.length, (Shape.continues_iff fromClient_open _ _).mp ⟨more, rfl, hdecode⟩⟩
  · rintro ⟨count, hcontinues⟩
    obtain ⟨more, -, hcontains⟩ := (Shape.continues_iff fromClient_open _ _).mpr hcontinues
    exact ⟨more, (fromClient_describes.isSome_decode _).mpr hcontains⟩

/-! ## The decoder -/

/-- The decoder waits only for what can come, and reports what cannot be repaired. -/
def TellsApart (buffer : List UInt8) : Prop :=
  ((ProtoCodec.tryDecode buffer).1 = .ok none → Repairable buffer) ∧
  (¬ Repairable buffer → ∃ error, (ProtoCodec.tryDecode buffer).1 = .error error)

/-- `tryDecode` is what the framing calls, and it never reports an error. -/
theorem tryDecode_eq (buffer : List UInt8) :
    ProtoCodec.tryDecode buffer =
      (.ok (ProtoCodec.decode buffer).1, (ProtoCodec.decode buffer).2) := by
  unfold ProtoCodec.tryDecode ProtoCodec.decode Framing.wholeBuffer
  split
  · rfl
  · split <;> simp_all

/-- Incomplete input is told apart from malformed input if and only if nothing is wrong
with it. -/
theorem tellsApart_iff (buffer : List UInt8) : TellsApart buffer ↔ WellBegun buffer := by
  rw [← repairable_iff]
  constructor
  · intro htells
    by_contra hbroken
    obtain ⟨error, herror⟩ := htells.2 hbroken
    rw [tryDecode_eq] at herror
    cases herror
  · intro hrepairable
    exact ⟨fun _ => hrepairable, fun hbroken => absurd hrepairable hbroken⟩

/-- After garbage, nothing is delivered, whatever else arrives. -/
theorem receive_of_malformed {buffer : List UInt8} (hbroken : ¬ WellBegun buffer)
    (reads : List (List UInt8)) : Framing.receive ProtoCodec.decode reads buffer = [] := by
  rw [← repairable_iff] at hbroken
  induction reads generalizing buffer with
  | nil => rfl
  | cons read rest ih =>
      -- what came before cannot be repaired by the read
      have hlonger : ¬ Repairable (buffer ++ read) := by
        rintro ⟨more, hdecode⟩
        rw [List.append_assoc] at hdecode
        exact hbroken ⟨_, hdecode⟩
      have hdecode : (Message.decode (buffer ++ read) : Option FromClient) = none := by
        rw [← Option.not_isSome_iff_eq_none]
        intro hsome
        rw [← List.append_nil (buffer ++ read)] at hsome
        exact hlonger ⟨[], hsome⟩
      have hempty : buffer ++ read ≠ [] := by
        intro hempty
        rw [hempty] at hlonger
        exact hlonger ⟨[], rfl⟩
      rw [Framing.receive, ProtoCodec.decode, Framing.drain_of_none hempty hdecode]
      exact ih hlonger

/-- The byte 3 is a key with the field number 0. -/
theorem garbage_awaited : ¬ ∀ buffer : List UInt8, TellsApart buffer := by
  intro hall
  have hbroken : ¬ Repairable [3] := by
    rw [repairable_iff]
    rintro ⟨count, -, hcontinues⟩
    rw [if_neg (by decide)] at hcontinues
    obtain ⟨here, later, -, -, hkey, -⟩ := hcontinues
    exact hkey.positive rfl
  obtain ⟨error, herror⟩ := (hall [3]).2 hbroken
  exact absurd herror (by rw [tryDecode_eq]; simp)

end Tolla.Proto
