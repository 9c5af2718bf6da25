import Tolla.Library.Text
import Tolla.Library.Wire

/-!
# What a message takes

A `Shape` says what a message takes for a field: a number, text, bytes, another
message, or anything, if the field is unknown.  `Accepts` is about values that are
there.  `Continues` is about bytes that are only the beginning of one: with a given
number of further bytes they can become a content of that shape.

It is decided part by part.  The fields of a message that are complete have to be
right.  The one after them has begun, so each of its parts that is complete has to
be right, and the others can still be chosen: the rest of a key, the rest of a
length, the content after it.  Since the length of a message stands before it, the
bytes have to come out exactly; more fields can fill what is left over, unless it
is a single byte.

The main result is that nothing else matters (`continues_iff`).  It follows the
readers: how the parts of an item are completed says how the item is
(`completesIn_of_some`, `completesIn_of_none`).
-/

namespace Wire

open Readers

/-- The fields of a message are given by their number. -/
inductive Shape where
  | number
  | text
  | raw
  | any
  | message (fields : Nat → Shape)

namespace Shape

/-- The wire types of a shape. -/
def Fits : Shape → Nat → Prop
  | number, wireType => wireType = 0
  | any, wireType => wireType = 0 ∨ wireType = 1 ∨ wireType = 2 ∨ wireType = 5
  | _, wireType => wireType = 2

/-- The bytes are a content of the shape. -/
def Contains : Shape → List UInt8 → Prop
  | text, bytes => (Text.fromUtf8 bytes).isSome
  | message fields, bytes => ∃ all, parse bytes = some all ∧ ∀ field ∈ all,
      (fields field.number).Fits field.value.wireType ∧
        ∀ content, field.value = .lengthDelimited content →
          (fields field.number).Contains content
  | _, _ => True

def Accepts (shape : Shape) (value : Value) : Prop :=
  shape.Fits value.wireType ∧ ∀ content, value = .lengthDelimited content → shape.Contains content

/-- Every message has room for a field that it does not know.  15 is the last number
whose key is one byte. -/
def Open : Shape → Prop
  | message fields => fields 15 = any ∧ ∀ number, (fields number).Open
  | _ => True

variable {shape : Shape} {wireType count : Nat} {front : List UInt8}

theorem Fits.supported (hfits : shape.Fits wireType) :
    wireType = 0 ∨ wireType = 1 ∨ wireType = 2 ∨ wireType = 5 := by
  cases shape with
  | number => exact .inl hfits
  | any => exact hfits
  | _ => exact .inr (.inr (.inl hfits))

theorem accepts_any (value : Value) : any.Accepts value := by
  refine ⟨?_, fun _ _ => trivial⟩
  cases value with
  | varint value => exact .inl rfl
  | fixed64 bytes => exact .inr (.inl rfl)
  | lengthDelimited bytes => exact .inr (.inr (.inl rfl))
  | fixed32 bytes => exact .inr (.inr (.inr rfl))

/-- Only the content matters besides the wire type. -/
theorem accepts_of_scalar {value : Value} (hfits : shape.Fits value.wireType)
    (hscalar : value.wireType ≠ 2) : shape.Accepts value := by
  refine ⟨hfits, fun content hvalue => ?_⟩
  rw [hvalue] at hscalar
  exact absurd rfl hscalar

theorem accepts_lengthDelimited {bytes : List UInt8} (hfits : shape.Fits 2) :
    shape.Accepts (.lengthDelimited bytes) ↔ shape.Contains bytes := by
  constructor
  · intro haccepts
    exact haccepts.2 bytes rfl
  · intro hcontains
    refine ⟨hfits, fun content hvalue => ?_⟩
    rwa [← Value.lengthDelimited.inj hvalue]

/-! ## Beginnings -/

/-- With `count` more bytes, the front is a value.  `inside` says the same of its
content. -/
def ValueContinues (inside : Nat → List UInt8 → Prop) (wireType count : Nat)
    (front : List UInt8) : Prop :=
  match wireType with
  | 0 => 0 < count ∧ front.length + count ≤ 10
  | 1 => front.length + count = 8
  | 2 =>
      match decodeVarint front with
      | none =>
          ∃ here length, here + length = count ∧ Finishes front here length ∧ inside length []
      | some (length, bytes) => bytes.length + count = length.toNat ∧ inside count bytes
  | 5 => front.length + count = 4
  | _ => False

/-- The key of a field that the message takes. -/
structure KeyFits (fields : Nat → Shape) (key : Nat) : Prop where
  small : key < 2 ^ 32
  positive : key / 8 ≠ 0
  fits : (fields (key / 8)).Fits (key % 8)

/-- With `count` more bytes, the front is a field. -/
def FieldContinues (fields : Nat → Shape) (inside : Nat → Nat → List UInt8 → Prop) (count : Nat)
    (front : List UInt8) : Prop :=
  match decodeVarint front with
  | none => ∃ here later key, here + later = count ∧ Finishes front here key ∧
      KeyFits fields key ∧ ValueContinues (inside (key / 8)) (key % 8) later []
  | some (key, content) => KeyFits fields key.toNat ∧
      ValueContinues (inside (key.toNat / 8)) (key.toNat % 8) count content

/-- With `count` more bytes, the front is a content of the shape. -/
def Continues : Shape → Nat → List UInt8 → Prop
  | text, count, front => ∃ more, more.length = count ∧ (Text.fromUtf8 (front ++ more)).isSome
  | message fields, count, front =>
      (∀ field ∈ (leading readField front).1, (fields field.number).Accepts field.value) ∧
      if (leading readField front).2 = [] then count ≠ 1
      else ∃ here later, here + later = count ∧ later ≠ 1 ∧
        FieldContinues fields (fun number => (fields number).Continues) here
          (leading readField front).2
  | _, _, _ => True

/-! ## Values -/

theorem exists_length (count : Nat) : ∃ more : List UInt8, more.length = count :=
  ⟨List.replicate count 0, List.length_replicate⟩

/-- A varint can always be finished if there is room for another byte. -/
theorem exists_finishes (hpositive : 0 < count) (hshort : front.length + count ≤ 10) :
    ∃ value : UInt64, Finishes front count value.toNat := by
  have hpart := varintPart_lt front
  have hbound : 128 ^ front.length ≤ 128 ^ 9 := Nat.pow_le_pow_right (by omega) (by omega)
  have hvalue : (UInt64.ofNat (varintPart front)).toNat = varintPart front := by
    rw [UInt64.toNat_ofNat']
    omega
  refine ⟨UInt64.ofNat (varintPart front), ?_⟩
  rw [hvalue]
  refine ⟨hpositive, hshort, ?_, by omega, Nat.mod_eq_of_lt hpart⟩
  exact Nat.lt_of_lt_of_le hpart (Nat.pow_le_pow_right (by omega) (by omega))

/-- A value of a fixed length. -/
theorem completesIn_fixed {n : Nat} {make : List UInt8 → Value}
    (haccepts : ∀ bytes, shape.Accepts (make bytes)) :
    CompletesIn (andThen (take n) fun bytes => result (make bytes)) shape.Accepts count front ↔
      front.length + count = n := by
  rw [completesIn_result, completesIn_take]
  refine and_iff_left ?_
  obtain ⟨more, hmore⟩ := exists_length count
  exact ⟨more, hmore, haccepts _⟩

variable {inside : Nat → List UInt8 → Prop}

/-- A content of a given length. -/
theorem completesIn_content {n : Nat} (hfits : shape.Fits 2)
    (hinside : ∀ count front,
      (∃ more, more.length = count ∧ shape.Contains (front ++ more)) ↔ inside count front) :
    CompletesIn (andThen (take n) fun bytes => result (.lengthDelimited bytes)) shape.Accepts
      count front ↔ front.length + count = n ∧ inside count front := by
  rw [completesIn_result, completesIn_take, ← hinside]
  refine and_congr_right fun _ => exists_congr fun more => and_congr_right fun _ => ?_
  exact accepts_lengthDelimited hfits

theorem valueContinues_iff (hfits : shape.Fits wireType) (hnone : readValue wireType front = none)
    (hinside : ∀ count front,
      (∃ more, more.length = count ∧ shape.Contains (front ++ more)) ↔ inside count front) :
    CompletesIn (readValue wireType) shape.Accepts count front ↔
      ValueContinues inside wireType count front := by
  rcases hfits.supported with rfl | rfl | rfl | rfl
  · -- a varint
    rw [readValue, completesIn_result, finishes_iff (andThen_result_eq_none hnone)]
    constructor
    · rintro ⟨value, hfinishes, -⟩
      exact ⟨hfinishes.positive, hfinishes.short⟩
    · rintro ⟨hpositive, hshort⟩
      obtain ⟨value, hfinishes⟩ := exists_finishes hpositive hshort
      exact ⟨value, hfinishes, accepts_of_scalar hfits (by simp [Value.wireType])⟩
  · exact completesIn_fixed fun bytes => accepts_of_scalar hfits (by simp [Value.wireType])
  · -- a length, and as many bytes
    unfold ValueContinues
    rw [readValue]
    cases hlength : decodeVarint front with
    | none =>
        rw [completesIn_of_none decodeVarint_extensible decodeVarint_splits hlength]
        constructor
        · rintro ⟨here, later, rfl, hcompletes⟩
          obtain ⟨length, hfinishes, hcontent⟩ := (finishes_iff hlength).mp hcompletes
          obtain ⟨hlater, hcontent⟩ := (completesIn_content hfits hinside).mp hcontent
          rw [List.length_nil, Nat.zero_add] at hlater
          exact ⟨here, later, rfl, hlater ▸ hfinishes, hcontent⟩
        · rintro ⟨here, length, rfl, hfinishes, hcontent⟩
          have htoNat : (UInt64.ofNat length).toNat = length :=
            UInt64.toNat_ofNat_of_lt' hfinishes.bounded
          refine ⟨here, length, rfl, (finishes_iff hlength).mpr ⟨UInt64.ofNat length, ?_, ?_⟩⟩
          · rwa [htoNat]
          · rw [completesIn_content hfits hinside, htoNat]
            exact ⟨Nat.zero_add _, hcontent⟩
    | some pair =>
        obtain ⟨length, bytes⟩ := pair
        rw [completesIn_of_some decodeVarint_extensible hlength]
        exact completesIn_content hfits hinside
  · exact completesIn_fixed fun bytes => accepts_of_scalar hfits (by simp [Value.wireType])

/-! ## Fields -/

variable {fields : Nat → Shape}

theorem readValue_nil (wireType : Nat) : readValue wireType [] = none := by
  unfold readValue
  split <;> rfl

/-- The message takes the field. -/
def Takes (fields : Nat → Shape) (field : Field) : Prop :=
  (fields field.number).Accepts field.value

section Fields

variable {inside : Nat → Nat → List UInt8 → Prop}
  (hinside : ∀ number count front,
    (∃ more, more.length = count ∧ (fields number).Contains (front ++ more)) ↔
      inside number count front)

include hinside

/-- After a key, the value is completed. -/
theorem completesIn_keyed {key : Nat}
    (hnone : KeyFits fields key → readValue (key % 8) front = none) :
    CompletesIn (if 2 ^ 32 ≤ key ∨ key / 8 = 0 then failure
      else andThen (readValue (key % 8)) fun value => result ⟨key / 8, value⟩)
      (Takes fields) count front ↔
      KeyFits fields key ∧ ValueContinues (inside (key / 8)) (key % 8) count front := by
  split
  · rename_i hinvalid
    refine iff_of_false completesIn_failure fun hvalid => ?_
    rcases hinvalid with hlarge | hzero
    · exact Nat.not_lt.mpr hlarge hvalid.1.small
    · exact hvalid.1.positive hzero
  · rename_i hvalid
    rw [not_or, Nat.not_le] at hvalid
    rw [completesIn_result]
    by_cases hfits : (fields (key / 8)).Fits (key % 8)
    · have hkey : KeyFits fields key := ⟨hvalid.1, hvalid.2, hfits⟩
      rw [and_iff_right hkey]
      exact valueContinues_iff hfits (hnone hkey) (hinside _)
    · refine iff_of_false ?_ fun hkey => hfits hkey.1.fits
      rintro ⟨more, value, -, hread, haccepts⟩
      apply hfits
      rw [← wireType_of_readValue hread]
      exact haccepts.1

theorem fieldContinues_iff (hnone : readField front = none) :
    CompletesIn readField (Takes fields) count front ↔
      FieldContinues fields inside count front := by
  unfold FieldContinues
  cases hkey : decodeVarint front with
  | none =>
      rw [readField, completesIn_of_none decodeVarint_extensible decodeVarint_splits hkey]
      constructor
      · rintro ⟨here, later, rfl, hcompletes⟩
        obtain ⟨key, hfinishes, hvalue⟩ := (finishes_iff hkey).mp hcompletes
        rw [completesIn_keyed hinside fun _ => readValue_nil _] at hvalue
        exact ⟨here, later, key.toNat, rfl, hfinishes, hvalue⟩
      · rintro ⟨here, later, key, rfl, hfinishes, hvalue⟩
        have htoNat : (UInt64.ofNat key).toNat = key :=
          UInt64.toNat_ofNat_of_lt' hfinishes.bounded
        refine ⟨here, later, rfl, (finishes_iff hkey).mpr ⟨UInt64.ofNat key, ?_, ?_⟩⟩
        · rwa [htoNat]
        · rw [htoNat]
          exact (completesIn_keyed hinside fun _ => readValue_nil _).mpr hvalue
  | some pair =>
      obtain ⟨key, content⟩ := pair
      rw [readField, completesIn_of_some decodeVarint_extensible hkey]
      apply completesIn_keyed hinside
      -- the key is there, so it is the value that is not complete
      intro hfits
      cases hread : readValue (key.toNat % 8) content with
      | none => rfl
      | some pair =>
          have hwhole : readField front = some (⟨key.toNat / 8, pair.1⟩, pair.2) :=
            readField_eq_some_iff.mpr
              ⟨key, content, hkey, hfits.small, hfits.positive, rfl, hread⟩
          rw [hnone] at hwhole
          cases hwhole

end Fields

/-! ## Messages -/

/-- Fields that no message knows, of every length but 1. -/
theorem exists_filler {n : Nat} (hn : n ≠ 1) :
    ∃ all : List Field, (∀ field ∈ all, field.WellFormed ∧ field.number = 15) ∧
      (serialize all).length = n := by
  have hshort : (⟨15, .varint 0⟩ : Field).WellFormed ∧ (15 : Nat) = 15 :=
    ⟨⟨by decide, by decide, trivial⟩, rfl⟩
  have hlong : (⟨15, .varint 128⟩ : Field).WellFormed ∧ (15 : Nat) = 15 :=
    ⟨⟨by decide, by decide, trivial⟩, rfl⟩
  induction n using Nat.strongRecOn with
  | _ n ih =>
      match n, hn with
      | 0, _ => exact ⟨[], by simp, rfl⟩
      | 2, _ => exact ⟨[⟨15, .varint 0⟩], by simpa using hshort, by decide⟩
      | 3, _ => exact ⟨[⟨15, .varint 128⟩], by simpa using hlong, by decide⟩
      | n + 4, _ =>
          obtain ⟨all, hall, hlength⟩ := ih (n + 2) (by omega) (by omega)
          refine ⟨⟨15, .varint 0⟩ :: all, List.forall_mem_cons.mpr ⟨hshort, hall⟩, ?_⟩
          have htwo : (Field.bytes ⟨15, .varint 0⟩).length = 2 := by decide
          rw [serialize] at hlength
          rw [serialize, List.flatMap_cons, List.length_append, htwo, hlength]
          omega

/-- A field has a key and a value, so it has two bytes. -/
theorem readField_singleton (byte : UInt8) : readField [byte] = none := by
  cases hread : readField [byte] with
  | none => rfl
  | some pair =>
      obtain ⟨key, after, hkey, -, -, -, hvalue⟩ := readField_eq_some_iff.mp hread
      have hshort := decodeVarint_consumes _ _ _ hkey
      obtain rfl : after = [] := List.length_eq_zero_iff.mp (Nat.lt_one_iff.mp hshort)
      rw [readValue_nil] at hvalue
      cases hvalue

/-- A message with room for unknown fields can have every length but 1. -/
theorem completesMany_nil_iff (hroom : fields 15 = any) :
    CompletesMany readField (Takes fields) count [] ↔ count ≠ 1 := by
  constructor
  · rintro ⟨more, all, rfl, hparse, -⟩ hone
    obtain ⟨byte, rfl⟩ := List.length_eq_one_iff.mp hone
    rw [List.nil_append, many_of_none (List.cons_ne_nil _ _) (readField_singleton byte)] at hparse
    cases hparse
  · intro hcount
    obtain ⟨all, hall, hlength⟩ := exists_filler hcount
    have hparse : parse (serialize all) = some all :=
      parse_serialize fun field hfield => (hall field hfield).1
    refine ⟨serialize all, all, hlength, hparse, ?_⟩
    intro field hfield
    rw [Takes, (hall field hfield).2, hroom]
    exact accepts_any field.value

/-- Some bytes continue the front to a content of the shape exactly if nothing is wrong
with it and the number of bytes comes out. -/
theorem continues_iff (hopen : shape.Open) (count : Nat) (front : List UInt8) :
    (∃ more, more.length = count ∧ shape.Contains (front ++ more)) ↔
      shape.Continues count front := by
  induction shape generalizing count front with
  | text => exact Iff.rfl
  | message fields ih =>
      have hcompletes : (∃ more, more.length = count ∧ (message fields).Contains (front ++ more)) ↔
          CompletesMany readField (Takes fields) count front :=
        exists_congr fun more => exists_and_left.symm
      have hrest := leading_rest readField_consumes front
      rw [hcompletes, completesMany_iff readField_extensible readField_consumes readField_splits,
        Continues]
      refine and_congr_right fun _ => ?_
      split
      · exact completesMany_nil_iff hopen.1
      · refine exists₂_congr fun here later => and_congr_right fun _ => ?_
        rw [completesMany_nil_iff hopen.1, and_comm,
          fieldContinues_iff (fun number => ih number (hopen.2 number)) hrest]
  | number => exact iff_of_true ((exists_length count).imp fun _ hmore => ⟨hmore, trivial⟩) trivial
  | raw => exact iff_of_true ((exists_length count).imp fun _ hmore => ⟨hmore, trivial⟩) trivial
  | any => exact iff_of_true ((exists_length count).imp fun _ hmore => ⟨hmore, trivial⟩) trivial

end Shape
end Wire
