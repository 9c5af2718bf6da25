import Mathlib.Algebra.Group.Nat.Defs
import Tolla.Library.Reader

/-!
# The protobuf wire format

A message is a sequence of fields, each a key and a value.  The key holds the
field number and the wire type, the wire type says how the value is delimited.
`parse` reads a byte list as fields and `serialize` writes them; what a field
means to a message is not known here.

The two results are about `serialize fs` for well-formed fields:

* `parse_serialize`: it is read back.
* `parse_serialize_append`: after whole fields, a proper part of another field
  cannot be read.

Numbers are `u64`: a varint is read to at most ten bytes and what does not fit
is cut off.
-/

namespace Wire

open Readers

/-! ## Varints -/

/-- The bytes of a number, seven bits each, lowest first. -/
def varintLoop : Nat → Nat → List UInt8
  | 0, _ => []
  | fuel + 1, value =>
      if value < 128 then [UInt8.ofNat value]
      else UInt8.ofNat (value % 128 + 128) :: varintLoop fuel (value / 128)

/-- Ten bytes hold every `u64`. -/
def encodeVarint (value : UInt64) : List UInt8 := varintLoop 10 value.toNat

/-- Read at most `fuel` more bytes; the next one counts `scale` times. -/
def decodeVarintLoop : Nat → Nat → Nat → Reader UInt8 UInt64
  | 0, _, _, _ => none
  | _ + 1, _, _, [] => none
  | fuel + 1, scale, value, byte :: rest =>
      let value' := value + byte.toNat % 128 * scale
      if byte.toNat < 128 then some (UInt64.ofNat value', rest)
      else decodeVarintLoop fuel (scale * 128) value' rest

def decodeVarint : Reader UInt8 UInt64 := decodeVarintLoop 10 1 0

/-- The last byte of a varint. -/
private theorem decodeVarintLoop_last {value : Nat} (hvalue : value < 128) (fuel scale acc : Nat)
    (rest : List UInt8) :
    decodeVarintLoop (fuel + 1) scale acc (UInt8.ofNat value :: rest) =
      some (UInt64.ofNat (acc + value * scale), rest) := by
  have hbyte : (UInt8.ofNat value).toNat = value := by
    rw [UInt8.toNat_ofNat']
    omega
  simp [decodeVarintLoop, hvalue, hbyte, Nat.mod_eq_of_lt hvalue]

/-- Another byte carries the low seven bits. -/
private theorem decodeVarintLoop_more (value fuel scale acc : Nat) (rest : List UInt8) :
    decodeVarintLoop (fuel + 1) scale acc (UInt8.ofNat (value % 128 + 128) :: rest) =
      decodeVarintLoop fuel (scale * 128) (acc + value % 128 * scale) rest := by
  have hbyte : (UInt8.ofNat (value % 128 + 128)).toNat = value % 128 + 128 := by
    rw [UInt8.toNat_ofNat']
    omega
  simp only [decodeVarintLoop, hbyte]
  rw [if_neg (by omega), show (value % 128 + 128) % 128 = value % 128 by omega]

/-- The low seven bits and the others are the number. -/
private theorem low_add_high (acc value scale : Nat) :
    acc + value % 128 * scale + value / 128 * (scale * 128) = acc + value * scale := by
  calc
    acc + value % 128 * scale + value / 128 * (scale * 128) =
        acc + (value % 128 + 128 * (value / 128)) * scale := by
      rw [Nat.add_mul, Nat.mul_comm scale 128, ← Nat.mul_assoc, Nat.mul_comm (value / 128),
        Nat.add_assoc]
    _ = acc + value * scale := by rw [Nat.mod_add_div]

private theorem decodeVarintLoop_varintLoop (fuel scale value acc : Nat) (rest : List UInt8)
    (hvalue : value < 128 ^ (fuel + 1)) :
    decodeVarintLoop (fuel + 1) scale acc (varintLoop (fuel + 1) value ++ rest) =
      some (UInt64.ofNat (acc + value * scale), rest) := by
  induction fuel generalizing scale value acc with
  | zero =>
      have hsmall : value < 128 := by simpa using hvalue
      rw [varintLoop, if_pos hsmall]
      exact decodeVarintLoop_last hsmall 0 scale acc rest
  | succ fuel ih =>
      rw [varintLoop]
      by_cases hsmall : value < 128
      · rw [if_pos hsmall]
        exact decodeVarintLoop_last hsmall _ scale acc rest
      · have hquotient : value / 128 < 128 ^ (fuel + 1) := by
          rw [Nat.div_lt_iff_lt_mul (by omega)]
          rwa [Nat.pow_succ] at hvalue
        rw [if_neg hsmall, List.cons_append, decodeVarintLoop_more, ih _ _ _ hquotient,
          low_add_high]

theorem decodeVarint_encodeVarint (value : UInt64) (rest : List UInt8) :
    decodeVarint (encodeVarint value ++ rest) = some (value, rest) := by
  have hvalue : value.toNat < 128 ^ 10 := by
    have := value.toNat_lt
    omega
  have hround := decodeVarintLoop_varintLoop 9 1 value.toNat 0 rest hvalue
  simpa [decodeVarint, encodeVarint] using hround

private theorem decodeVarintLoop_extensible (fuel scale acc : Nat) :
    Extensible (decodeVarintLoop fuel scale acc) := by
  induction fuel generalizing scale acc with
  | zero =>
      intro list item rest hread
      cases hread
  | succ fuel ih =>
      intro list item rest hread more
      cases list with
      | nil => cases hread
      | cons byte list =>
          simp only [decodeVarintLoop, List.cons_append] at hread ⊢
          split at hread
          · rw [if_pos ‹_›]
            obtain ⟨rfl, rfl⟩ := Prod.mk.inj (Option.some.inj hread)
            rfl
          · rw [if_neg ‹_›]
            exact ih _ _ _ _ _ hread more

private theorem decodeVarintLoop_consumes (fuel scale acc : Nat) :
    Consumes (decodeVarintLoop fuel scale acc) := by
  induction fuel generalizing scale acc with
  | zero =>
      intro list item rest hread
      cases hread
  | succ fuel ih =>
      intro list item rest hread
      cases list with
      | nil => cases hread
      | cons byte list =>
          simp only [decodeVarintLoop] at hread
          split at hread
          · obtain ⟨-, rfl⟩ := Prod.mk.inj (Option.some.inj hread)
            simp
          · have hshort := ih _ _ _ _ _ hread
            simp only [List.length_cons]
            omega

theorem decodeVarint_extensible : Extensible decodeVarint := decodeVarintLoop_extensible 10 1 0

theorem decodeVarint_consumes : Consumes decodeVarint := decodeVarintLoop_consumes 10 1 0

private theorem decodeVarintLoop_splits (fuel scale acc : Nat) :
    Splits (decodeVarintLoop fuel scale acc) := by
  induction fuel generalizing scale acc with
  | zero =>
      intro list item rest hread
      cases hread
  | succ fuel ih =>
      intro list item rest hread
      cases list with
      | nil => cases hread
      | cons byte list =>
          simp only [decodeVarintLoop] at hread
          split at hread
          · obtain ⟨rfl, rfl⟩ := Prod.mk.inj (Option.some.inj hread)
            exact ⟨[byte], rfl, by simp [decodeVarintLoop, *]⟩
          · obtain ⟨front, rfl, hfront⟩ := ih _ _ _ _ _ hread
            exact ⟨byte :: front, rfl, by simp [decodeVarintLoop, *]⟩

theorem decodeVarint_splits : Splits decodeVarint := decodeVarintLoop_splits 10 1 0

theorem encodeVarint_ne_nil (value : UInt64) : encodeVarint value ≠ [] := by
  unfold encodeVarint varintLoop
  split <;> simp

/-! ## Unfinished varints

A varint that ends too early has its low bits already.  With as many bytes as are
allowed, it can become every number with these bits that has room in them, and no
other. -/

/-- The low bits of an unfinished varint. -/
def varintPart : List UInt8 → Nat
  | [] => 0
  | byte :: rest => byte.toNat % 128 + 128 * varintPart rest

theorem varintPart_lt (bytes : List UInt8) : varintPart bytes < 128 ^ bytes.length := by
  induction bytes with
  | nil => simp [varintPart]
  | cons byte rest ih =>
      rw [varintPart, List.length_cons, Nat.pow_succ]
      omega

private theorem decodeVarintLoop_resume {fuel scale acc : Nat} {front : List UInt8}
    (hnone : decodeVarintLoop fuel scale acc front = none) (more : List UInt8) :
    decodeVarintLoop fuel scale acc (front ++ more) =
      if front.length < fuel then
        decodeVarintLoop (fuel - front.length) (scale * 128 ^ front.length)
          (acc + varintPart front * scale) more
      else none := by
  induction fuel generalizing scale acc front with
  | zero => rfl
  | succ fuel ih =>
      cases front with
      | nil => simp [varintPart]
      | cons byte front =>
          simp only [decodeVarintLoop, List.cons_append] at hnone ⊢
          split at hnone
          · cases hnone
          · rename_i hlarge
            have hscale : scale * 128 * 128 ^ front.length = scale * 128 ^ (front.length + 1) := by
              rw [Nat.mul_assoc, Nat.pow_succ, Nat.mul_comm 128]
            have hacc : acc + byte.toNat % 128 * scale + varintPart front * (scale * 128) =
                acc + varintPart (byte :: front) * scale := by
              rw [varintPart, Nat.add_mul, Nat.mul_comm 128, Nat.mul_assoc, Nat.mul_comm 128,
                Nat.add_assoc]
            rw [if_neg hlarge, ih hnone, hscale, hacc, List.length_cons, Nat.add_sub_add_right]
            simp only [Nat.add_lt_add_iff_right]

private theorem decodeVarintLoop_residue {fuel scale acc : Nat} {list rest : List UInt8}
    {value : UInt64} (hread : decodeVarintLoop fuel scale acc list = some (value, rest)) :
    list ≠ [] ∧ list.length ≤ fuel + rest.length ∧
      ∃ high < 128 ^ list.length, value = UInt64.ofNat (acc + high * scale) := by
  induction fuel generalizing scale acc list with
  | zero => cases hread
  | succ fuel ih =>
      cases list with
      | nil => cases hread
      | cons byte list =>
          have hbyte : byte.toNat % 128 < 128 := Nat.mod_lt _ (by omega)
          simp only [decodeVarintLoop] at hread
          refine ⟨by simp, ?_⟩
          split at hread
          · obtain ⟨rfl, rfl⟩ := Prod.mk.inj (Option.some.inj hread)
            refine ⟨by rw [List.length_cons]; omega, byte.toNat % 128, ?_, rfl⟩
            have hpower : 0 < 128 ^ list.length := Nat.pow_pos (by omega)
            rw [List.length_cons, Nat.pow_succ]
            omega
          · obtain ⟨-, hlength, high, hhigh, rfl⟩ := ih hread
            refine ⟨by rw [List.length_cons]; omega, byte.toNat % 128 + 128 * high, ?_, ?_⟩
            · rw [List.length_cons, Nat.pow_succ]
              omega
            · rw [Nat.add_mul, Nat.mul_comm 128, Nat.mul_assoc, Nat.mul_comm 128, Nat.add_assoc]

/-- The bytes of a number, as many as are asked for. -/
def paddedVarint : Nat → Nat → List UInt8
  | 0, _ => []
  | 1, value => [UInt8.ofNat value]
  | count + 2, value => UInt8.ofNat (value % 128 + 128) :: paddedVarint (count + 1) (value / 128)

theorem length_paddedVarint (count value : Nat) : (paddedVarint count value).length = count := by
  fun_induction paddedVarint count value with
  | case1 => rfl
  | case2 => rfl
  | case3 count value ih => rw [List.length_cons, ih]

private theorem decodeVarintLoop_padded {count fuel : Nat} (hcount : 0 < count)
    (hfuel : count ≤ fuel) (scale acc : Nat) {value : Nat} (hvalue : value < 128 ^ count) :
    decodeVarintLoop fuel scale acc (paddedVarint count value) =
      some (UInt64.ofNat (acc + value * scale), []) := by
  obtain ⟨fuel, rfl⟩ := Nat.exists_eq_succ_of_ne_zero (show fuel ≠ 0 by omega)
  fun_induction paddedVarint count value generalizing fuel scale acc with
  | case1 => omega
  | case2 value => exact decodeVarintLoop_last (by simpa using hvalue) fuel scale acc []
  | case3 count value ih =>
      have hquotient : value / 128 < 128 ^ (count + 1) := by
        rw [Nat.div_lt_iff_lt_mul (by omega)]
        rwa [Nat.pow_succ] at hvalue
      obtain ⟨fuel, rfl⟩ := Nat.exists_eq_succ_of_ne_zero (show fuel ≠ 0 by omega)
      rw [decodeVarintLoop_more, ih (by omega) _ _ hquotient fuel (by omega), low_add_high]

/-- With `count` more bytes, the unfinished varint is the number `value`. -/
structure Finishes (front : List UInt8) (count value : Nat) : Prop where
  positive : 0 < count
  short : front.length + count ≤ 10
  small : value < 128 ^ (front.length + count)
  bounded : value < 2 ^ 64
  bits : value % 128 ^ front.length = varintPart front

theorem finishes_iff {front : List UInt8} (hnone : decodeVarint front = none)
    {P : UInt64 → Prop} {count : Nat} :
    CompletesIn decodeVarint P count front ↔
      ∃ value : UInt64, Finishes front count value.toNat ∧ P value := by
  constructor
  · rintro ⟨more, value, rfl, hread, hvalue⟩
    refine ⟨value, ?_, hvalue⟩
    rw [decodeVarint, decodeVarintLoop_resume hnone] at hread
    split at hread
    · obtain ⟨hmore, hlength, high, hhigh, rfl⟩ := decodeVarintLoop_residue hread
      rw [List.length_nil] at hlength
      rw [Nat.zero_add, Nat.mul_one, Nat.one_mul]
      have hpart := varintPart_lt front
      have hdvd : 128 ^ front.length ∣ 2 ^ 64 := by
        rw [show 128 = 2 ^ 7 from rfl, ← Nat.pow_mul]
        exact Nat.pow_dvd_pow 2 (by omega)
      have hsmall : varintPart front + high * 128 ^ front.length <
          128 ^ (front.length + more.length) := by
        calc
          varintPart front + high * 128 ^ front.length <
              128 ^ front.length + high * 128 ^ front.length := Nat.add_lt_add_right hpart _
          _ = (high + 1) * 128 ^ front.length := by rw [Nat.add_mul, Nat.one_mul, Nat.add_comm]
          _ ≤ 128 ^ more.length * 128 ^ front.length := Nat.mul_le_mul_right _ hhigh
          _ = 128 ^ (front.length + more.length) := by rw [Nat.add_comm, Nat.pow_add]
      refine ⟨List.length_pos_iff.mpr hmore, by omega, ?_, UInt64.toNat_lt _, ?_⟩
      · rw [UInt64.toNat_ofNat']
        exact Nat.lt_of_le_of_lt (Nat.mod_le _ _) hsmall
      · rw [UInt64.toNat_ofNat', Nat.mod_mod_of_dvd _ hdvd, Nat.add_mul_mod_self_right,
          Nat.mod_eq_of_lt hpart]
    · cases hread
  · rintro ⟨value, hfinishes, hvalue⟩
    obtain ⟨hpositive, hshort, hsmall, -, hbits⟩ := hfinishes
    refine ⟨paddedVarint count (value.toNat / 128 ^ front.length), value,
      length_paddedVarint _ _, ?_, hvalue⟩
    have hhigh : value.toNat / 128 ^ front.length < 128 ^ count := by
      rw [Nat.div_lt_iff_lt_mul (Nat.pow_pos (by omega)), ← Nat.pow_add, Nat.add_comm]
      exact hsmall
    rw [decodeVarint, decodeVarintLoop_resume hnone, if_pos (by omega),
      decodeVarintLoop_padded hpositive (by omega) _ _ hhigh, ← hbits]
    rw [Nat.zero_add, Nat.mul_one, Nat.one_mul, Nat.mod_add_div', UInt64.ofNat_toNat]

/-! ## Fields -/

/-- A value, as its wire type delimits it. -/
inductive Value where
  | varint (value : UInt64)
  | fixed64 (bytes : List UInt8)
  | lengthDelimited (bytes : List UInt8)
  | fixed32 (bytes : List UInt8)
  deriving DecidableEq, Repr

structure Field where
  number : Nat
  value : Value
  deriving DecidableEq, Repr

namespace Value

def wireType : Value → Nat
  | varint _ => 0
  | fixed64 _ => 1
  | lengthDelimited _ => 2
  | fixed32 _ => 5

def bytes : Value → List UInt8
  | varint value => encodeVarint value
  | fixed64 bytes => bytes
  | lengthDelimited bytes => encodeVarint (UInt64.ofNat bytes.length) ++ bytes
  | fixed32 bytes => bytes

/-- The value has the length that its wire type says. -/
def WellFormed : Value → Prop
  | varint _ => True
  | fixed64 bytes => bytes.length = 8
  | lengthDelimited bytes => bytes.length < 2 ^ 64
  | fixed32 bytes => bytes.length = 4

end Value

def Field.bytes (field : Field) : List UInt8 :=
  encodeVarint (UInt64.ofNat (field.number * 8 + field.value.wireType)) ++ field.value.bytes

/-- The field has a number that a key can hold, and a value whose length is not
fixed by its wire type. -/
structure Field.Plain (field : Field) : Prop where
  positive : 0 < field.number
  bounded : field.number < 2 ^ 29
  wireType : field.value.wireType = 0 ∨ field.value.wireType = 2

/-- Field numbers have 29 bits and start at 1. -/
structure Field.WellFormed (field : Field) : Prop where
  positive : 0 < field.number
  bounded : field.number < 2 ^ 29
  value : field.value.WellFormed

/-- The value of a wire type.  Groups are not supported. -/
def readValue : Nat → Reader UInt8 Value
  | 0 => andThen decodeVarint fun value => result (.varint value)
  | 1 => andThen (take 8) fun bytes => result (.fixed64 bytes)
  | 2 => andThen decodeVarint fun length =>
      andThen (take length.toNat) fun bytes => result (.lengthDelimited bytes)
  | 5 => andThen (take 4) fun bytes => result (.fixed32 bytes)
  | _ => failure

/-- A key of at most 32 bits, and its value. -/
def readField : Reader UInt8 Field :=
  andThen decodeVarint fun key =>
    if 2 ^ 32 ≤ key.toNat ∨ key.toNat / 8 = 0 then failure
    else andThen (readValue (key.toNat % 8)) fun value => result ⟨key.toNat / 8, value⟩

/-- The fields of a message. -/
def parse (bytes : List UInt8) : Option (List Field) := many readField bytes

def serialize (fields : List Field) : List UInt8 := fields.flatMap Field.bytes

/-- What a field is read from. -/
theorem readField_eq_some_iff {bytes rest : List UInt8} {field : Field} :
    readField bytes = some (field, rest) ↔
      ∃ key after, decodeVarint bytes = some (key, after) ∧ key.toNat < 2 ^ 32 ∧
        key.toNat / 8 ≠ 0 ∧ field.number = key.toNat / 8 ∧
        readValue (key.toNat % 8) after = some (field.value, rest) := by
  unfold readField
  rw [andThen_eq_some_iff]
  refine exists₂_congr fun key after => and_congr_right fun _ => ?_
  split
  · rename_i hinvalid
    refine iff_of_false nofun fun hvalid => ?_
    rcases hinvalid with hlarge | hzero
    · exact Nat.not_lt.mpr hlarge hvalid.1
    · exact hvalid.2.1 hzero
  · rename_i hvalid
    rw [not_or, Nat.not_le] at hvalid
    rw [andThen_eq_some_iff]
    constructor
    · rintro ⟨value, between, hvalue, hresult⟩
      obtain ⟨rfl, rfl⟩ := Prod.mk.inj (Option.some.inj hresult)
      exact ⟨hvalid.1, hvalid.2, rfl, hvalue⟩
    · rintro ⟨-, -, hnumber, hvalue⟩
      refine ⟨field.value, rest, hvalue, ?_⟩
      rw [← hnumber]
      rfl

theorem wireType_of_readValue {wireType : Nat} {bytes rest : List UInt8} {value : Value}
    (hread : readValue wireType bytes = some (value, rest)) : value.wireType = wireType := by
  unfold readValue at hread
  split at hread
  · obtain ⟨number, between, -, hresult⟩ := andThen_eq_some_iff.mp hread
    obtain ⟨rfl, -⟩ := Prod.mk.inj (Option.some.inj hresult)
    rfl
  · obtain ⟨content, between, -, hresult⟩ := andThen_eq_some_iff.mp hread
    obtain ⟨rfl, -⟩ := Prod.mk.inj (Option.some.inj hresult)
    rfl
  · obtain ⟨length, between, -, hcontent⟩ := andThen_eq_some_iff.mp hread
    obtain ⟨content, after, -, hresult⟩ := andThen_eq_some_iff.mp hcontent
    obtain ⟨rfl, -⟩ := Prod.mk.inj (Option.some.inj hresult)
    rfl
  · obtain ⟨content, between, -, hresult⟩ := andThen_eq_some_iff.mp hread
    obtain ⟨rfl, -⟩ := Prod.mk.inj (Option.some.inj hresult)
    rfl
  · cases hread

theorem readValue_extensible (wireType : Nat) : Extensible (readValue wireType) := by
  unfold readValue
  split
  · exact decodeVarint_extensible.andThen fun _ => .result _
  · exact (Extensible.take 8).andThen fun _ => .result _
  · exact decodeVarint_extensible.andThen fun _ => (Extensible.take _).andThen fun _ => .result _
  · exact (Extensible.take 4).andThen fun _ => .result _
  · exact .failure

theorem readValue_shrinks (wireType : Nat) : Shrinks (readValue wireType) := by
  unfold readValue
  split
  · exact decodeVarint_consumes.shrinks.andThen fun _ => .result _
  · exact (Shrinks.take 8).andThen fun _ => .result _
  · exact decodeVarint_consumes.shrinks.andThen fun _ => (Shrinks.take _).andThen fun _ => .result _
  · exact (Shrinks.take 4).andThen fun _ => .result _
  · exact .failure

theorem readField_extensible : Extensible readField := by
  apply decodeVarint_extensible.andThen
  intro key
  split
  · exact .failure
  · exact (readValue_extensible _).andThen fun _ => .result _

theorem readField_consumes : Consumes readField := by
  apply decodeVarint_consumes.andThen
  intro key
  split
  · exact .failure
  · exact (readValue_shrinks _).andThen fun _ => .result _

theorem readValue_splits (wireType : Nat) : Splits (readValue wireType) := by
  unfold readValue
  split
  · exact .andThen decodeVarint_extensible decodeVarint_splits fun _ => .result _
  · exact .andThen (.take 8) (.take 8) fun _ => .result _
  · exact .andThen decodeVarint_extensible decodeVarint_splits fun _ =>
      .andThen (.take _) (.take _) fun _ => .result _
  · exact .andThen (.take 4) (.take 4) fun _ => .result _
  · exact .failure

theorem readField_splits : Splits readField := by
  apply Splits.andThen decodeVarint_extensible decodeVarint_splits
  intro key
  split
  · exact .failure
  · exact .andThen (readValue_extensible _) (readValue_splits _) fun _ => .result _

/-! ## Lengths -/

theorem Field.length_le {field : Field} {fields : List Field} (hfield : field ∈ fields) :
    field.bytes.length ≤ (serialize fields).length := by
  obtain ⟨before, after, rfl⟩ := List.append_of_mem hfield
  simp only [serialize, List.flatMap_append, List.flatMap_cons, List.length_append]
  omega

theorem length_le_bytes {number : Nat} {bytes : List UInt8} :
    bytes.length ≤ (Field.bytes ⟨number, .lengthDelimited bytes⟩).length := by
  simp only [Field.bytes, Value.bytes, List.length_append]
  omega

theorem Field.bytes_ne_nil (field : Field) : field.bytes ≠ [] := by
  simp [Field.bytes, encodeVarint_ne_nil]

/-- A larger number does not have fewer bytes. -/
theorem length_varintLoop_mono (fuel : Nat) {small large : Nat} (hle : small ≤ large) :
    (varintLoop fuel small).length ≤ (varintLoop fuel large).length := by
  induction fuel generalizing small large with
  | zero => exact Nat.le_refl _
  | succ fuel ih =>
      rw [varintLoop, varintLoop]
      by_cases hlarge : large < 128
      · rw [if_pos (Nat.lt_of_le_of_lt hle hlarge), if_pos hlarge]
        exact Nat.le_refl _
      · rw [if_neg hlarge]
        split
        · simp
        · have hrest := ih (Nat.div_le_div_right (c := 128) hle)
          simp only [List.length_cons]
          omega

/-- A longer content makes a field longer. -/
theorem Field.length_mono {number : Nat} {short long : List UInt8}
    (hle : short.length ≤ long.length) (hlong : long.length < 2 ^ 64) :
    (Field.bytes ⟨number, .lengthDelimited short⟩).length ≤
      (Field.bytes ⟨number, .lengthDelimited long⟩).length := by
  have htoNat {bytes : List UInt8} (hlength : bytes.length < 2 ^ 64) :
      (UInt64.ofNat bytes.length).toNat = bytes.length := by
    rw [UInt64.toNat_ofNat']
    omega
  have hlength := length_varintLoop_mono 10 hle
  simp only [Field.bytes, Value.bytes, Value.wireType, encodeVarint, List.length_append]
  rw [htoNat hlong, htoNat (Nat.lt_of_le_of_lt hle hlong)]
  omega

/-- A field has a key and, in front of its content, a length. -/
theorem Field.length_add_two_le (number : Nat) (bytes : List UInt8) :
    bytes.length + 2 ≤ (Field.bytes ⟨number, .lengthDelimited bytes⟩).length := by
  have hpositive (value : UInt64) : 0 < (encodeVarint value).length :=
    List.length_pos_iff.mpr (encodeVarint_ne_nil value)
  have hkey := hpositive (UInt64.ofNat (number * 8 + 2))
  have hlength := hpositive (UInt64.ofNat bytes.length)
  simp only [Field.bytes, Value.bytes, Value.wireType, List.length_append]
  omega

/-- What fits into an address space is well formed. -/
theorem wellFormed_of_length {fields : List Field} (hplain : ∀ field ∈ fields, field.Plain)
    (hlength : (serialize fields).length < 2 ^ 64) : ∀ field ∈ fields, field.WellFormed := by
  intro field hfield
  have hshort := Field.length_le hfield
  obtain ⟨hpositive, hbounded, htype⟩ := hplain field hfield
  refine ⟨hpositive, hbounded, ?_⟩
  obtain ⟨number, value⟩ := field
  cases value with
  | varint value => trivial
  | fixed64 bytes => simp [Value.wireType] at htype
  | lengthDelimited bytes =>
      have := @length_le_bytes number bytes
      simp only [Value.WellFormed]
      omega
  | fixed32 bytes => simp [Value.wireType] at htype

/-! ## Round trips -/

theorem take_append_of_length {n : Nat} {bytes rest : List UInt8} (hlength : bytes.length = n) :
    take n (bytes ++ rest) = some (bytes, rest) := by
  subst hlength
  simp [take]

theorem readValue_bytes {value : Value} (hvalue : value.WellFormed) (rest : List UInt8) :
    readValue value.wireType (value.bytes ++ rest) = some (value, rest) := by
  cases value with
  | varint value => simp [readValue, Value.wireType, Value.bytes, andThen, result,
      decodeVarint_encodeVarint]
  | fixed64 bytes => simp [readValue, Value.wireType, Value.bytes, andThen, result,
      take_append_of_length (show bytes.length = 8 from hvalue)]
  | lengthDelimited bytes =>
      have hlength : (UInt64.ofNat bytes.length).toNat = bytes.length :=
        UInt64.toNat_ofNat_of_lt' hvalue
      simp only [readValue, Value.wireType, Value.bytes, andThen, result, List.append_assoc,
        decodeVarint_encodeVarint, hlength, take_append_of_length rfl]
  | fixed32 bytes => simp [readValue, Value.wireType, Value.bytes, andThen, result,
      take_append_of_length (show bytes.length = 4 from hvalue)]

theorem readField_bytes {field : Field} (hfield : field.WellFormed) (rest : List UInt8) :
    readField (field.bytes ++ rest) = some (field, rest) := by
  have hpositive := hfield.positive
  have hbounded := hfield.bounded
  have htype : field.value.wireType < 8 := by
    cases field.value <;> simp [Value.wireType]
  have hkey : (UInt64.ofNat (field.number * 8 + field.value.wireType)).toNat =
      field.number * 8 + field.value.wireType := by
    rw [UInt64.toNat_ofNat']
    omega
  unfold readField Field.bytes andThen
  rw [List.append_assoc, decodeVarint_encodeVarint]
  simp only [hkey]
  rw [if_neg (by omega), show (field.number * 8 + field.value.wireType) % 8 =
    field.value.wireType by omega, show (field.number * 8 + field.value.wireType) / 8 =
    field.number by omega, readValue_bytes hfield.value]
  rfl

theorem parse_append {field : Field} (hfield : field.WellFormed) (rest : List UInt8) :
    parse (field.bytes ++ rest) = (parse rest).map (field :: ·) :=
  many_of_some readField_consumes (readField_bytes hfield rest)

theorem parse_serialize_append {fields : List Field} (hfields : ∀ field ∈ fields, field.WellFormed)
    (rest : List UInt8) : parse (serialize fields ++ rest) = (parse rest).map (fields ++ ·) := by
  induction fields with
  | nil => simp [serialize]
  | cons field fields ih =>
      have hrest := ih fun other hother => hfields other (List.mem_cons_of_mem field hother)
      rw [serialize] at hrest
      rw [serialize, List.flatMap_cons, List.append_assoc,
        parse_append (hfields field List.mem_cons_self), hrest, Option.map_map]
      rfl

theorem parse_serialize {fields : List Field} (hfields : ∀ field ∈ fields, field.WellFormed) :
    parse (serialize fields) = some fields := by
  simpa [parse] using parse_serialize_append hfields []

/-- Part of a field is not a sequence of fields. -/
theorem parse_of_prefix {field : Field} (hfield : field.WellFormed) {front : List UInt8}
    (hfront : front <+: field.bytes) (hempty : front ≠ []) (hproper : front ≠ field.bytes) :
    parse front = none := by
  have hwhole : readField field.bytes = some (field, []) := by
    simpa using readField_bytes hfield []
  exact many_of_none hempty (readField_extensible.none_of_prefix hwhole hfront hproper)

end Wire
