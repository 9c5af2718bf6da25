import Tolla.Library.Der
import Tolla.Model.Asn1

/-!
# Reading what was encoded

Go reads a value in DER back, if its content has less than 2³¹ bytes
(`unmarshalRaw_encode`), and what it reads is never empty (`fullBytes_ne_nil`).
-/

namespace Tolla.Asn1

open Readers

/-! ## Lengths -/

/-- One byte of a length in its long form. -/
theorem lengthLoop_byte {numBytes length value : Nat} (hlength : length < 2 ^ 23)
    (hpositive : 0 < length * 256 + value % 256) (rest : List UInt8) :
    lengthLoop (numBytes + 1) length (UInt8.ofNat value :: rest) =
      lengthLoop numBytes (length * 256 + value % 256) rest := by
  have hbyte : (UInt8.ofNat value).toNat = value % 256 := UInt8.toNat_ofNat'
  rw [lengthLoop, if_neg (by omega)]
  simp only [hbyte]
  rw [if_neg (by omega)]

theorem parseLength_long (numBytes : Nat) {n : Nat} {byte : UInt8} {bytes rest : List UInt8}
    (hbyte : byte.toNat = 128 + numBytes) (hsome : 0 < numBytes)
    (hloop : lengthLoop numBytes 0 bytes = some (n, rest)) (hn : 128 ≤ n) :
    parseLength (byte :: bytes) = some (n, rest) := by
  rw [parseLength, if_neg (by omega), if_neg (by omega), hbyte, Nat.add_sub_cancel_left, hloop]
  simp only
  rw [if_neg (by omega)]

theorem parseLength_length {n : Nat} (hn : n < 2 ^ 31) (rest : List UInt8) :
    parseLength (Der.length n ++ rest) = some (n, rest) := by
  unfold Der.length
  split
  · rename_i hshort
    have hbyte : (UInt8.ofNat n).toNat = n := by
      rw [UInt8.toNat_ofNat']
      omega
    rw [List.singleton_append, parseLength, hbyte, if_pos hshort]
  split
  · simp only [List.cons_append, List.nil_append]
    refine parseLength_long 1 (by decide) (by omega) ?_ (by omega)
    rw [lengthLoop_byte (by omega) (by omega), lengthLoop]
    congr 2
    omega
  split
  · simp only [List.cons_append, List.nil_append]
    refine parseLength_long 2 (by decide) (by omega) ?_ (by omega)
    rw [lengthLoop_byte (by omega) (by omega), lengthLoop_byte (by omega) (by omega), lengthLoop]
    congr 2
    omega
  split
  · simp only [List.cons_append, List.nil_append]
    refine parseLength_long 3 (by decide) (by omega) ?_ (by omega)
    rw [lengthLoop_byte (by omega) (by omega), lengthLoop_byte (by omega) (by omega),
      lengthLoop_byte (by omega) (by omega), lengthLoop]
    congr 2
    omega
  · simp only [List.cons_append, List.nil_append]
    refine parseLength_long 4 (by decide) (by omega) ?_ (by omega)
    rw [lengthLoop_byte (by omega) (by omega), lengthLoop_byte (by omega) (by omega),
      lengthLoop_byte (by omega) (by omega), lengthLoop_byte (by omega) (by omega), lengthLoop]
    congr 2
    omega

/-! ## Values -/

/-- A value with the identifier `tag`. -/
def RawValue.of (tag : UInt8) (content : List UInt8) : RawValue where
  «class» := tag.toNat / 64
  tag := tag.toNat % 32
  isCompound := tag.toNat / 32 % 2 = 1
  bytes := content
  fullBytes := Der.encode tag content

theorem unmarshalRaw_encode {tag : UInt8} (htag : tag.toNat % 32 ≠ 31) {content : List UInt8}
    (hcontent : content.length < 2 ^ 31) (rest : List UInt8) :
    unmarshalRaw (Der.encode tag content ++ rest) = some (RawValue.of tag content, rest) := by
  have hread : parseTag (Der.encode tag content ++ rest) =
      some ((tag.toNat / 64, decide (tag.toNat / 32 % 2 = 1), tag.toNat % 32),
        Der.length content.length ++ (content ++ rest)) := by
    rw [Der.encode, List.cons_append, List.append_assoc, parseTag]
    simp [htag]
  unfold unmarshalRaw
  rw [hread]
  simp only [parseLength_length hcontent, List.length_append, Nat.le_add_right, ↓reduceIte,
    List.drop_left, List.take_left, Nat.add_sub_cancel]
  rfl

theorem unmarshalRaw_whole {tag : UInt8} (htag : tag.toNat % 32 ≠ 31) {content : List UInt8}
    (hcontent : content.length < 2 ^ 31) :
    unmarshalRaw (Der.encode tag content) = some (RawValue.of tag content, []) := by
  have hread := unmarshalRaw_encode htag hcontent []
  rwa [List.append_nil] at hread

theorem unmarshalString_encode {string : List UInt8} {text : String}
    (hstring : string.length < 2 ^ 31) (htext : Text.fromUtf8 string = some text) :
    unmarshalString (Der.encode 0x0c string) = some string := by
  have hcontent : stringContent tagUtf8String string = some string := by
    simp [stringContent, tagPrintableString, tagIa5String, tagUtf8String, htext]
  unfold unmarshalString
  rw [unmarshalRaw_whole (by decide) hstring]
  exact hcontent

/-- An object identifier and any other value make an `OtherName`. -/
theorem unmarshalOtherName_encode {oid content : List UInt8} {id : List Nat} {tag : UInt8}
    (hid : parseObjectIdentifier oid = some id) (htag : tag.toNat % 32 ≠ 31)
    (hlength : (Der.encode 0x06 oid ++ Der.encode tag content).length < 2 ^ 31) :
    unmarshalOtherName (Der.encode 0x30 (Der.encode 0x06 oid ++ Der.encode tag content)) =
      some ⟨id, RawValue.of tag content⟩ := by
  have hoid := Der.length_le_encode 0x06 oid
  have hcontent := Der.length_le_encode tag content
  have hsum : (Der.encode 0x06 oid ++ Der.encode tag content).length =
      (Der.encode 0x06 oid).length + (Der.encode tag content).length := List.length_append
  have hsequence : unmarshalUniversal tagSequence true
      (Der.encode 0x30 (Der.encode 0x06 oid ++ Der.encode tag content)) =
      some (RawValue.of 0x30 (Der.encode 0x06 oid ++ Der.encode tag content), []) := by
    unfold unmarshalUniversal
    rw [unmarshalRaw_whole (by decide) hlength]
    rfl
  have htype : unmarshalObjectIdentifier (Der.encode 0x06 oid ++ Der.encode tag content) =
      some (id, Der.encode tag content) := by
    unfold unmarshalObjectIdentifier unmarshalUniversal
    rw [unmarshalRaw_encode (by decide) (by omega)]
    simp [RawValue.of, tagObjectIdentifier, hid]
  unfold unmarshalOtherName
  simp only [hsequence, RawValue.of, htype, unmarshalRaw_whole htag (by omega : content.length < _)]

/-! ## What is read is not empty -/

theorem base128Loop_shrinks (fuel value : Nat) : Shrinks (base128Loop fuel value) := by
  induction fuel generalizing value with
  | zero =>
      intro list item rest hread
      cases hread
  | succ fuel ih =>
      intro list item rest hread
      cases list with
      | nil => cases hread
      | cons byte list =>
          simp only [base128Loop] at hread
          rw [List.length_cons]
          split at hread
          · obtain ⟨-, rfl⟩ := Prod.mk.inj (Option.some.inj hread)
            omega
          · have := ih _ _ _ _ hread
            omega

theorem lengthLoop_shrinks (numBytes length : Nat) : Shrinks (lengthLoop numBytes length) := by
  induction numBytes generalizing length with
  | zero =>
      intro list item rest hread
      obtain ⟨-, rfl⟩ := Prod.mk.inj (Option.some.inj hread)
      exact Nat.le_refl _
  | succ numBytes ih =>
      intro list item rest hread
      cases list with
      | nil => cases hread
      | cons byte list =>
          simp only [lengthLoop] at hread
          rw [List.length_cons]
          split at hread
          · cases hread
          split at hread
          · cases hread
          · have := ih _ _ _ _ hread
            omega

theorem parseTag_consumes : Consumes parseTag := by
  intro list item rest hread
  cases list with
  | nil => cases hread
  | cons byte list =>
      simp only [parseTag] at hread
      rw [List.length_cons]
      split at hread
      · split at hread
        · cases hread
        · rename_i hbase
          have := base128Loop_shrinks 4 0 _ _ _ hbase
          split at hread
          · cases hread
          · obtain ⟨-, rfl⟩ := Prod.mk.inj (Option.some.inj hread)
            omega
      · obtain ⟨-, rfl⟩ := Prod.mk.inj (Option.some.inj hread)
        omega

theorem parseLength_shrinks : Shrinks parseLength := by
  intro list item rest hread
  cases list with
  | nil => cases hread
  | cons byte list =>
      simp only [parseLength] at hread
      rw [List.length_cons]
      split at hread
      · obtain ⟨-, rfl⟩ := Prod.mk.inj (Option.some.inj hread)
        omega
      split at hread
      · cases hread
      split at hread
      · cases hread
      · rename_i hloop
        have := lengthLoop_shrinks _ _ _ _ _ hloop
        split at hread
        · cases hread
        · obtain ⟨-, rfl⟩ := Prod.mk.inj (Option.some.inj hread)
          omega

theorem unmarshalRaw_consumes : Consumes unmarshalRaw := by
  intro list value rest hread
  simp only [unmarshalRaw] at hread
  split at hread
  · cases hread
  rename_i htag
  split at hread
  · cases hread
  rename_i hlength
  have hfirst := parseTag_consumes _ _ _ htag
  have hsecond := parseLength_shrinks _ _ _ hlength
  split at hread
  · obtain ⟨-, rfl⟩ := Prod.mk.inj (Option.some.inj hread)
    rw [List.length_drop]
    omega
  · cases hread

/-- A value that was read has a first byte. -/
theorem fullBytes_ne_nil {input rest : List UInt8} {value : RawValue}
    (hread : unmarshalRaw input = some (value, rest)) : value.fullBytes ≠ [] := by
  have hconsumed := unmarshalRaw_consumes _ _ _ hread
  have hfull : value.fullBytes = input.take (input.length - rest.length) := by
    simp only [unmarshalRaw] at hread
    split at hread
    · cases hread
    split at hread
    · cases hread
    split at hread
    · obtain ⟨rfl, rfl⟩ := Prod.mk.inj (Option.some.inj hread)
      rfl
    · cases hread
  rw [hfull, ← List.length_pos_iff, List.length_take]
  omega

/-! ## What can be read of an encoded value -/

theorem lengthLoop_rest {numBytes length n : Nat} {bytes rest : List UInt8}
    (hread : lengthLoop numBytes length bytes = some (n, rest)) : rest = bytes.drop numBytes := by
  induction numBytes generalizing length bytes with
  | zero => exact (Prod.mk.inj (Option.some.inj hread)).2.symm
  | succ numBytes ih =>
      cases bytes with
      | nil => cases hread
      | cons byte bytes =>
          simp only [lengthLoop] at hread
          split at hread
          · cases hread
          split at hread
          · cases hread
          · exact ih hread

/-- Lengths beyond Go's limit may be misread, but no more is read than was written. -/
theorem parseLength_rest {length n : Nat} {content rest : List UInt8}
    (hread : parseLength (Der.length length ++ content) = some (n, rest)) : rest = content := by
  by_cases hlength : length < 2 ^ 31
  · rw [parseLength_length hlength] at hread
    exact (Prod.mk.inj (Option.some.inj hread)).2.symm
  · unfold Der.length at hread
    rw [if_neg (by omega), if_neg (by omega), if_neg (by omega), if_neg (by omega)] at hread
    simp only [List.cons_append, List.nil_append, parseLength] at hread
    rw [if_neg (by decide), if_neg (by decide)] at hread
    split at hread
    · cases hread
    rename_i hloop
    split at hread
    · cases hread
    obtain ⟨-, rfl⟩ := Prod.mk.inj (Option.some.inj hread)
    exact lengthLoop_rest hloop

/-- What is read as the content is a beginning of it. -/
theorem unmarshalRaw_prefix {tag : UInt8} (htag : tag.toNat % 32 ≠ 31) {content rest : List UInt8}
    {value : RawValue} (hread : unmarshalRaw (Der.encode tag content) = some (value, rest)) :
    value.bytes <+: content := by
  rw [Der.encode, unmarshalRaw, parseTag, if_neg htag] at hread
  simp only at hread
  split at hread
  · cases hread
  rename_i hlength
  obtain rfl := parseLength_rest hlength
  split at hread
  · obtain ⟨rfl, -⟩ := Prod.mk.inj (Option.some.inj hread)
    exact List.take_prefix _ _
  · cases hread

/-- Only a first byte whose last five bits are 0 is read as the tag 0. -/
theorem identifier_of_tag_zero {input rest : List UInt8} {value : RawValue}
    (hread : unmarshalRaw input = some (value, rest)) (hzero : value.tag = 0) :
    ∃ identifier more, input = identifier :: more ∧ identifier.toNat % 32 = 0 := by
  cases input with
  | nil => cases hread
  | cons identifier more =>
      refine ⟨identifier, more, rfl, ?_⟩
      simp only [unmarshalRaw] at hread
      split at hread
      · cases hread
      rename_i htag
      split at hread
      · cases hread
      split at hread
      · obtain ⟨rfl, -⟩ := Prod.mk.inj (Option.some.inj hread)
        simp only at hzero
        subst hzero
        simp only [parseTag] at htag
        split at htag
        · -- a tag after the first byte is at least 31
          split at htag
          · cases htag
          split at htag
          · cases htag
          · rename_i hlarge
            obtain ⟨heq, -⟩ := Prod.mk.inj (Option.some.inj htag)
            have htag := (Prod.mk.inj (Prod.mk.inj heq).2).2
            omega
        · obtain ⟨heq, -⟩ := Prod.mk.inj (Option.some.inj htag)
          exact (Prod.mk.inj (Prod.mk.inj heq).2).2
      · cases hread

end Tolla.Asn1
