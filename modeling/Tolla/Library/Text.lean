import Mathlib.Data.List.Basic
import Mathlib.Tactic.Common

/-!
# Text as bytes

A text and its UTF-8 bytes.  `fromUtf8` refuses bytes that are not UTF-8,
`fromUtf8Lossy` puts a replacement character for every ill-formed piece.

`latin1` takes bytes for Latin-1.  If the bytes are a front part of a text in
UTF-8 and the rest does not begin inside a character, that gives the text back
only if nothing is missing and all of it is ASCII (`latin1_eq_iff`).
-/

namespace Text

/-- The bytes of a text. -/
def utf8 (text : String) : List UInt8 := text.toByteArray.data.toList

/-- `String::from_utf8`. -/
def fromUtf8 (bytes : List UInt8) : Option String := String.fromUTF8? ⟨bytes.toArray⟩

/-- How many bytes at the front of an ill-formed or well-formed list belong to
one character: the flag says whether they are one. -/
def leadingPiece : List UInt8 → Bool × Nat
  | [] => (false, 0)
  | first :: rest =>
      let tail (index : Nat) : Bool :=
        match rest[index]? with
        | some b => 128 ≤ b && b ≤ 191
        | none => false
      let second (low high : UInt8) : Bool :=
        match rest.head? with
        | some b => low ≤ b && b ≤ high
        | none => false
      let three (ok : Bool) : Bool × Nat :=
        if !ok then (false, 1) else if !tail 1 then (false, 2) else (true, 3)
      let four (ok : Bool) : Bool × Nat :=
        if !ok then (false, 1) else if !tail 1 then (false, 2)
        else if !tail 2 then (false, 3) else (true, 4)
      if first < 128 then (true, 1)
      else if first < 194 then (false, 1)
      else if first < 224 then (if tail 0 then (true, 2) else (false, 1))
      else if first = 224 then three (second 160 191)
      else if first = 237 then three (second 128 159)
      else if first < 240 then three (second 128 191)
      else if first = 240 then four (second 144 191)
      else if first < 244 then four (second 128 191)
      else if first = 244 then four (second 128 143)
      else (false, 1)

/-- Replace every ill-formed piece by the bytes of U+FFFD. -/
def repair : Nat → List UInt8 → List UInt8
  | 0, _ => []
  | fuel + 1, bytes =>
      match bytes with
      | [] => []
      | _ :: _ =>
          match leadingPiece bytes with
          | (true, n) => bytes.take n ++ repair fuel (bytes.drop n)
          | (false, n) => [239, 191, 189] ++ repair fuel (bytes.drop n)

/-- `String::from_utf8_lossy`. -/
def fromUtf8Lossy (bytes : List UInt8) : String :=
  match fromUtf8 bytes with
  | some text => text
  | none => (fromUtf8 (repair bytes.length bytes)).getD ""

@[simp] theorem fromUtf8_utf8 (text : String) : fromUtf8 (utf8 text) = some text := by
  simp [fromUtf8, String.fromUTF8?, utf8, text.isValidUTF8, String.fromUTF8]

@[simp] theorem fromUtf8Lossy_utf8 (text : String) : fromUtf8Lossy (utf8 text) = text := by
  simp [fromUtf8Lossy]

theorem utf8_injective : Function.Injective utf8 := by
  intro first second hsame
  have hread := fromUtf8_utf8 first
  rw [hsame, fromUtf8_utf8] at hread
  exact (Option.some.inj hread).symm

theorem utf8_append (first second : String) :
    utf8 (first ++ second) = utf8 first ++ utf8 second := by
  simp [utf8, String.toByteArray_append]

/-! ## Latin-1 -/

/-- The text that the bytes are in Latin-1. -/
def latin1 (bytes : List UInt8) : String := String.ofList (bytes.map fun b => Char.ofNat b.toNat)

/-- The bytes that are not ASCII. -/
def highBytes (bytes : List UInt8) : Nat := bytes.countP (128 ≤ ·)

theorem utf8_latin1 (bytes : List UInt8) :
    utf8 (latin1 bytes) = bytes.flatMap fun b => String.utf8EncodeChar (Char.ofNat b.toNat) := by
  simp [utf8, latin1, List.utf8Encode, List.flatMap_map]

/-- An ASCII byte is its own encoding, any other becomes two bytes that are not ASCII. -/
theorem encode_latin1 (b : UInt8) :
    (b < 128 ∧ String.utf8EncodeChar (Char.ofNat b.toNat) = [b]) ∨
    128 ≤ b ∧ ∃ first second, String.utf8EncodeChar (Char.ofNat b.toNat) = [first, second] ∧
      128 ≤ first ∧ 128 ≤ second := by
  have hall : ∀ n : Fin 256,
      (UInt8.ofNat n < 128 ∧
        String.utf8EncodeChar (Char.ofNat (UInt8.ofNat n).toNat) = [UInt8.ofNat n]) ∨
      128 ≤ UInt8.ofNat n ∧
        (String.utf8EncodeChar (Char.ofNat (UInt8.ofNat n).toNat)).length = 2 ∧
        (String.utf8EncodeChar (Char.ofNat (UInt8.ofNat n).toNat)).all (128 ≤ ·) := by
    decide +kernel
  have hb : UInt8.ofNat b.toNat = b := UInt8.ofNat_toNat
  have hbyte := hall ⟨b.toNat, b.toNat_lt⟩
  simp only [hb] at hbyte
  rcases hbyte with hascii | ⟨hhigh, hlength, hbytes⟩
  · exact .inl hascii
  · obtain ⟨first, second, heq⟩ := List.length_eq_two.mp hlength
    rw [heq] at hbytes
    exact .inr ⟨hhigh, first, second, heq, by simpa using hbytes⟩

theorem length_utf8_latin1 (bytes : List UInt8) :
    (utf8 (latin1 bytes)).length = bytes.length + highBytes bytes ∧
      highBytes (utf8 (latin1 bytes)) = 2 * highBytes bytes := by
  rw [utf8_latin1]
  induction bytes with
  | nil => exact ⟨rfl, rfl⟩
  | cons b rest ih =>
      rw [List.flatMap_cons]
      unfold highBytes at ih ⊢
      rcases encode_latin1 b with ⟨hascii, heq⟩ | ⟨hhigh, first, second, heq, hfirst, hsecond⟩
      · have hlow : ¬ 128 ≤ b := by simpa using hascii
        rw [heq, List.singleton_append, List.countP_cons_of_neg (by simpa using hlow),
          List.countP_cons_of_neg (by simpa using hlow), List.length_cons, List.length_cons]
        omega
      · rw [heq, List.cons_append, List.singleton_append,
          List.countP_cons_of_pos (by simpa using hhigh),
          List.countP_cons_of_pos (by simpa using hfirst),
          List.countP_cons_of_pos (by simpa using hsecond), List.length_cons, List.length_cons,
          List.length_cons]
        omega

/-- ASCII is the same in both. -/
theorem utf8_latin1_of_ascii {bytes : List UInt8} (hascii : ∀ b ∈ bytes, b < 128) :
    utf8 (latin1 bytes) = bytes := by
  rw [utf8_latin1]
  induction bytes with
  | nil => rfl
  | cons b rest ih =>
      rw [List.flatMap_cons, ih fun other hother => hascii other (List.mem_cons_of_mem b hother)]
      rcases encode_latin1 b with ⟨-, heq⟩ | ⟨hhigh, -⟩
      · rw [heq, List.singleton_append]
      · exact absurd (hascii b List.mem_cons_self) (by simpa using hhigh)

/-- Taking the front of a text for Latin-1 gives the text back only if it is the whole
text and ASCII. -/
theorem latin1_eq_iff {text : String} {front rest : List UInt8} (htext : utf8 text = front ++ rest)
    (hrest : ∀ b, rest.head? = some b → b < 128) :
    latin1 front = text ↔ rest = [] ∧ ∀ b ∈ front, b < 128 := by
  constructor
  · -- both sides have the same length and the same number of high bytes
    intro hsame
    obtain ⟨hlength, hhigh⟩ := length_utf8_latin1 front
    rw [hsame, htext] at hlength hhigh
    unfold highBytes at hlength hhigh
    rw [List.length_append] at hlength
    rw [List.countP_append] at hhigh
    have hcount : rest.countP (128 ≤ ·) = rest.length := by omega
    have hempty : rest = [] := by
      cases rest with
      | nil => rfl
      | cons b rest =>
          have hhead := List.countP_eq_length.mp hcount b List.mem_cons_self
          exact absurd (hrest b rfl) (by simpa using hhead)
    refine ⟨hempty, fun b hb => ?_⟩
    rw [hempty, List.length_nil] at hlength
    have hnone : front.countP (128 ≤ ·) = 0 := by omega
    simpa using List.countP_eq_zero.mp hnone b hb
  · intro hplain
    obtain ⟨rfl, hascii⟩ := hplain
    apply utf8_injective
    rw [utf8_latin1_of_ascii hascii, htext, List.append_nil]

end Text
