import Mathlib.Data.List.Basic
import Mathlib.Tactic.Common

/-!
# Form-encoded queries

`application/x-www-form-urlencoded`, on bytes: `escape` is the escaping of one
component, `encode` joins escaped pairs with `=` and `&`, and `parse` is the
reader's side, which splits first and unescapes afterwards.  `parse_encode` is
the round trip, for every list of pairs and every byte in them.
-/

namespace FormUrl

/-- The bytes of a component that stand for themselves. -/
def unreserved (b : UInt8) : Bool :=
  (48 ≤ b && b ≤ 57) || (65 ≤ b && b ≤ 90) || (97 ≤ b && b ≤ 122) ||
    b == 45 || b == 46 || b == 95 || b == 126

/-- An upper-case hexadecimal digit. -/
def hexDigit (n : UInt8) : UInt8 := if n < 10 then 48 + n else 55 + n

/-- The value of a hexadecimal digit. -/
def hexValue (b : UInt8) : Option UInt8 :=
  if 48 ≤ b && b ≤ 57 then some (b - 48)
  else if 65 ≤ b && b ≤ 70 then some (b - 55)
  else if 97 ≤ b && b ≤ 102 then some (b - 87)
  else none

/-- A blank becomes `+`, a reserved byte its two hexadecimal digits. -/
def escapeByte (b : UInt8) : List UInt8 :=
  if b = 32 then [43]
  else if unreserved b then [b]
  else [37, hexDigit (b / 16), hexDigit (b % 16)]

def escape (component : List UInt8) : List UInt8 := component.flatMap escapeByte

/-- The byte that two hexadecimal digits stand for. -/
def hexByte (high low : UInt8) : Option UInt8 :=
  match hexValue high, hexValue low with
  | some h, some l => some (h * 16 + l)
  | _, _ => none

/-- A `%` without two hexadecimal digits stands for itself. -/
def unescape : List UInt8 → List UInt8
  | [] => []
  | b :: high :: low :: rest =>
      if b = 37 then
        match hexByte high low with
        | some byte => byte :: unescape rest
        | none => b :: unescape (high :: low :: rest)
      else (if b = 43 then 32 else b) :: unescape (high :: low :: rest)
  | b :: rest => (if b = 43 then 32 else b) :: unescape rest

/-- `key=value&key=value`. -/
def encode (pairs : List (List UInt8 × List UInt8)) : List UInt8 :=
  [38].intercalate (pairs.map fun pair => escape pair.1 ++ 61 :: escape pair.2)

/-- Split one sequence at its first `=`. -/
def parsePair (piece : List UInt8) : List UInt8 × List UInt8 :=
  (unescape (piece.takeWhile (· ≠ 61)), unescape (piece.dropWhile (· ≠ 61)).tail)

/-- Split at every `&`, skip what is empty. -/
def parse (query : List UInt8) : List (List UInt8 × List UInt8) :=
  ((query.splitOn 38).filter (· ≠ [])).map parsePair

/-! ## One byte -/

private theorem byte_forall {P : UInt8 → Prop} (h : ∀ n : Fin 256, P (UInt8.ofNat n)) (b : UInt8) :
    P b := by
  have hb : UInt8.ofNat b.toNat = b := UInt8.ofNat_toNat
  have hbyte := h ⟨b.toNat, b.toNat_lt⟩
  rwa [hb] at hbyte

private theorem hexByte_hexDigit (b : UInt8) :
    hexByte (hexDigit (b / 16)) (hexDigit (b % 16)) = some b :=
  byte_forall (P := fun b => hexByte (hexDigit (b / 16)) (hexDigit (b % 16)) = some b)
    (by decide +kernel) b

private theorem separator_not_mem_escapeByte (b : UInt8) :
    38 ∉ escapeByte b ∧ 61 ∉ escapeByte b :=
  byte_forall (P := fun b => 38 ∉ escapeByte b ∧ 61 ∉ escapeByte b) (by decide +kernel) b

private theorem unreserved_ne (b : UInt8) (h : unreserved b = true) : b ≠ 43 ∧ b ≠ 37 :=
  byte_forall (P := fun b => unreserved b = true → b ≠ 43 ∧ b ≠ 37) (by decide +kernel) b h

private theorem unescape_cons_of_ne {b : UInt8} (h : b ≠ 37) (rest : List UInt8) :
    unescape (b :: rest) = (if b = 43 then 32 else b) :: unescape rest := by
  match rest with
  | [] => simp [unescape]
  | [_] => simp [unescape]
  | _ :: _ :: _ => rw [unescape, if_neg h]

private theorem unescape_escapeByte (b : UInt8) (rest : List UInt8) :
    unescape (escapeByte b ++ rest) = b :: unescape rest := by
  unfold escapeByte
  by_cases hblank : b = 32
  · rw [if_pos hblank, List.singleton_append, unescape_cons_of_ne (by decide)]
    simp [hblank]
  rw [if_neg hblank]
  by_cases hplain : unreserved b = true
  · obtain ⟨hplus, hpercent⟩ := unreserved_ne b hplain
    rw [if_pos hplain, List.singleton_append, unescape_cons_of_ne hpercent, if_neg hplus]
  · rw [if_neg hplain]
    simp [unescape, hexByte_hexDigit]

/-! ## One component -/

theorem unescape_escape (component : List UInt8) : unescape (escape component) = component := by
  induction component with
  | nil => rfl
  | cons b rest ih =>
      have hcons : escape (b :: rest) = escapeByte b ++ escape rest := rfl
      rw [hcons, unescape_escapeByte, ih]

theorem separator_not_mem_escape (component : List UInt8) :
    38 ∉ escape component ∧ 61 ∉ escape component := by
  constructor
  · intro hmem
    obtain ⟨b, _, hb⟩ := List.mem_flatMap.mp hmem
    exact (separator_not_mem_escapeByte b).1 hb
  · intro hmem
    obtain ⟨b, _, hb⟩ := List.mem_flatMap.mp hmem
    exact (separator_not_mem_escapeByte b).2 hb

/-! ## A query -/

private theorem parsePair_pair (pair : List UInt8 × List UInt8) :
    parsePair (escape pair.1 ++ 61 :: escape pair.2) = pair := by
  have hkey : ∀ b ∈ escape pair.1, b ≠ 61 := by
    rintro b hb rfl
    exact (separator_not_mem_escape pair.1).2 hb
  have htake : (escape pair.1 ++ 61 :: escape pair.2).takeWhile (· ≠ 61) = escape pair.1 := by
    rw [List.takeWhile_append_of_pos (by simpa using hkey)]
    simp
  have hdrop : (escape pair.1 ++ 61 :: escape pair.2).dropWhile (· ≠ 61) =
      61 :: escape pair.2 := by
    rw [List.dropWhile_append_of_pos (by simpa using hkey)]
    simp
  unfold parsePair
  rw [htake, hdrop, unescape_escape, List.tail_cons, unescape_escape]

private theorem ampersand_not_mem_pair (pair : List UInt8 × List UInt8) :
    (38 : UInt8) ∉ escape pair.1 ++ 61 :: escape pair.2 := by
  simp [(separator_not_mem_escape pair.1).1, (separator_not_mem_escape pair.2).1]

/-- What is encoded is read back, pair by pair. -/
theorem parse_encode (pairs : List (List UInt8 × List UInt8)) : parse (encode pairs) = pairs := by
  cases pairs with
  | nil => rfl
  | cons first rest =>
      have hpieces : ∀ piece ∈ (first :: rest).map fun pair => escape pair.1 ++ 61 :: escape pair.2,
          (38 : UInt8) ∉ piece := by
        intro piece hpiece
        obtain ⟨pair, _, rfl⟩ := List.mem_map.mp hpiece
        exact ampersand_not_mem_pair pair
      have hsplit := List.splitOn_intercalate (38 : UInt8) hpieces (by simp)
      unfold parse encode
      rw [hsplit, List.filter_eq_self.mpr, List.map_map]
      · simp only [Function.comp_def, parsePair_pair, List.map_id_fun', id]
      · intro piece hpiece
        obtain ⟨pair, _, rfl⟩ := List.mem_map.mp hpiece
        simp

end FormUrl
