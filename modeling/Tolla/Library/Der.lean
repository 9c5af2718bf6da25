import Mathlib.Algebra.Group.Nat.Defs
import Mathlib.Data.Nat.Digits.Lemmas
import Mathlib.Tactic.Common

/-!
# DER

Values in the distinguished encoding: an identifier, the length of the content
in its shortest form, and the content.  Identifiers are those of one byte, and
lengths those of at most four.

`natural` is the content of an INTEGER that is not negative.  Integers are in
two's complement, so a number whose first bit is 1 has a zero byte before it.
-/

namespace Der

/-- The bytes of a length below 2³². -/
def length (n : Nat) : List UInt8 :=
  if n < 128 then [UInt8.ofNat n]
  else if n < 2 ^ 8 then [0x81, UInt8.ofNat n]
  else if n < 2 ^ 16 then [0x82, UInt8.ofNat (n / 2 ^ 8), UInt8.ofNat n]
  else if n < 2 ^ 24 then
    [0x83, UInt8.ofNat (n / 2 ^ 16), UInt8.ofNat (n / 2 ^ 8), UInt8.ofNat n]
  else
    [0x84, UInt8.ofNat (n / 2 ^ 24), UInt8.ofNat (n / 2 ^ 16), UInt8.ofNat (n / 2 ^ 8),
      UInt8.ofNat n]

/-- A value. -/
def encode (tag : UInt8) (content : List UInt8) : List UInt8 :=
  tag :: (length content.length ++ content)

theorem length_le_encode (tag : UInt8) (content : List UInt8) :
    content.length ≤ (encode tag content).length := by
  simp only [encode, List.length_cons, List.length_append]
  omega

/-! ## Numbers -/

/-- The bytes of a number, highest first. -/
def octets (n : Nat) : List UInt8 := ((Nat.digits 256 n).map UInt8.ofNat).reverse

/-- The number that bytes stand for, highest first. -/
def number (bytes : List UInt8) : Nat :=
  bytes.foldl (fun value byte => value * 256 + byte.toNat) 0

/-- The content of an INTEGER: the fewest bytes whose first bit is 0. -/
def natural (n : Nat) : List UInt8 :=
  match octets n with
  | [] => [0]
  | first :: rest => if first < 128 then first :: rest else 0 :: first :: rest

theorem number_octets (n : Nat) : number (octets n) = n := by
  have hdigits : ∀ digit ∈ Nat.digits 256 n, (UInt8.ofNat digit).toNat = digit := by
    intro digit hdigit
    have hlt : digit < 256 := Nat.digits_lt_base (by decide) hdigit
    exact UInt8.toNat_ofNat_of_lt' hlt
  have hfold : ∀ digits : List Nat, (∀ digit ∈ digits, (UInt8.ofNat digit).toNat = digit) →
      (digits.map UInt8.ofNat).foldr (fun byte value => value * 256 + byte.toNat) 0 =
        Nat.ofDigits 256 digits := by
    intro digits
    induction digits with
    | nil => intro _; rfl
    | cons digit rest ih =>
        intro hall
        rw [List.forall_mem_cons] at hall
        rw [List.map_cons, List.foldr_cons, ih hall.2, hall.1, Nat.ofDigits_cons]
        omega
  rw [number, octets, List.foldl_reverse, hfold _ hdigits, Nat.ofDigits_digits]

/-- Numbers are written without zeros in front. -/
theorem octets_head_ne_zero {n : Nat} {first : UInt8} {rest : List UInt8}
    (hoctets : octets n = first :: rest) : first ≠ 0 := by
  intro hzero
  have hreverse : (Nat.digits 256 n).map UInt8.ofNat = rest.reverse ++ [first] := by
    rw [← List.reverse_reverse ((Nat.digits 256 n).map UInt8.ofNat), ← octets, hoctets,
      List.reverse_cons]
  have hpositive : n ≠ 0 := by
    rintro rfl
    simp [octets] at hoctets
  have hlast := Nat.getLast_digit_ne_zero 256 hpositive
  have hne : (Nat.digits 256 n) ≠ [] := Nat.digits_ne_nil_iff_ne_zero.mpr hpositive
  have hsmall : (Nat.digits 256 n).getLast hne < 256 :=
    Nat.digits_lt_base (by decide) (List.getLast_mem hne)
  have hbyte : UInt8.ofNat ((Nat.digits 256 n).getLast hne) = first := by
    have hmap := List.getLast?_map (f := UInt8.ofNat) (l := Nat.digits 256 n)
    rw [hreverse, List.getLast?_concat, List.getLast?_eq_some_getLast hne] at hmap
    exact (Option.some.inj hmap).symm
  rw [hzero] at hbyte
  have hnat := congrArg UInt8.toNat hbyte
  rw [UInt8.toNat_ofNat', Nat.mod_eq_of_lt hsmall] at hnat
  exact hlast hnat

theorem length_natural {n k : Nat} (hn : n < 256 ^ k) : (natural n).length ≤ k + 1 := by
  have hlength : (octets n).length ≤ k := by
    rw [octets, List.length_reverse, List.length_map]
    exact (Nat.digits_length_le_iff (by decide) n).mpr hn
  unfold natural
  split
  · simp
  · rename_i first rest hoctets
    rw [hoctets, List.length_cons] at hlength
    split
    · rw [List.length_cons]
      omega
    · rw [List.length_cons, List.length_cons]
      omega

end Der
