import Mathlib.Data.List.Basic
import Mathlib.Tactic.Common

/-!
# Readers

A reader takes an item off the front of a list and returns the rest, or it
fails.  The readers of self-delimiting formats have one property in common: what
they read from a list they also read from every longer list (`Extensible`).
From it follows that they fail on every proper prefix of what they read whole
(`Extensible.none_of_prefix`), which is all that the proofs about truncated
input need.

A list that is only the beginning of an item can be completed to one.  Whether it
can with a given number of elements is decided part by part (`completesIn_of_some`,
`completesIn_of_none`).

`many` reads items until the list is empty, and `leading` as long as it can.  What
`leading` leaves over is all that later elements are added to (`many_leading`), so
it is all that has to be completed (`completesMany_iff`).
-/

namespace Readers

variable {α β γ : Type*}

/-- An item and the rest of the list. -/
abbrev Reader (β α : Type*) := List β → Option (α × List β)

/-- Read nothing. -/
def result (item : α) : Reader β α := fun list => some (item, list)

/-- Fail. -/
def failure : Reader β α := fun _ => none

/-- Read one item, then another that may depend on it. -/
def andThen (first : Reader β α) (second : α → Reader β γ) : Reader β γ := fun list =>
  match first list with
  | none => none
  | some (item, rest) => second item rest

/-- Take `n` elements, if there are that many. -/
def take (n : Nat) : Reader β (List β) := fun list =>
  if n ≤ list.length then some (list.take n, list.drop n) else none

theorem andThen_eq_some_iff {first : Reader β α} {second : α → Reader β γ} {list rest : List β}
    {item : γ} :
    andThen first second list = some (item, rest) ↔
      ∃ middle between, first list = some (middle, between) ∧
        second middle between = some (item, rest) := by
  unfold andThen
  cases hfirst : first list with
  | none => simp
  | some pair =>
      obtain ⟨middle, between⟩ := pair
      simp

theorem andThen_result_eq_none {reader : Reader β α} {make : α → γ} {list : List β}
    (hnone : andThen reader (fun item => result (make item)) list = none) :
    reader list = none := by
  cases hread : reader list with
  | none => rfl
  | some pair => simp [andThen, result, hread] at hnone

/-- A longer list makes no difference. -/
def Extensible (reader : Reader β α) : Prop :=
  ∀ list item rest, reader list = some (item, rest) →
    ∀ more, reader (list ++ more) = some (item, rest ++ more)

theorem Extensible.andThen {first : Reader β α} {second : α → Reader β γ}
    (hfirst : Extensible first) (hsecond : ∀ item, Extensible (second item)) :
    Extensible (andThen first second) := by
  intro list item rest hread more
  obtain ⟨middle, between, hitem, hread⟩ := andThen_eq_some_iff.mp hread
  apply andThen_eq_some_iff.mpr
  exact ⟨middle, _, hfirst _ _ _ hitem more, hsecond middle _ _ _ hread more⟩

theorem Extensible.take (n : Nat) : Extensible (take n : Reader β (List β)) := by
  intro list item rest hread more
  unfold Readers.take at hread ⊢
  split at hread
  · rename_i hn
    obtain ⟨rfl, rfl⟩ := Prod.mk.inj (Option.some.inj hread)
    have hlonger : n ≤ (list ++ more).length := by
      rw [List.length_append]
      omega
    rw [if_pos hlonger, List.take_append_of_le_length hn, List.drop_append_of_le_length hn]
  · simp at hread

theorem Extensible.result (item : α) : Extensible (result item : Reader β α) := by
  intro list other rest hread more
  obtain ⟨rfl, rfl⟩ := Prod.mk.inj (Option.some.inj hread)
  rfl

theorem Extensible.failure : Extensible (failure : Reader β α) := by
  intro list item rest hread
  cases hread

/-- Nothing can be read from a proper prefix of what is read whole. -/
theorem Extensible.none_of_prefix {reader : Reader β α} (hreader : Extensible reader)
    {whole front : List β} {item : α} (hwhole : reader whole = some (item, []))
    (hfront : front <+: whole) (hproper : front ≠ whole) : reader front = none := by
  obtain ⟨back, rfl⟩ := hfront
  cases hread : reader front with
  | none => rfl
  | some pair =>
      have hmore := hreader _ _ _ hread back
      rw [hwhole] at hmore
      have hback : pair.2 ++ back = [] := (Prod.mk.inj (Option.some.inj hmore)).2.symm
      exact absurd (by rw [(List.append_eq_nil_iff.mp hback).2, List.append_nil]) hproper

/-! ## What is read -/

/-- What is read is the front of the list, and can be read alone. -/
def Splits (reader : Reader β α) : Prop :=
  ∀ list item rest, reader list = some (item, rest) →
    ∃ front, list = front ++ rest ∧ reader front = some (item, [])

theorem Splits.result (item : α) : Splits (result item : Reader β α) := by
  intro list other rest hread
  obtain ⟨rfl, rfl⟩ := Prod.mk.inj (Option.some.inj hread)
  exact ⟨[], rfl, rfl⟩

theorem Splits.failure : Splits (failure : Reader β α) := by
  intro list item rest hread
  cases hread

theorem Splits.take (n : Nat) : Splits (take n : Reader β (List β)) := by
  intro list item rest hread
  unfold Readers.take at hread
  split at hread
  · rename_i hn
    obtain ⟨rfl, rfl⟩ := Prod.mk.inj (Option.some.inj hread)
    refine ⟨list.take n, (List.take_append_drop n list).symm, ?_⟩
    simp [Readers.take, hn, List.take_take]
  · cases hread

theorem Splits.andThen {first : Reader β α} {second : α → Reader β γ}
    (hextensible : Extensible first) (hfirst : Splits first)
    (hsecond : ∀ item, Splits (second item)) : Splits (andThen first second) := by
  intro list item rest hread
  obtain ⟨middle, between, hitem, hrest⟩ := andThen_eq_some_iff.mp hread
  obtain ⟨front, rfl, hfront⟩ := hfirst _ _ _ hitem
  obtain ⟨back, rfl, hback⟩ := hsecond middle _ _ _ hrest
  refine ⟨front ++ back, (List.append_assoc ..).symm, ?_⟩
  apply andThen_eq_some_iff.mpr
  exact ⟨middle, _, hextensible _ _ _ hfront back, hback⟩

/-- An item that begins in the front ends after it. -/
theorem exists_of_append {reader : Reader β α} (hextensible : Extensible reader)
    (hsplits : Splits reader) {front more rest : List β} {item : α}
    (hnone : reader front = none) (hread : reader (front ++ more) = some (item, rest)) :
    ∃ back, more = back ++ rest ∧ reader (front ++ back) = some (item, []) := by
  obtain ⟨whole, hwhole, halone⟩ := hsplits _ _ _ hread
  rcases List.prefix_or_prefix_of_prefix ⟨more, hwhole⟩ (List.prefix_append whole rest) with
    ⟨back, rfl⟩ | ⟨back, rfl⟩
  · rw [List.append_assoc] at hwhole
    exact ⟨back, List.append_cancel_left hwhole, halone⟩
  · rw [hextensible _ _ _ halone back] at hnone
    cases hnone

/-! ## Unfinished items -/

/-- With `count` more elements, the front is an item that satisfies `P`. -/
def CompletesIn (reader : Reader β α) (P : α → Prop) (count : Nat) (front : List β) : Prop :=
  ∃ more item, more.length = count ∧ reader (front ++ more) = some (item, []) ∧ P item

section CompletesIn

variable {P : α → Prop} {Q : γ → Prop} {count : Nat} {front : List β}

theorem completesIn_take {n : Nat} {P : List β → Prop} :
    CompletesIn (take n) P count front ↔
      front.length + count = n ∧ ∃ more, more.length = count ∧ P (front ++ more) := by
  constructor
  · rintro ⟨more, item, hlength, hread, hitem⟩
    unfold take at hread
    split at hread
    · rename_i hn
      obtain ⟨rfl, hrest⟩ := Prod.mk.inj (Option.some.inj hread)
      rw [List.drop_eq_nil_iff] at hrest
      rw [List.take_of_length_le hrest] at hitem
      rw [List.length_append] at hn hrest
      exact ⟨by omega, more, hlength, hitem⟩
    · cases hread
  · rintro ⟨hn, more, hlength, hitem⟩
    have hwhole : (front ++ more).length = n := by rw [List.length_append, hlength, hn]
    refine ⟨more, front ++ more, hlength, ?_, hitem⟩
    rw [take, if_pos (Nat.le_of_eq hwhole.symm), ← hwhole, List.take_length, List.drop_length]

theorem completesIn_failure : ¬ CompletesIn (failure : Reader β α) P count front := by
  rintro ⟨more, item, -, hread, -⟩
  cases hread

/-- What is made of an item does not change how it is completed. -/
theorem completesIn_result {reader : Reader β α} {make : α → γ} :
    CompletesIn (andThen reader fun item => result (make item)) Q count front ↔
      CompletesIn reader (fun item => Q (make item)) count front := by
  refine exists_congr fun more => ?_
  constructor
  · rintro ⟨made, hlength, hread, hmade⟩
    obtain ⟨item, rest, hitem, hresult⟩ := andThen_eq_some_iff.mp hread
    obtain ⟨rfl, rfl⟩ := Prod.mk.inj (Option.some.inj hresult)
    exact ⟨item, hlength, hitem, hmade⟩
  · rintro ⟨item, hlength, hread, hitem⟩
    exact ⟨make item, hlength, andThen_eq_some_iff.mpr ⟨item, [], hread, rfl⟩, hitem⟩

variable {first : Reader β α} {second : α → Reader β γ}

/-- If the first part is there, the second is what has to be completed. -/
theorem completesIn_of_some (hextensible : Extensible first) {middle : α} {between : List β}
    (hfirst : first front = some (middle, between)) :
    CompletesIn (andThen first second) Q count front ↔
      CompletesIn (second middle) Q count between := by
  refine exists₂_congr fun more item => and_congr_right fun _ => and_congr_left fun _ => ?_
  rw [andThen, hextensible _ _ _ hfirst more]

/-- Else the first part is completed, and the second comes after it. -/
theorem completesIn_of_none (hextensible : Extensible first) (hsplits : Splits first)
    (hnone : first front = none) :
    CompletesIn (andThen first second) Q count front ↔
      ∃ here later, here + later = count ∧
        CompletesIn first (fun middle => CompletesIn (second middle) Q later []) here front := by
  constructor
  · rintro ⟨more, item, rfl, hread, hitem⟩
    obtain ⟨middle, between, hfirst, hsecond⟩ := andThen_eq_some_iff.mp hread
    obtain ⟨back, rfl, hback⟩ := exists_of_append hextensible hsplits hnone hfirst
    refine ⟨back.length, between.length, List.length_append.symm, back, middle, rfl, hback, ?_⟩
    exact ⟨between, item, rfl, hsecond, hitem⟩
  · rintro ⟨here, later, rfl, back, middle, rfl, hback, between, item, rfl, hsecond, hitem⟩
    refine ⟨back ++ between, item, List.length_append, ?_, hitem⟩
    apply andThen_eq_some_iff.mpr
    refine ⟨middle, between, ?_, hsecond⟩
    rw [← List.append_assoc]
    exact hextensible _ _ _ hback between

end CompletesIn

/-! ## What is left -/

/-- The rest is no longer than the list. -/
def Shrinks (reader : Reader β α) : Prop :=
  ∀ list item rest, reader list = some (item, rest) → rest.length ≤ list.length

/-- Every item is at least one element long. -/
def Consumes (reader : Reader β α) : Prop :=
  ∀ list item rest, reader list = some (item, rest) → rest.length < list.length

theorem Shrinks.result (item : α) : Shrinks (result item : Reader β α) := by
  intro list other rest hread
  obtain ⟨-, rfl⟩ := Prod.mk.inj (Option.some.inj hread)
  exact Nat.le_refl _

theorem Shrinks.failure : Shrinks (failure : Reader β α) := by
  intro list item rest hread
  cases hread

theorem Shrinks.take (n : Nat) : Shrinks (take n : Reader β (List β)) := by
  intro list item rest hread
  unfold Readers.take at hread
  split at hread
  · obtain ⟨-, rfl⟩ := Prod.mk.inj (Option.some.inj hread)
    rw [List.length_drop]
    omega
  · cases hread

theorem Consumes.shrinks {reader : Reader β α} (hreader : Consumes reader) : Shrinks reader :=
  fun _ _ _ hread => Nat.le_of_lt (hreader _ _ _ hread)

theorem Shrinks.andThen {first : Reader β α} {second : α → Reader β γ}
    (hfirst : Shrinks first) (hsecond : ∀ item, Shrinks (second item)) :
    Shrinks (andThen first second) := by
  intro list item rest hread
  obtain ⟨middle, between, hitem, hread⟩ := andThen_eq_some_iff.mp hread
  exact Nat.le_trans (hsecond _ _ _ _ hread) (hfirst _ _ _ hitem)

theorem Consumes.andThen {first : Reader β α} {second : α → Reader β γ}
    (hfirst : Consumes first) (hsecond : ∀ item, Shrinks (second item)) :
    Consumes (andThen first second) := by
  intro list item rest hread
  obtain ⟨middle, between, hitem, hread⟩ := andThen_eq_some_iff.mp hread
  exact Nat.lt_of_le_of_lt (hsecond _ _ _ _ hread) (hfirst _ _ _ hitem)

/-! ## Reading many items -/

/-- Read items until the list is empty.  A reader that takes nothing would go on
for ever, so the length of the list bounds the number of items. -/
def manyLoop (reader : Reader β α) : Nat → List β → Option (List α)
  | _, [] => some []
  | 0, _ :: _ => none
  | fuel + 1, list@(_ :: _) =>
      match reader list with
      | none => none
      | some (item, rest) => (manyLoop reader fuel rest).map (item :: ·)

/-- Read the whole list as a sequence of items. -/
def many (reader : Reader β α) (list : List β) : Option (List α) :=
  manyLoop reader list.length list

variable {reader : Reader β α}

@[simp] theorem many_nil : many reader [] = some [] := rfl

private theorem manyLoop_fuel (hconsumes : Consumes reader) {fuel fuel' : Nat} {list : List β}
    (hfuel : list.length ≤ fuel) (hfuel' : list.length ≤ fuel') :
    manyLoop reader fuel list = manyLoop reader fuel' list := by
  induction fuel generalizing fuel' list with
  | zero =>
      obtain rfl : list = [] := List.length_eq_zero_iff.mp (by omega)
      cases fuel' <;> rfl
  | succ fuel ih =>
      cases list with
      | nil => cases fuel' <;> rfl
      | cons head tail =>
          cases fuel' with
          | zero => simp at hfuel'
          | succ fuel' =>
              simp only [manyLoop]
              cases hread : reader (head :: tail) with
              | none => rfl
              | some pair =>
                  have hshort := hconsumes _ _ _ hread
                  simp only [List.length_cons] at hshort hfuel hfuel'
                  have hrest : manyLoop reader fuel pair.2 = manyLoop reader fuel' pair.2 :=
                    ih (by omega) (by omega)
                  simp only [hrest]

theorem many_of_some (hconsumes : Consumes reader) {list rest : List β} {item : α}
    (hread : reader list = some (item, rest)) :
    many reader list = (many reader rest).map (item :: ·) := by
  have hshort := hconsumes _ _ _ hread
  cases list with
  | nil => simp at hshort
  | cons head tail =>
      simp only [List.length_cons] at hshort
      simp only [many, List.length_cons, manyLoop, hread]
      rw [manyLoop_fuel hconsumes (by omega) (Nat.le_refl rest.length)]

theorem many_of_none {list : List β} (hlist : list ≠ []) (hread : reader list = none) :
    many reader list = none := by
  cases list with
  | nil => exact absurd rfl hlist
  | cons head tail => simp only [many, List.length_cons, manyLoop, hread]

/-! ## Reading as many items as possible -/

def leadingLoop (reader : Reader β α) : Nat → List β → List α × List β
  | 0, list => ([], list)
  | fuel + 1, list =>
      match reader list with
      | none => ([], list)
      | some (item, rest) =>
          (item :: (leadingLoop reader fuel rest).1, (leadingLoop reader fuel rest).2)

/-- The items that can be read from the front of a list, and what comes after them. -/
def leading (reader : Reader β α) (list : List β) : List α × List β :=
  leadingLoop reader list.length list

/-- Nothing more can be read from what is left over. -/
theorem leading_rest (hconsumes : Consumes reader) (list : List β) :
    reader (leading reader list).2 = none := by
  have hempty : reader [] = none := by
    cases hread : reader [] with
    | none => rfl
    | some pair => exact absurd (hconsumes _ _ _ hread) (Nat.not_lt_zero _)
  have hloop : ∀ fuel (list : List β), list.length ≤ fuel →
      reader (leadingLoop reader fuel list).2 = none := by
    intro fuel
    induction fuel with
    | zero =>
        intro list hfuel
        rw [List.length_eq_zero_iff.mp (Nat.le_zero.mp hfuel)]
        exact hempty
    | succ fuel ih =>
        intro list hfuel
        unfold leadingLoop
        cases hread : reader list with
        | none => exact hread
        | some pair =>
            have hshort := hconsumes _ _ _ hread
            exact ih _ (by omega)
  exact hloop _ _ (Nat.le_refl _)

/-- What was read stays read when the list is continued. -/
theorem many_leading (hextensible : Extensible reader) (hconsumes : Consumes reader)
    (list more : List β) :
    many reader (list ++ more) =
      (many reader ((leading reader list).2 ++ more)).map ((leading reader list).1 ++ ·) := by
  have hloop : ∀ fuel (list : List β), many reader (list ++ more) =
      (many reader ((leadingLoop reader fuel list).2 ++ more)).map
        ((leadingLoop reader fuel list).1 ++ ·) := by
    intro fuel
    induction fuel with
    | zero => intro list; simp [leadingLoop]
    | succ fuel ih =>
        intro list
        unfold leadingLoop
        cases hread : reader list with
        | none => simp
        | some pair =>
            rw [many_of_some hconsumes (hextensible _ _ _ hread more), ih pair.2, Option.map_map]
            rfl
  exact hloop _ _

/-- With `count` more elements, the front is a sequence of items that satisfy `P`. -/
def CompletesMany (reader : Reader β α) (P : α → Prop) (count : Nat) (front : List β) : Prop :=
  ∃ more items, more.length = count ∧ many reader (front ++ more) = some items ∧
    ∀ item ∈ items, P item

/-- The items that are there satisfy `P`, and the one that has begun is completed before
others come. -/
theorem completesMany_iff (hextensible : Extensible reader) (hconsumes : Consumes reader)
    (hsplits : Splits reader) {P : α → Prop} {count : Nat} {front : List β} :
    CompletesMany reader P count front ↔ (∀ item ∈ (leading reader front).1, P item) ∧
      if (leading reader front).2 = [] then CompletesMany reader P count []
      else ∃ here later, here + later = count ∧
        CompletesIn reader P here (leading reader front).2 ∧ CompletesMany reader P later [] := by
  have hnone := leading_rest hconsumes front
  have hmany := many_leading hextensible hconsumes front
  generalize (leading reader front).1 = items at hmany ⊢
  generalize (leading reader front).2 = rest at hmany hnone ⊢
  by_cases hempty : rest = []
  · subst hempty
    rw [if_pos rfl]
    constructor
    · rintro ⟨more, all, hlength, hall, hitems⟩
      rw [hmany more] at hall
      obtain ⟨others, hothers, rfl⟩ := Option.map_eq_some_iff.mp hall
      rw [List.forall_mem_append] at hitems
      exact ⟨hitems.1, more, others, hlength, hothers, hitems.2⟩
    · rintro ⟨hitems, more, others, hlength, hothers, hlater⟩
      refine ⟨more, items ++ others, hlength, ?_, List.forall_mem_append.mpr ⟨hitems, hlater⟩⟩
      rw [hmany more, hothers]
      rfl
  · rw [if_neg hempty]
    constructor
    · rintro ⟨more, all, rfl, hall, hitems⟩
      rw [hmany more] at hall
      obtain ⟨others, hothers, rfl⟩ := Option.map_eq_some_iff.mp hall
      rw [List.forall_mem_append] at hitems
      refine ⟨hitems.1, ?_⟩
      cases hread : reader (rest ++ more) with
      | none =>
          rw [many_of_none (by simp [hempty]) hread] at hothers
          cases hothers
      | some pair =>
          obtain ⟨item, after⟩ := pair
          rw [many_of_some hconsumes hread] at hothers
          obtain ⟨later, hlater, rfl⟩ := Option.map_eq_some_iff.mp hothers
          rw [List.forall_mem_cons] at hitems
          obtain ⟨back, rfl, hback⟩ := exists_of_append hextensible hsplits hnone hread
          refine ⟨back.length, after.length, List.length_append.symm, ?_, ?_⟩
          · exact ⟨back, item, rfl, hback, hitems.2.1⟩
          · exact ⟨after, later, rfl, hlater, hitems.2.2⟩
    · rintro ⟨hitems, here, later, rfl, ⟨back, item, rfl, hback, hitem⟩, after, others, rfl,
        hothers, hlater⟩
      refine ⟨back ++ after, items ++ item :: others, List.length_append, ?_, ?_⟩
      · have hread := hextensible _ _ _ hback after
        rw [List.append_assoc] at hread
        rw [hmany, many_of_some hconsumes hread]
        exact congrArg (fun found => (found.map (item :: ·)).map (items ++ ·)) hothers
      · exact List.forall_mem_append.mpr ⟨hitems, List.forall_mem_cons.mpr ⟨hitem, hlater⟩⟩

end Readers
