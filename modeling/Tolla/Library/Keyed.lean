import Mathlib.Data.List.Nodup
import Mathlib.Tactic.Common

/-!
# Keyed tables

A table is a list of rows in which no two rows have the same key.  The key is
part of the row, as the `_id` of a document or the name of a container is, and
that keys are distinct is a field of the table: `insert` has to refuse a row
whose key is taken, because the table it would have to return cannot be built.

The lemmas say what each operation does to membership; the users of a table
reason with them and do not look at the list.
-/

namespace Keyed

variable {α κ : Type*} {key : α → κ}

/-- Rows with pairwise distinct keys. -/
@[ext] structure Table (key : α → κ) where
  rows : List α
  nodup : (rows.map key).Nodup

namespace Table

instance : Membership α (Table key) := ⟨fun table row => row ∈ table.rows⟩

theorem mem_def {table : Table key} {row : α} : row ∈ table ↔ row ∈ table.rows := Iff.rfl

instance [DecidableEq α] : DecidableEq (Table key) := fun first second =>
  decidable_of_iff (first.rows = second.rows) Table.ext_iff.symm

instance [DecidableEq α] (table : Table key) (row : α) : Decidable (row ∈ table) :=
  inferInstanceAs (Decidable (row ∈ table.rows))

/-- The table with no rows. -/
def empty : Table key := ⟨[], List.nodup_nil⟩

@[simp] theorem not_mem_empty (row : α) : row ∉ (empty : Table key) := List.not_mem_nil

/-- Some row of the table has the key `k`. -/
def HasKey (table : Table key) (k : κ) : Prop := ∃ row ∈ table, key row = k

theorem hasKey_iff_mem_keys {table : Table key} {k : κ} :
    table.HasKey k ↔ k ∈ table.rows.map key := by
  simp [HasKey, mem_def]

instance [DecidableEq κ] (table : Table key) (k : κ) : Decidable (table.HasKey k) :=
  decidable_of_iff _ hasKey_iff_mem_keys.symm

@[simp] theorem not_hasKey_empty (k : κ) : ¬ (empty : Table key).HasKey k := by
  simp [HasKey]

theorem HasKey.of_mem {table : Table key} {row : α} (hrow : row ∈ table) :
    table.HasKey (key row) :=
  ⟨row, hrow, rfl⟩

/-- A key determines its row. -/
theorem eq_of_mem_of_key_eq {table : Table key} {first second : α} (hfirst : first ∈ table)
    (hsecond : second ∈ table) (hkey : key first = key second) : first = second :=
  List.inj_on_of_nodup_map table.nodup hfirst hsecond hkey

variable [DecidableEq κ]

/-- The row with the key `k`. -/
def find? (table : Table key) (k : κ) : Option α :=
  table.rows.find? fun row => key row = k

/-- Append a row, unless its key is taken. -/
def insert (table : Table key) (row : α) : Option (Table key) :=
  if hfresh : table.HasKey (key row) then none
  else some ⟨table.rows ++ [row], by
    rw [hasKey_iff_mem_keys] at hfresh
    simpa [List.nodup_append] using
      ⟨table.nodup, fun other hother heq => hfresh (heq ▸ List.mem_map_of_mem hother)⟩⟩

/-- Remove the row with the key `k`, if there is one. -/
def delete (table : Table key) (k : κ) : Table key :=
  ⟨table.rows.filter fun row => key row ≠ k,
    table.nodup.sublist ((List.filter_sublist ..).map key)⟩

/-- Change the row with the key `k`, if there is one, without changing its key. -/
def update (table : Table key) (k : κ) (change : α → α)
    (hkey : ∀ row, key (change row) = key row) : Table key :=
  ⟨table.rows.map fun row => if key row = k then change row else row, by
    have hkeys : key ∘ (fun row => if key row = k then change row else row) = key := by
      funext row
      simp only [Function.comp_apply]
      split
      · exact hkey row
      · rfl
    rw [List.map_map, hkeys]
    exact table.nodup⟩

/-! ## Lookup -/

theorem find?_eq_some_iff {table : Table key} {k : κ} {row : α} :
    table.find? k = some row ↔ row ∈ table ∧ key row = k := by
  constructor
  · intro hfind
    exact ⟨List.mem_of_find?_eq_some hfind, by simpa using List.find?_some hfind⟩
  · rintro ⟨hrow, hkey⟩
    cases hfind : table.find? k with
    | none =>
        have := List.find?_eq_none.mp hfind row hrow
        simp [hkey] at this
    | some other =>
        have hother : other ∈ table := List.mem_of_find?_eq_some hfind
        have hotherKey : key other = k := by simpa using List.find?_some hfind
        rw [eq_of_mem_of_key_eq hrow hother (hkey.trans hotherKey.symm)]

/-! ## Insertion -/

theorem insert_eq_none_iff {table : Table key} {row : α} :
    table.insert row = none ↔ table.HasKey (key row) := by
  simp [insert]

theorem insert_eq_some_iff {table after : Table key} {row : α} :
    table.insert row = some after ↔
      ¬ table.HasKey (key row) ∧ after.rows = table.rows ++ [row] := by
  unfold insert
  split
  · simp_all
  · simp only [Option.some.injEq, Table.ext_iff]
    constructor
    · exact fun heq => ⟨‹_›, heq.symm⟩
    · exact fun heq => heq.2.symm

theorem mem_of_insert {table after : Table key} {row other : α}
    (hinsert : table.insert row = some after) : other ∈ after ↔ other ∈ table ∨ other = row := by
  simp [mem_def, (insert_eq_some_iff.mp hinsert).2]

theorem hasKey_of_insert {table after : Table key} {row : α} {k : κ}
    (hinsert : table.insert row = some after) :
    after.HasKey k ↔ table.HasKey k ∨ key row = k := by
  simp only [HasKey, mem_of_insert hinsert]
  constructor
  · rintro ⟨other, hother | rfl, hkey⟩
    · exact .inl ⟨other, hother, hkey⟩
    · exact .inr hkey
  · rintro (⟨other, hother, hkey⟩ | hkey)
    · exact ⟨other, .inl hother, hkey⟩
    · exact ⟨row, .inr rfl, hkey⟩

/-! ## Deletion and update -/

@[simp] theorem mem_delete {table : Table key} {k : κ} {row : α} :
    row ∈ table.delete k ↔ row ∈ table ∧ key row ≠ k := by
  simp [delete, mem_def]

@[simp] theorem hasKey_delete {table : Table key} {k other : κ} :
    (table.delete k).HasKey other ↔ table.HasKey other ∧ other ≠ k := by
  constructor
  · rintro ⟨row, hrow, rfl⟩
    rw [mem_delete] at hrow
    exact ⟨⟨row, hrow.1, rfl⟩, hrow.2⟩
  · rintro ⟨⟨row, hrow, rfl⟩, hne⟩
    exact ⟨row, mem_delete.mpr ⟨hrow, hne⟩, rfl⟩

theorem mem_update {table : Table key} {k : κ} {change : α → α}
    {hkey : ∀ row, key (change row) = key row} {row : α} :
    row ∈ table.update k change hkey ↔
      (row ∈ table ∧ key row ≠ k) ∨ ∃ old ∈ table, key old = k ∧ row = change old := by
  simp only [update, mem_def, List.mem_map]
  constructor
  · rintro ⟨old, hold, rfl⟩
    by_cases hk : key old = k
    · exact .inr ⟨old, hold, hk, by simp [hk]⟩
    · exact .inl ⟨by simpa [hk] using hold, by simp [hk]⟩
  · rintro (⟨hrow, hne⟩ | ⟨old, hold, hk, rfl⟩)
    · exact ⟨row, hrow, by simp [hne]⟩
    · exact ⟨old, hold, by simp [hk]⟩

@[simp] theorem hasKey_update {table : Table key} {k other : κ} {change : α → α}
    {hkey : ∀ row, key (change row) = key row} :
    (table.update k change hkey).HasKey other ↔ table.HasKey other := by
  rw [hasKey_iff_mem_keys, hasKey_iff_mem_keys]
  have hkeys : (table.update k change hkey).rows.map key = table.rows.map key := by
    simp only [update, List.map_map]
    apply List.map_congr_left
    intro row _
    simp only [Function.comp_apply]
    split
    · exact hkey row
    · rfl
  rw [hkeys]

/-- A change to the row that was just inserted touches no other row. -/
theorem rows_update_of_insert {table after : Table key} {row : α}
    (hinsert : table.insert row = some after) {change : α → α}
    {hkey : ∀ row, key (change row) = key row} :
    (after.update (key row) change hkey).rows = table.rows ++ [change row] := by
  obtain ⟨hfree, hrows⟩ := insert_eq_some_iff.mp hinsert
  have hothers : table.rows.map (fun other => if key other = key row then change other else other) =
      table.rows := by
    rw [List.map_congr_left (g := fun other => other), List.map_id']
    intro other hother
    exact if_neg fun hsame => hfree ⟨other, hother, hsame⟩
  have hupdate : (after.update (key row) change hkey).rows =
      after.rows.map fun other => if key other = key row then change other else other := rfl
  rw [hupdate, hrows, List.map_append, hothers]
  simp

end Table
end Keyed
