import ClosingLabels.Table
import Mathlib.Data.List.Nodup

/-!
# Tables without repeated names

A table that was only ever written to and erased from has each name once. Its rows
are then exactly what can be read from it, so a statement about all rows and one about
all names say the same.
-/

namespace ClosingLabels.Table

variable {κ α : Type} [DecidableEq κ]

/-- Reading after writing, for any two names. -/
theorem get?_insert (table : Table κ α) (key other : κ) (value : α) :
    (table.insert key value).get? other = if other = key then some value else table.get? other := by
  by_cases h : other = key
  · rw [if_pos h, h, get?_insert_self]
  · rw [if_neg h, get?_insert_of_ne table value h]

/-- Reading after removing, for any two names. -/
theorem get?_erase (table : Table κ α) (key other : κ) :
    (table.erase key).get? other = if other = key then none else table.get? other := by
  by_cases h : other = key
  · rw [if_pos h, h, get?_erase_self]
  · rw [if_neg h, get?_erase_of_ne table h]

/-- Removing a name brings none back. -/
theorem get?_erase_of_none {table : Table κ α} {other : κ} (h : table.get? other = none)
    (key : κ) : (table.erase key).get? other = none := by
  rw [get?_erase, h, ite_self]

/-- The names after writing: as before when the name is known, else one more at the end. -/
theorem keys_insert (table : Table κ α) (key : κ) (value : α) :
    (table.insert key value).keys =
      if key ∈ table.keys then table.keys else table.keys ++ [key] := by
  obtain ⟨rows⟩ := table
  simp only [insert, keys]
  induction rows with
  | nil => simp [put]
  | cons row rest ih =>
    obtain ⟨k, v⟩ := row
    by_cases hk : k = key
    · simp [put, hk]
    · have hne : key ≠ k := fun h => hk h.symm
      by_cases hrest : key ∈ rest.map Prod.fst
      · simp [put, hk, ih, hrest]
      · simp [put, hk, hne, ih, hrest]

/-- Writing never repeats a name. -/
theorem nodup_keys_insert {table : Table κ α} (h : table.keys.Nodup) (key : κ) (value : α) :
    (table.insert key value).keys.Nodup := by
  rw [keys_insert]
  by_cases hkey : key ∈ table.keys
  · rwa [if_pos hkey]
  · rw [if_neg hkey, ← List.concat_eq_append]
    exact h.concat hkey

/-- Removing never repeats a name. -/
theorem nodup_keys_erase {table : Table κ α} (h : table.keys.Nodup) (key : κ) :
    (table.erase key).keys.Nodup :=
  h.sublist (List.filter_sublist.map Prod.fst)

/-- What can be read stands in a row. -/
theorem mem_rows_of_get? {table : Table κ α} {key : κ} {value : α}
    (h : table.get? key = some value) : (key, value) ∈ table.rows := by
  obtain ⟨rows⟩ := table
  simp only [get?] at h ⊢
  induction rows with
  | nil => cases h
  | cons row rest ih =>
    rw [find] at h
    split at h
    · rw [← ‹row.1 = key›, ← Option.some.inj h]
      exact List.mem_cons_self
    · exact List.mem_cons_of_mem row (ih h)

/-- Writing adds no row but one. -/
theorem mem_rows_insert {table : Table κ α} {key : κ} {value : α} {row : κ × α}
    (h : row ∈ (table.insert key value).rows) : row = (key, value) ∨ row ∈ table.rows := by
  obtain ⟨rows⟩ := table
  simp only [insert] at h ⊢
  induction rows with
  | nil => exact .inl (List.mem_singleton.mp h)
  | cons first rest ih =>
    rw [put] at h
    split at h
    · exact (List.mem_cons.mp h).imp_right (List.mem_cons_of_mem first)
    · rcases List.mem_cons.mp h with rfl | hrest
      · exact .inr List.mem_cons_self
      · exact (ih hrest).imp_right (List.mem_cons_of_mem first)

/-- In a table without repeated names, the rows are what can be read. -/
theorem mem_rows_iff {table : Table κ α} (h : table.keys.Nodup) (key : κ) (value : α) :
    (key, value) ∈ table.rows ↔ table.get? key = some value := by
  obtain ⟨rows⟩ := table
  simp only [keys, get?] at h ⊢
  induction rows with
  | nil => simp [find]
  | cons row rest ih =>
    obtain ⟨k, v⟩ := row
    simp only [List.map_cons, List.nodup_cons] at h
    by_cases hk : k = key
    · subst hk
      have hrest : (k, value) ∉ rest := fun hmem => h.1 (List.mem_map_of_mem hmem)
      simp [find, hrest, eq_comm]
    · have hne : key ≠ k := fun h => hk h.symm
      simp [find, hk, hne, ih h.2]

/-- The names of a table are those it has a value for. -/
theorem mem_keys_iff (table : Table κ α) (key : κ) : key ∈ table.keys ↔ table.contains key := by
  obtain ⟨rows⟩ := table
  simp only [keys, contains, get?]
  induction rows with
  | nil => simp [find]
  | cons row rest ih =>
    by_cases h : row.1 = key
    · simp [find, h]
    · have hne : key ≠ row.1 := fun heq => h heq.symm
      simp only [List.map_cons, List.mem_cons, hne, false_or, ih, find, if_neg h]

/-- Nothing is found under a name that no row has. -/
theorem find_eq_none {rows : List (κ × α)} {key : κ} (h : key ∉ rows.map Prod.fst) :
    find key rows = none := by
  have habsent : ¬ (Table.mk rows).contains key = true := by rwa [← mem_keys_iff]
  simpa [contains, get?] using habsent

end ClosingLabels.Table
