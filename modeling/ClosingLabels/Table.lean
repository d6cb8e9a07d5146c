/-!
# Tables in order of arrival

A table maps names to values and remembers the order in which the names first
arrived. Writing to a name it already has keeps that name's place, so listing a
table always shows the oldest names first.
-/

namespace ClosingLabels

/-- Named rows, oldest name first. Names are of type `κ`. -/
structure Table (κ α : Type) where
  rows : List (κ × α) := []
deriving Repr, DecidableEq

namespace Table

variable {κ α β : Type}

/-- The table without rows. -/
def empty : Table κ α := ⟨[]⟩

/-- The names, oldest first. -/
def keys (table : Table κ α) : List κ := table.rows.map Prod.fst

/-- The values, in the order of their names. -/
def values (table : Table κ α) : List α := table.rows.map Prod.snd

/-- Applies a function to every value. -/
def map (f : α → β) (table : Table κ α) : Table κ β :=
  ⟨table.rows.map fun row => (row.1, f row.2)⟩

variable [DecidableEq κ]

/-- The value in the first row named `key`. -/
def find (key : κ) : List (κ × α) → Option α
  | [] => none
  | (k, v) :: rest => if k = key then some v else find key rest

/-- The value of a name, if the table has it. -/
def get? (table : Table κ α) (key : κ) : Option α := find key table.rows

/-- Whether the table has a name. -/
def contains (table : Table κ α) (key : κ) : Bool := (table.get? key).isSome

/-- Rows in which `key` has `value`: in its old place, or at the end when new. -/
def put (key : κ) (value : α) : List (κ × α) → List (κ × α)
  | [] => [(key, value)]
  | (k, v) :: rest => if k = key then (key, value) :: rest else (k, v) :: put key value rest

/-- Writes a value; a new name goes to the end and an old one keeps its place. -/
def insert (table : Table κ α) (key : κ) (value : α) : Table κ α := ⟨put key value table.rows⟩

/-- Removes a name; the others keep their order. -/
def erase (table : Table κ α) (key : κ) : Table κ α := ⟨table.rows.filter (·.1 ≠ key)⟩

/-- The table made by writing the rows one after another. -/
def ofRows (rows : List (κ × α)) : Table κ α :=
  rows.foldl (fun table row => table.insert row.1 row.2) empty

@[simp] theorem get?_empty (key : κ) : (empty : Table κ α).get? key = none := rfl

/-- The value just written is the value read. -/
@[simp] theorem get?_insert_self (table : Table κ α) (key : κ) (value : α) :
    (table.insert key value).get? key = some value := by
  obtain ⟨rows⟩ := table
  simp only [insert, get?]
  induction rows with
  | nil => simp [put, find]
  | cons row rest ih => by_cases h : row.1 = key <;> simp [put, find, h, ih]

/-- Writing one name leaves every other name as it was. -/
theorem get?_insert_of_ne (table : Table κ α) {key other : κ} (value : α) (h : other ≠ key) :
    (table.insert key value).get? other = table.get? other := by
  obtain ⟨rows⟩ := table
  simp only [insert, get?]
  induction rows with
  | nil => simp [put, find, Ne.symm h]
  | cons row rest ih =>
    by_cases hk : row.1 = key
    · simp [put, find, hk, Ne.symm h]
    · simp [put, find, hk, ih]

/-- A name that was removed is no longer there. -/
@[simp] theorem get?_erase_self (table : Table κ α) (key : κ) :
    (table.erase key).get? key = none := by
  obtain ⟨rows⟩ := table
  simp only [erase, get?]
  induction rows with
  | nil => rfl
  | cons row rest ih =>
    by_cases h : row.1 = key
    · simpa [h] using ih
    · simpa [h, find] using ih

/-- Removing one name leaves every other name as it was. -/
theorem get?_erase_of_ne (table : Table κ α) {key other : κ} (h : other ≠ key) :
    (table.erase key).get? other = table.get? other := by
  obtain ⟨rows⟩ := table
  simp only [erase, get?]
  induction rows with
  | nil => rfl
  | cons row rest ih =>
    by_cases hk : row.1 = key
    · simpa [find, hk, Ne.symm h] using ih
    · by_cases ho : row.1 = other
      · simp [find, ho, h]
      · simpa [find, hk, ho] using ih

end Table

end ClosingLabels
