import ClosingLabels.Number
import ClosingLabels.Table
import ClosingLabels.Text

/-!
# JSON values

Objects list their members in a fixed order: names that are array indices come
first, in increasing order, and all other names follow in order of first
appearance. A name written twice keeps its first place and its last value. Names and
strings are any code units, since an escape can name each of them.
-/

namespace ClosingLabels

/-- A JSON value. -/
inductive Json where
  | null
  | bool (value : Bool)
  | number (value : Number)
  | string (value : Text)
  | array (items : List Json)
  | object (members : List (Text × Json))
deriving Repr

namespace Json

/-- The array index that a name spells: plain digits without leading zeros, below
`2 ^ 32 - 1`. -/
def indexKey? (key : Text) : Option Nat :=
  if key.isEmpty || !key.all Text.isDigit then none
  else if key.head? = some 0x30 && key.length ≠ 1 then none
  else
    let n := key.foldl (fun n u => 10 * n + (u.toNat - 0x30)) 0
    if n < 4294967295 then some n else none

/-- Puts the array indices first, in increasing order. -/
def arrange {α : Type} (rows : List (Text × α)) : List (Text × α) :=
  let indexed := rows.filterMap fun row => (indexKey? row.1).map fun n => (n, row)
  let others := rows.filter fun row => (indexKey? row.1).isNone
  (indexed.mergeSort fun a b => decide (a.1 ≤ b.1)).map Prod.snd ++ others

/-- The object made by writing members one after another. -/
def ofMembers (members : List (Text × Json)) : Json :=
  .object (arrange (Table.ofRows members).rows)

/-- The member of an object, if the value is an object and has it. -/
def get? : Json → String → Option Json
  | .object members, key => Table.find (Text.ofString key) members
  | _, _ => none

end Json

end ClosingLabels
