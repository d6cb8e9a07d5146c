import ClosingLabels.Proofs.Refreshing
import ClosingLabels.Proofs.Searching
import Mathlib.Data.List.Pairwise

/-!
# Trees and queries live as long as they are held

Trees and queries have to be deleted by hand. A forest deletes a tree when it is replaced
or its document is closed, and the pattern cache deletes its queries when it is cleared.
So at any time the trees and queries that were made and not deleted are those that are
held, each in one place, and nothing is used or deleted after it was deleted.
-/

namespace ClosingLabels

open ClosingLabels.Action (Leaves Maintains Keeping)

/-! ## Deletions -/

/-- The thing that an event deletes. -/
def Event.deletes : Event → Option Thing
  | .treeDeleted tree => some (.tree tree)
  | .queryDeleted query => some (.query query)
  | _ => none

/-- What an event deletes it touches. -/
theorem Event.mem_touches_of_deletes {event : Event} {thing : Thing}
    (h : event.deletes = some thing) : thing ∈ event.touches := by
  cases event with
  | treeDeleted tree => exact List.mem_singleton.mpr (Option.some.inj h).symm
  | queryDeleted query => exact List.mem_singleton.mpr (Option.some.inj h).symm
  | _ => cases h

/-- An event that touches nothing deletes nothing. -/
theorem Event.Idle.deletes {event : Event} (h : event.Idle) : event.deletes = none := by
  cases hdeletes : event.deletes with
  | none => rfl
  | some thing => cases h ▸ mem_touches_of_deletes hdeletes

/-- Everything that was deleted, in order. -/
def deleted (past : List Event) : List Thing := past.filterMap Event.deletes

@[simp] theorem deleted_append (past trace : List Event) :
    deleted (past ++ trace) = deleted past ++ deleted trace := List.filterMap_append

theorem tree_mem_deleted {past : List Event} {n : Nat} :
    .tree n ∈ deleted past ↔ .treeDeleted n ∈ past := by
  refine List.mem_filterMap.trans ⟨?_, fun hmem => ⟨_, hmem, rfl⟩⟩
  rintro ⟨event, hmem, hdeletes⟩
  cases event with
  | treeDeleted tree => exact Thing.tree.inj (Option.some.inj hdeletes) ▸ hmem
  | _ => cases hdeletes

theorem query_mem_deleted {past : List Event} {n : Nat} :
    .query n ∈ deleted past ↔ .queryDeleted n ∈ past := by
  refine List.mem_filterMap.trans ⟨?_, fun hmem => ⟨_, hmem, rfl⟩⟩
  rintro ⟨event, hmem, hdeletes⟩
  cases event with
  | queryDeleted query => exact Thing.query.inj (Option.some.inj hdeletes) ▸ hmem
  | _ => cases hdeletes

/-- Nothing is touched after it was deleted. -/
def Careful (past : List Event) : Prop :=
  past.Pairwise fun earlier later => ∀ thing ∈ later.touches, earlier.deletes ≠ some thing

namespace Careful

variable {past trace : List Event}

/-- Nothing is deleted twice. -/
theorem nodup_deleted (h : Careful past) : (deleted past).Nodup := by
  refine List.Pairwise.filterMap Event.deletes (fun earlier later hapart => ?_) h
  rintro thing hthing other hother rfl
  exact hapart thing (Event.mem_touches_of_deletes hother) hthing

/-- More events are fine if they are careful among themselves and touch nothing that was deleted
before. -/
theorem append (h : Careful past) (htrace : Careful trace)
    (hfree : ∀ event ∈ trace, ∀ thing ∈ event.touches, thing ∉ deleted past) :
    Careful (past ++ trace) := by
  refine List.pairwise_append.mpr ⟨h, htrace, fun earlier hearlier later hlater thing hthing => ?_⟩
  exact fun hdeletes => hfree later hlater thing hthing
    (List.mem_filterMap.mpr ⟨earlier, hearlier, hdeletes⟩)

/-- Events that delete nothing are careful. -/
theorem of_deleted_nil (hnone : deleted trace = []) : Careful trace := by
  refine List.Pairwise.imp_of_mem (R := fun _ _ => True) ?_ (List.pairwise_of_forall (by simp))
  intro earlier later hearlier _ _ thing _ hdeletes
  cases (List.filterMap_eq_nil_iff.mp hnone earlier hearlier).symm.trans hdeletes

end Careful

/-! ## Tables of things -/

/-- A table holds the thing of some number. -/
def Table.Holds {κ α : Type} [DecidableEq κ] (table : Table κ α) (number : α → Nat) (n : Nat) :
    Prop := ∃ key value, table.get? key = some value ∧ number value = n

theorem Table.not_holds_empty {κ α : Type} [DecidableEq κ] (number : α → Nat) (n : Nat) :
    ¬(empty : Table κ α).Holds number n := by
  rintro ⟨key, value, hget, -⟩
  cases hget

/-- A table that holds exactly the things of a sort that were made and not deleted, each once. -/
structure Kept {κ α : Type} [DecidableEq κ] (sort : Nat → Thing) (number : α → Nat)
    (table : Table κ α) (made : Nat) (gone : List Thing) : Prop where
  keys : table.keys.Nodup
  apart : ∀ {key other : κ} {value found : α}, table.get? key = some value →
    table.get? other = some found → number value = number found → key = other
  holds_iff : ∀ n, table.Holds number n ↔ (0 < n ∧ n ≤ made) ∧ sort n ∉ gone
  gone_made : ∀ n, sort n ∈ gone → n ≤ made

namespace Kept

variable {κ α : Type} [DecidableEq κ] {sort : Nat → Thing} {number : α → Nat}
  {table : Table κ α} {made : Nat} {gone : List Thing}

/-- At first nothing is made. -/
theorem empty : Kept sort number (.empty : Table κ α) 0 [] where
  keys := List.nodup_nil
  apart hget := by cases hget
  holds_iff n := by
    refine ⟨fun hholds => absurd hholds (Table.not_holds_empty number n), ?_⟩
    rintro ⟨⟨hpos, hle⟩, -⟩
    omega
  gone_made n hgone := by cases hgone

theorem of_get? (h : Kept sort number table made gone) {key : κ} {value : α}
    (hget : table.get? key = some value) :
    (0 < number value ∧ number value ≤ made) ∧ sort (number value) ∉ gone :=
  (h.holds_iff _).mp ⟨key, value, hget, rfl⟩

/-- Only deletions of the sort matter. -/
theorem of_gone (h : Kept sort number table made gone) {more : List Thing}
    (hsame : ∀ n, sort n ∈ more ↔ sort n ∈ gone) : Kept sort number table made more where
  keys := h.keys
  apart := h.apart
  holds_iff n := by rw [h.holds_iff, hsame]
  gone_made n hgone := h.gone_made n ((hsame n).mp hgone)

/-- Only the numbers that can be read matter. -/
theorem of_numbers (h : Kept sort number table made gone) {other : Table κ α}
    (hkeys : other.keys.Nodup)
    (hsame : ∀ key, (other.get? key).map number = (table.get? key).map number) :
    Kept sort number other made gone := by
  have hread {key : κ} {value : α} (hget : other.get? key = some value) :
      ∃ old, table.get? key = some old ∧ number old = number value := by
    have hnumber := hsame key
    rw [hget, Option.map_some] at hnumber
    exact Option.map_eq_some_iff.mp hnumber.symm
  have hholds (n : Nat) : other.Holds number n ↔ table.Holds number n := by
    have hiff {some : Table κ α} : some.Holds number n ↔
        ∃ key, (some.get? key).map number = .some n := by
      simp [Table.Holds, Option.map_eq_some_iff]
    rw [hiff, hiff]
    simp only [hsame]
  refine ⟨hkeys, fun hget hfound heq => ?_, fun n => (hholds n).trans (h.holds_iff n), h.gone_made⟩
  obtain ⟨old, hold, holdNumber⟩ := hread hget
  obtain ⟨found, hfound, hfoundNumber⟩ := hread hfound
  exact h.apart hold hfound (holdNumber.trans (heq.trans hfoundNumber.symm))

/-- The thing made last may be put where there is none. -/
theorem add (h : Kept sort number table made gone) {key : κ} {value : α}
    (hnew : table.get? key = none) (hvalue : number value = made + 1) :
    Kept sort number (table.insert key value) (made + 1) gone where
  keys := Table.nodup_keys_insert h.keys key value
  apart {first second one two} hone htwo heq := by
    rw [Table.get?_insert] at hone htwo
    split at hone <;> split at htwo
    · rw [‹first = key›, ‹second = key›]
    · obtain rfl := Option.some.inj hone
      have hle := (h.of_get? htwo).1.2
      omega
    · obtain rfl := Option.some.inj htwo
      have hle := (h.of_get? hone).1.2
      omega
    · exact h.apart hone htwo heq
  holds_iff n := by
    have hholds : (table.insert key value).Holds number n ↔
        n = made + 1 ∨ table.Holds number n := by
      constructor
      · rintro ⟨other, found, hget, rfl⟩
        rw [Table.get?_insert] at hget
        split at hget
        · obtain rfl := Option.some.inj hget
          exact .inl hvalue
        · exact .inr ⟨other, found, hget, rfl⟩
      · rintro (rfl | ⟨other, found, hget, hfound⟩)
        · exact ⟨key, value, Table.get?_insert_self _ _ _, hvalue⟩
        · have hne : other ≠ key := by
            rintro rfl
            cases hnew.symm.trans hget
          exact ⟨other, found, (Table.get?_insert_of_ne _ _ hne).trans hget, hfound⟩
    rw [hholds, h.holds_iff]
    constructor
    · rintro (rfl | ⟨⟨hpos, hle⟩, hkept⟩)
      · refine ⟨⟨Nat.succ_pos _, Nat.le_refl _⟩, fun hgone => ?_⟩
        exact absurd (h.gone_made _ hgone) (Nat.not_succ_le_self _)
      · exact ⟨⟨hpos, Nat.le_succ_of_le hle⟩, hkept⟩
    · rintro ⟨⟨hpos, hle⟩, hkept⟩
      rcases Nat.le_succ_iff.mp hle with hold | hlast
      · exact .inr ⟨⟨hpos, hold⟩, hkept⟩
      · exact .inl hlast
  gone_made n hgone := Nat.le_succ_of_le (h.gone_made n hgone)

/-- What is deleted is no longer held. -/
theorem drop (h : Kept sort number table made gone) (hsort : Function.Injective sort) {key : κ}
    {value : α} (hget : table.get? key = some value) :
    Kept sort number (table.erase key) made (gone ++ [sort (number value)]) where
  keys := Table.nodup_keys_erase h.keys key
  apart {first second one two} hone htwo heq := by
    rw [Table.get?_erase] at hone htwo
    split at hone
    · cases hone
    · split at htwo
      · cases htwo
      · exact h.apart hone htwo heq
  holds_iff n := by
    have hgone : sort n ∈ gone ++ [sort (number value)] ↔ sort n ∈ gone ∨ n = number value := by
      simp [hsort.eq_iff]
    have hholds : (table.erase key).Holds number n ↔ table.Holds number n ∧ n ≠ number value := by
      constructor
      · rintro ⟨other, found, hother, rfl⟩
        rw [Table.get?_erase] at hother
        split at hother
        · cases hother
        · exact ⟨⟨other, found, hother, rfl⟩, fun heq => ‹¬other = key› (h.apart hother hget heq)⟩
      · rintro ⟨⟨other, found, hother, rfl⟩, hne⟩
        have hkey : other ≠ key := by
          rintro rfl
          exact hne (congrArg number (Option.some.inj (hother.symm.trans hget)))
        exact ⟨other, found, (Table.get?_erase_of_ne _ hkey).trans hother, rfl⟩
    rw [hholds, h.holds_iff, hgone]
    tauto
  gone_made n hgone := by
    rcases List.mem_append.mp hgone with hold | hnew
    · exact h.gone_made n hold
    · rw [hsort (List.mem_singleton.mp hnew)]
      exact (h.of_get? hget).1.2

/-- What was kept under a key, if anything, is deleted and no longer held. -/
theorem remove (h : Kept sort number table made gone) (hsort : Function.Injective sort) (key : κ) :
    Kept sort number (table.erase key) made
      (gone ++ (table.get? key).toList.map fun old => sort (number old)) := by
  cases hget : table.get? key with
  | some old => exact h.drop hsort hget
  | none =>
    rw [Option.toList_none, List.map_nil, List.append_nil]
    refine h.of_numbers (Table.nodup_keys_erase h.keys key) fun other => ?_
    rw [Table.get?_erase]
    split
    · rw [‹other = key›, hget]
    · rfl

/-- The thing made last may be put anywhere, if what was there is deleted. -/
theorem replace (h : Kept sort number table made gone) (hsort : Function.Injective sort) (key : κ)
    {value : α} (hvalue : number value = made + 1) :
    Kept sort number (table.insert key value) (made + 1)
      (gone ++ (table.get? key).toList.map fun old => sort (number old)) := by
  have hadded := (h.remove hsort key).add (Table.get?_erase_self _ _) hvalue
  refine hadded.of_numbers (Table.nodup_keys_insert h.keys _ _) fun other => ?_
  rw [Table.get?_insert, Table.get?_insert, Table.get?_erase]
  split <;> rfl

/-- A thing may be described anew. -/
theorem rewrite (h : Kept sort number table made gone) {key : κ} {old value : α}
    (hget : table.get? key = some old) (hvalue : number value = number old) :
    Kept sort number (table.insert key value) made gone := by
  refine h.of_numbers (Table.nodup_keys_insert h.keys _ _) fun other => ?_
  rw [Table.get?_insert]
  split
  · rw [‹other = key›, hget, Option.map_some, Option.map_some, hvalue]
  · rfl

theorem get?_of_mem_values (h : Kept sort number table made gone) {value : α}
    (hmem : value ∈ table.values) : ∃ key, table.get? key = some value := by
  obtain ⟨⟨key, found⟩, hrow, rfl⟩ := List.mem_map.mp hmem
  exact ⟨key, (Table.mem_rows_iff h.keys key found).mp hrow⟩

/-- No two things that are held have the same number. -/
theorem nodup_values (h : Kept sort number table made gone) :
    (table.values.map number).Nodup := by
  rw [Table.values, List.map_map]
  refine List.Nodup.map_on ?_ (List.Nodup.of_map Prod.fst h.keys)
  rintro ⟨key, value⟩ hvalue ⟨other, found⟩ hfound heq
  have hget := (Table.mem_rows_iff h.keys key value).mp hvalue
  have hother := (Table.mem_rows_iff h.keys other found).mp hfound
  obtain rfl := h.apart hget hother heq
  rw [Option.some.inj (hget.symm.trans hother)]

/-- When everything that is held is deleted, nothing is held. -/
theorem clear (h : Kept sort number table made gone) (hsort : Function.Injective sort) :
    Kept sort number (.empty : Table κ α) made
      (gone ++ table.values.map fun value => sort (number value)) where
  keys := List.nodup_nil
  apart hget := by cases hget
  holds_iff n := by
    refine ⟨fun hholds => absurd hholds (Table.not_holds_empty number n), ?_⟩
    rintro ⟨hmade, hkept⟩
    simp only [List.mem_append, not_or] at hkept
    obtain ⟨key, value, hget, rfl⟩ := (h.holds_iff n).mpr ⟨hmade, hkept.1⟩
    refine absurd (List.mem_map.mpr ⟨value, ?_, rfl⟩) hkept.2
    exact List.mem_map.mpr ⟨(key, value), (Table.mem_rows_iff h.keys key value).mpr hget, rfl⟩
  gone_made n hgone := by
    rcases List.mem_append.mp hgone with hold | hnew
    · exact h.gone_made n hold
    · obtain ⟨value, hmem, heq⟩ := List.mem_map.mp hnew
      obtain ⟨key, hget⟩ := h.get?_of_mem_values hmem
      rw [← hsort heq]
      exact (h.of_get? hget).1.2

end Kept

/-! ## The stock of a forest -/

/-- The trees and queries that a forest holds, and how many of each were made. -/
structure Stock (D : Type) where
  entries : Table String (Entry D)
  queries : Table Text Query
  trees : Nat
  compiled : Nat

/-- The number of the tree of an entry. -/
def Entry.number {D : Type} (entry : Entry D) : Nat := entry.tree.number

variable {D L : Type}

/-- The stock of a grove. -/
def Grove.stock (grove : Grove D L) : Stock D :=
  ⟨grove.forest.entries, grove.forest.cache.queries, grove.workshop.trees,
    grove.workshop.toolkit.queries⟩

/-- Deleting the trees of entries deletes these and nothing else. -/
theorem deleted_trees (past : List Event) (olds : List (Entry D)) :
    deleted (past ++ olds.map fun old => .treeDeleted old.tree.number) =
      deleted past ++ olds.map fun old => .tree old.number := by
  have htrees : deleted (olds.map fun old => .treeDeleted old.tree.number) =
      olds.map fun old => .tree old.number := by
    rw [deleted, List.filterMap_map]
    exact congrFun List.filterMap_eq_map _
  rw [deleted_append, htrees]

/-- A thing is held. -/
def Stock.Holds (stock : Stock D) : Thing → Prop
  | .tree n => stock.entries.Holds Entry.number n
  | .query n => stock.queries.Holds Query.number n

/-- Trees and queries live as long as they are held. -/
structure Tended (past : List Event) (stock : Stock D) : Prop where
  trees : Kept .tree Entry.number stock.entries stock.trees (deleted past)
  queries : Kept .query Query.number stock.queries stock.compiled (deleted past)
  careful : Careful past

namespace Tended

variable {past : List Event} {stock : Stock D}

theorem empty : Tended [] (⟨.empty, .empty, 0, 0⟩ : Stock D) := ⟨.empty, .empty, .nil⟩

/-- What is held was not deleted. -/
theorem not_deleted (h : Tended past stock) {thing : Thing} (hholds : stock.Holds thing) :
    thing ∉ deleted past := by
  cases thing with
  | tree n => exact ((h.trees.holds_iff n).mp hholds).2
  | query n => exact ((h.queries.holds_iff n).mp hholds).2

/-- What is held may be used. -/
theorem use (h : Tended past stock) {trace : List Event} (hnone : deleted trace = [])
    (huse : ∀ event ∈ trace, ∀ thing ∈ event.touches, stock.Holds thing) :
    Tended (past ++ trace) stock := by
  have hsame : deleted (past ++ trace) = deleted past := by
    rw [deleted_append, hnone, List.append_nil]
  refine ⟨hsame ▸ h.trees, hsame ▸ h.queries, h.careful.append (.of_deleted_nil hnone) ?_⟩
  exact fun event hevent thing hthing => h.not_deleted (huse event hevent thing hthing)

/-- Events that touch nothing do not matter. -/
theorem idle (h : Tended past stock) {trace : List Event} (hidle : ∀ event ∈ trace, event.Idle) :
    Tended (past ++ trace) stock := by
  refine h.use (List.filterMap_eq_nil_iff.mpr fun event hevent => (hidle event hevent).deletes) ?_
  intro event hevent thing hthing
  cases (hidle event hevent) ▸ hthing

/-- What is held may be deleted, if it is no longer held then. -/
theorem delete (h : Tended past stock) {event : Event} {thing : Thing}
    (htouches : event.touches = [thing]) (hholds : stock.Holds thing) :
    Careful (past ++ [event]) := by
  refine h.careful.append (List.pairwise_singleton _ _) fun other hother touched htouched => ?_
  rw [List.mem_singleton.mp hother, htouches, List.mem_singleton] at htouched
  exact htouched ▸ h.not_deleted hholds

/-- The tree of a document that has one is deleted, and the document has none then. -/
theorem fell (h : Tended past stock) (document : String) :
    Tended (past ++ (stock.entries.get? document).toList.map fun old =>
        .treeDeleted old.tree.number)
      { stock with entries := stock.entries.erase document } := by
  refine ⟨?_, h.queries.of_gone fun n => ?_, ?_⟩
  · rw [deleted_trees]
    exact h.trees.remove (fun _ _ => Thing.tree.inj) document
  · rw [deleted_trees]
    simp
  · cases hget : stock.entries.get? document with
    | none => simpa using h.careful
    | some old => exact h.delete rfl ⟨document, old, hget, rfl⟩

/-- A document is given the tree made last, and the one it had is deleted. -/
theorem plant (h : Tended past stock) (document : String) (entry : Entry D)
    (hentry : entry.number = stock.trees + 1) :
    Tended (past ++ (stock.entries.get? document).toList.map fun old =>
        .treeDeleted old.tree.number)
      { stock with
        entries := stock.entries.insert document entry, trees := stock.trees + 1 } := by
  obtain ⟨-, hqueries, hcareful⟩ := h.fell document
  refine ⟨?_, hqueries, hcareful⟩
  rw [deleted_trees]
  exact h.trees.replace (fun _ _ => Thing.tree.inj) document hentry

/-- An entry may change as long as it keeps its tree. -/
theorem tell (h : Tended past stock) {document : String} {old entry : Entry D}
    (hget : stock.entries.get? document = some old) (hentry : entry.tree = old.tree) :
    Tended past { stock with entries := stock.entries.insert document entry } :=
  ⟨h.trees.rewrite hget (congrArg Tree.number hentry), h.queries, h.careful⟩

/-- The query made last may be kept where there is none. -/
theorem keep (h : Tended past stock) {text : Text} (query : Query)
    (hnew : stock.queries.get? text = none) (hquery : query.number = stock.compiled + 1) :
    Tended past
      { stock with
        queries := stock.queries.insert text query, compiled := stock.compiled + 1 } :=
  ⟨h.trees, h.queries.add hnew hquery, h.careful⟩

/-- All queries that are kept are deleted. -/
theorem clear (h : Tended past stock) :
    Tended (past ++ stock.queries.values.map fun query => .queryDeleted query.number)
      { stock with queries := .empty } := by
  set trace : List Event := stock.queries.values.map fun query => .queryDeleted query.number
  have hdeletes : deleted trace = stock.queries.values.map fun query => .query query.number := by
    rw [deleted, List.filterMap_map]
    exact congrFun List.filterMap_eq_map _
  refine ⟨?_, ?_, h.careful.append ?_ ?_⟩
  · refine h.trees.of_gone fun n => ?_
    simp [hdeletes]
  · rw [deleted_append, hdeletes]
    exact h.queries.clear fun _ _ => Thing.query.inj
  · refine List.pairwise_map.mpr ((List.pairwise_map.mp h.queries.nodup_values).imp ?_)
    intro earlier later hne thing hthing hdeletes
    rw [List.mem_singleton.mp hthing] at hdeletes
    exact hne (Thing.query.inj (Option.some.inj hdeletes))
  · intro event hevent thing hthing
    obtain ⟨query, hquery, rfl⟩ := List.mem_map.mp hevent
    obtain ⟨text, hget⟩ := h.queries.get?_of_mem_values hquery
    rw [List.mem_singleton.mp hthing]
    exact h.not_deleted ⟨text, query, hget, rfl⟩

end Tended

/-! ## Operations of a forest -/

namespace Forest

variable {σ : Type} {part : Lens σ (Grove D L)}

/-- The trees and queries of the forest in a state live as long as they are held. -/
def Tends (part : Lens σ (Grove D L)) (past : List Event) (s : σ) : Prop :=
  Tended past (part.get s).stock

theorem tends_set {past : List Event} {grove : Grove D L} {s : σ} :
    Tends part past (part.set grove s) ↔ Tended past grove.stock := by
  rw [Tends, part.get_set]

/-- Loading does not matter to trees and queries. -/
theorem zoomWorkshop_tends {α : Type} {x : Action (Workshop (Waiter D) (Work D)) α}
    (hx : Leaves Workshop.made Event.Idle x) :
    Maintains (Tends part) (Action.zoom (part.comp Grove.workshopPart) x) := by
  intro past s hs
  have hmade : (x (part.get s).workshop).state.made = (part.get s).workshop.made := hx.state _
  obtain ⟨htrees, hqueries⟩ := Prod.mk.inj hmade
  refine Tended.idle ?_ (hx.trace _)
  rw [Action.zoom_apply]
  refine tends_set.mpr ?_
  have hstock : ({ part.get s with workshop := (x (part.get s).workshop).state } :
      Grove D L).stock = (part.get s).stock := by
    rw [Grove.stock, htrees, hqueries]
    rfl
  exact hstock ▸ hs

/-- Changes of a forest that concern neither trees nor queries. -/
theorem edit_tends {f : Forest D L → Forest D L}
    (hf : ∀ forest, (f forest).entries = forest.entries ∧ (f forest).cache = forest.cache) :
    Maintains (Tends part) (edit part f) := by
  refine .adjust fun past s hs => tends_set.mpr ?_
  have hstock : ({ part.get s with forest := f (part.get s).forest } : Grove D L).stock =
      (part.get s).stock := by
    rw [Grove.stock, (hf _).1, (hf _).2]
    rfl
  exact hstock ▸ hs

/-- Starting an opening makes and touches nothing. -/
theorem start_tends (resolve : Text → Option GrammarName) (document : String) (source : D)
    (language : Text) (caller : Caller) :
    Maintains (Tends part) (start part resolve document source language caller) := by
  refine .bind (.gets _) fun grove => .bind (edit_tends fun _ => ⟨rfl, rfl⟩) fun _ => ?_
  exact zoomWorkshop_tends (Workshop.lookup_idle _ _ _)

theorem close_tends (document : String) : Maintains (Tends part) (close part document) := by
  intro past s hs
  rw [close_eq]
  exact tends_set.mpr (hs.fell document)

theorem resetPatterns_tends : Maintains (Tends part) (resetPatterns part) := by
  intro past s hs
  rw [resetPatterns_apply]
  exact tends_set.mpr hs.clear

theorem dispose_tends : Maintains (Tends part) (dispose part) := by
  refine .bind (.gets _) fun grove => .bind (.each fun document _ => close_tends document) ?_
  exact fun _ => .bind (edit_tends fun _ => ⟨rfl, rfl⟩) fun _ => resetPatterns_tends

/-- The tree of an entry may be searched. -/
theorem find_tends {entry : Entry D} {document : String} {past : List Event} {s : σ}
    (hentry : (part.get s).forest.entries.get? document = some entry) (hs : Tends part past s)
    (kinds : List Text) :
    let done := Action.zoom part
      (PatternCache.find Grove.cacheSite entry.key entry.language entry.tree kinds) s
    Tends part (past ++ done.trace) done.state := by
  have hsearched := PatternCache.find_searched entry.key entry.language entry.tree kinds
    (part.get s)
  have htree : (part.get s).stock.Holds (.tree entry.tree.number) := ⟨document, entry, hentry, rfl⟩
  dsimp only
  rw [Action.zoom_apply]
  refine tends_set.mpr ?_
  generalize PatternCache.find Grove.cacheSite entry.key entry.language entry.tree kinds
    (part.get s) = outcome at hsearched
  cases hsearched with
  | @kept query result hkept =>
    refine hs.use rfl ?_
    simp only [List.forall_mem_singleton, Event.touches, List.forall_mem_cons]
    exact ⟨⟨_, query, hkept, rfl⟩, htree⟩
  | @compiled query pattern result hnew hquery =>
    refine (hs.keep query hnew (by rw [hquery]; rfl)).use rfl ?_
    simp only [Event.touches, List.forall_mem_cons]
    refine ⟨by simp, ⟨⟨_, query, Table.get?_insert_self _ _ _, rfl⟩, htree, by simp⟩, by simp⟩
  | failed reported hidle => exact hs.idle hidle

/-- A parser without an old tree touches nothing. -/
theorem idle_of_parsing {trace : List Event} (hparser : ∀ event ∈ trace, event.OfParser none) :
    ∀ event ∈ trace, event.Idle := by
  intro event hevent
  have hone := hparser event hevent
  cases event with
  | parsing parser length old => rw [Event.Idle, Event.touches, hone]; rfl
  | parserTuned parser language => rfl
  | _ => cases hone

/-- A parser with an old tree uses that one and deletes nothing. -/
theorem touches_of_parsing {trace : List Event} {old : Nat}
    (hparser : ∀ event ∈ trace, event.OfParser (some old)) :
    deleted trace = [] ∧ ∀ event ∈ trace, ∀ thing ∈ event.touches, thing = .tree old := by
  constructor
  · refine List.filterMap_eq_nil_iff.mpr fun event hevent => ?_
    have hone := hparser event hevent
    cases event <;> first | rfl | cases hone
  · intro event hevent thing hthing
    have hone := hparser event hevent
    cases event with
    | parsing parser length given =>
      rw [Event.touches, hone] at hthing
      simpa using hthing
    | parserTuned parser language => cases hthing
    | _ => cases hone

/-- Going on with an opening is fine as long as telling the listeners is. -/
theorem resume_tends (ground : Ground σ D L)
    (hannounce : ∀ trigger document,
      Maintains (Tends ground.part) (announce ground trigger document))
    (opening : Opening D) (answer : Answer) :
    Maintains (Tends ground.part) (resume ground opening answer) := by
  intro past s hs
  have hresumed := resume_resumed ground opening answer s
  have hsettled : Tended past ((ground.part.get s).settle opening.document).stock := hs
  generalize resume ground opening answer s = outcome at hresumed
  cases hresumed with
  | rejected fault => simpa using hs
  | stale found hstale => exact hs.idle (by simp [Event.Idle, Event.touches])
  | unavailable hlatest => simpa using tends_set.mpr hsettled
  | unparsed hlatest heq hparse hparser =>
    subst heq
    exact tends_set.mpr (hsettled.idle (idle_of_parsing hparser))
  | @stored settled planted language tree trace hlatest heq htree hparse hparser hplanted =>
    have hstored := (hsettled.idle (idle_of_parsing hparser)).plant opening.document
      { tree, language, source := opening.source, key := opening.language }
      (by rw [htree]; rfl)
    have htold : Tends ground.part (past ++ trace ++
        (ground.part.get s).deletions opening.document ++
          [.log (.parsed opening.document opening.language)]) planted := by
      rw [hplanted]
      exact tends_set.mpr (hstored.idle (by simp [Event.Idle, Event.touches]))
    simpa [List.append_assoc] using hannounce .parsed opening.document _ _ htold

/-- So is bringing a document up to date. -/
theorem update_tends (ground : Ground σ D L)
    (hannounce : ∀ trigger document,
      Maintains (Tends ground.part) (announce ground trigger document))
    (document : String) (source : D) (changes : List Change) :
    Maintains (Tends ground.part) (update ground document source changes) := by
  intro past s hs
  have hupdated := update_updated ground document source changes s
  -- Until the old tree is replaced it is held, so it may be told and given to the parser.
  have hused {entry : Entry D} {trace : List Event}
      (hentry : (holdings ground.part s).entries.get? document = some entry)
      (hparser : ∀ event ∈ trace, event.OfParser (some entry.tree.number)) :
      Tended (past ++ editing entry.tree changes ++ trace)
        ((ground.part.get s).tell document entry changes).stock := by
    have htree : (ground.part.get s).stock.Holds (.tree entry.tree.number) :=
      ⟨document, entry, hentry, rfl⟩
    obtain ⟨hnone, htouches⟩ := touches_of_parsing hparser
    have hedited : Tended (past ++ editing entry.tree changes) (ground.part.get s).stock := by
      refine hs.use ?_ fun event hevent thing hthing => ?_
      · refine List.filterMap_eq_nil_iff.mpr fun event hevent => ?_
        obtain ⟨change, -, rfl⟩ := List.mem_map.mp hevent
        rfl
      · obtain ⟨change, -, rfl⟩ := List.mem_map.mp hevent
        rw [List.mem_singleton.mp hthing]
        exact htree
    refine Tended.tell (hedited.use hnone fun event hevent thing hthing => ?_) hentry rfl
    rw [htouches event hevent thing hthing]
    exact htree
  generalize update ground document source changes s = outcome at hupdated
  cases hupdated with
  | absent hentry => simpa using hs
  | idle hchanges => simpa using hs
  | unparsed hchanges hentry htold hparse hparser =>
    subst htold
    exact tends_set.mpr (by simpa [List.append_assoc] using hused hentry hparser)
  | @replaced entry told planted tree trace hchanges hentry htold htree hparse hparser hplanted =>
    have hplant := (hused hentry hparser).plant document
      { entry with tree, source, told := [] } (by rw [htree]; rfl)
    have hold : (((ground.part.get s).tell document entry changes).stock.entries.get?
        document).toList.map (fun old => Event.treeDeleted old.tree.number) =
        [.treeDeleted entry.tree.number] := by
      have hget : ((ground.part.get s).tell document entry changes).stock.entries.get? document =
          some { entry with told := entry.told ++ changes } := Table.get?_insert_self _ _ _
      rw [hget]
      rfl
    rw [hold] at hplant
    have htold : Tends ground.part (past ++ editing entry.tree changes ++ trace ++
        [.treeDeleted entry.tree.number]) planted := by
      rw [hplanted]
      exact tends_set.mpr hplant
    simpa [List.append_assoc] using hannounce .changed document _ _ htold

end Forest

/-! ## A plugin at work -/

namespace Desk

/-- A desk at which nothing has happened, in an editor whose toolkit has made nothing. -/
def fresh (bench : Workbench) (catalog : Catalog) : Desk where
  bench := { bench with
    toolkit := { files := bench.toolkit.files, startError := bench.toolkit.startError } }
  plugin := { catalog }

/-- The editor changes in any way: its documents, its settings, the grammar files on disk. -/
def become (bench : Workbench) : Action Desk Unit :=
  Action.modify fun desk =>
    { desk with
      bench := { bench with
        toolkit := { desk.bench.toolkit with
          files := bench.toolkit.files, startError := bench.toolkit.startError } } }

/-- Takes the oldest task, if there is one. -/
def takeTask : Action Desk Unit := do
  match (← Action.get).tasks with
  | [] => pure ()
  | task :: rest =>
    Action.modify fun desk => { desk with tasks := rest }
    perform task

/-- The toolkit finishes the request at some place, if there is one. -/
def finishRequest (place : Nat) : Action Desk Unit := do
  match (← Action.get).requests[place]? with
  | none => pure ()
  | some request =>
    Action.modify fun desk => { desk with requests := desk.requests.eraseIdx place }
    Action.zoom workshopPart (Workshop.complete request)

section

variable {holds : List Event → Desk → Prop}

/-- Taking the oldest task maintains what every task maintains, as long as the queue does not
matter. -/
theorem takeTask_maintains
    (hqueue : ∀ tasks past desk, holds past desk → holds past { desk with tasks })
    (hperform : ∀ task, Maintains holds (perform task)) : Maintains holds takeTask := by
  refine .bind (.gets _) fun now => ?_
  match now.tasks with
  | [] => exact .pure ()
  | first :: rest => exact .bind (.modify (hqueue rest)) fun _ => hperform first

/-- So does finishing a request, as long as it does not matter which are left. -/
theorem finishRequest_maintains
    (hleft : ∀ requests past desk, holds past desk → holds past { desk with requests })
    (hcomplete : ∀ asked, Maintains holds (Action.zoom workshopPart (Workshop.complete asked)))
    (place : Nat) : Maintains holds (finishRequest place) := by
  refine .bind (.gets _) fun now => ?_
  match now.requests[place]? with
  | none => exact .pure ()
  | some asked =>
    exact .bind (.modify fun past desk h => hleft _ past desk h) fun _ => hcomplete asked

end

/-- Something that is done with the trees of a plugin, or happens beside. -/
inductive Deed where
  /-- The editor changes. -/
  | become (bench : Workbench)
  /-- Other kinds count as blocks, and other grammars are named. -/
  | reload (catalog : Catalog)
  /-- A document is opened. -/
  | start (document : String) (buffer : Nat) (language : Text) (caller : Caller)
  /-- A document has changed. -/
  | update (document : String) (buffer : Nat) (changes : List Change)
  /-- A document is closed. -/
  | close (document : String)
  /-- The compiled patterns are dropped. -/
  | resetPatterns
  /-- All documents are closed and everything is dropped. -/
  | dispose
  /-- The labels of a document are drawn anew. -/
  | refresh (document : String)
  /-- Labels are switched on. -/
  | enable (document : String)
  /-- Labels are switched off. -/
  | disable (document : String)
  /-- The languages are forgotten. -/
  | forget
  /-- The parser is deleted. -/
  | unload
  /-- The oldest task is taken. -/
  | task
  /-- The toolkit finishes a request. -/
  | complete (place : Nat)

/-- What is done. -/
def Deed.act : Deed → Action Desk Unit
  | .become bench => Desk.become bench
  | .reload catalog => Action.adjust catalogPart fun _ => catalog
  | .start document buffer language caller => do
    let desk ← Action.get
    Forest.start grovePart desk.plugin.catalog.grammar? document buffer language caller
  | .update document buffer changes => Forest.update ground document buffer changes
  | .close document => Forest.close grovePart document
  | .resetPatterns => Forest.resetPatterns grovePart
  | .dispose => Forest.dispose grovePart
  | .refresh document => Switchboard.refresh boardSite document
  | .enable document => Switchboard.enable boardSite document
  | .disable document => Switchboard.disable boardSite document
  | .forget => Action.zoom workshopPart Workshop.forgetLanguages
  | .unload => disposeGrammars
  | .task => takeTask
  | .complete place => finishRequest place

/-- The trees and queries of a plugin live as long as they are held. -/
abbrev Tends : List Event → Desk → Prop := Forest.Tends grovePart

theorem calm_tends : Calm Tends := by
  intro past trace desk after hdesk hcore hidle
  have hstock : (grovePart.get after).stock = (grovePart.get desk).stock :=
    congrArg (fun core => core.grove.stock) hcore
  rw [Tends, Forest.Tends, hstock]
  exact Tended.idle hdesk hidle

/-- Redrawing a document searches the tree of its entry only, which is held. -/
theorem refresh_tends (document : String) :
    Maintains Tends (Switchboard.refresh boardSite document) :=
  calm_tends.refresh fun _ kinds _ _ hentry hdesk => Forest.find_tends hentry hdesk kinds

theorem announce_tends (trigger : Trigger) (document : String) :
    Maintains Tends (Forest.announce ground trigger document) :=
  calm_tends.announce refresh_tends trigger document

theorem push_tends (work : Work Nat) : Maintains Tends (push work) :=
  Forest.zoomWorkshop_tends fun _ => Keeping.modify fun _ => rfl

/-- No task makes a tree that is not held, or touches one. -/
theorem perform_tends (task : Task (Waiter Nat) (Work Nat)) : Maintains Tends (perform task) :=
  perform_maintains (fun _ h => calm_tends.emit h.idle) push_tends
    (fun job => Forest.zoomWorkshop_tends (Workshop.perform_idle job))
    (Forest.resume_tends ground announce_tends) task

/-- Nothing that is done makes a tree or a query that is not held, or touches one. -/
theorem Deed.act_tends (deed : Deed) : Maintains Tends deed.act := by
  cases deed with
  | become bench => exact .modify fun past desk hdesk => hdesk
  | reload catalog => exact .adjust fun past desk hdesk => hdesk
  | start document buffer language caller =>
    exact .bind (.gets _) fun desk => Forest.start_tends _ _ _ _ _
  | update document buffer changes => exact Forest.update_tends ground announce_tends _ _ _
  | close document => exact Forest.close_tends document
  | resetPatterns => exact Forest.resetPatterns_tends
  | dispose => exact Forest.dispose_tends
  | refresh document => exact refresh_tends document
  | enable document => exact calm_tends.enable (refresh_tends document)
  | disable document => exact calm_tends.disable document
  | forget => exact Forest.zoomWorkshop_tends (Workshop.adjustGrammars_idle _)
  | unload => exact Forest.zoomWorkshop_tends Workshop.dispose_idle
  | task => exact takeTask_maintains (fun _ _ _ h => h) perform_tends
  | complete place =>
    exact finishRequest_maintains (fun _ _ _ h => h)
      (fun asked => Forest.zoomWorkshop_tends (Workshop.complete_idle asked)) place

/-- **Lifetimes.** Whatever is done, the trees that were made and not deleted are those of the
entries, with another one for each document, and the queries that were made and not deleted are
those in the pattern cache. Nothing is deleted twice, and nothing is used after it was deleted. -/
theorem things_live_while_held (bench : Workbench) (catalog : Catalog) (deeds : List Deed) :
    let now := Action.finish Deed.act (fresh bench catalog) deeds
    let past := Action.history Deed.act (fresh bench catalog) deeds
    let forest := now.plugin.forest
    let toolkit := now.bench.toolkit
    (∀ n, (0 < n ∧ n ≤ toolkit.trees) ∧ .treeDeleted n ∉ past ↔
      ∃ document entry, forest.entries.get? document = some entry ∧ entry.tree.number = n) ∧
    (∀ document other entry found, forest.entries.get? document = some entry →
      forest.entries.get? other = some found → entry.tree.number = found.tree.number →
      document = other) ∧
    (∀ n, (0 < n ∧ n ≤ toolkit.queries) ∧ .queryDeleted n ∉ past ↔
      ∃ text query, forest.cache.queries.get? text = some query ∧ query.number = n) ∧
    (deleted past).Nodup ∧
    past.Pairwise fun earlier later =>
      ∀ thing ∈ later.touches, earlier.deletes ≠ some thing := by
  intro now past forest toolkit
  have hfresh : Tends [] (fresh bench catalog) := Tended.empty
  obtain ⟨htrees, hqueries, hcareful⟩ : Tended past (grovePart.get now).stock :=
    Maintains.script Deed.act_tends hfresh deeds
  refine ⟨fun n => ?_, fun _ _ _ _ => htrees.apart, fun n => ?_, hcareful.nodup_deleted, hcareful⟩
  · rw [← tree_mem_deleted]
    exact (htrees.holds_iff n).symm
  · rw [← query_mem_deleted]
    exact (hqueries.holds_iff n).symm

end Desk

end ClosingLabels
