import ClosingLabels.Proofs.Listing
import ClosingLabels.Proofs.Reading
import ClosingLabels.Scenario.Catalog
import Mathlib.Data.List.DropRight
import Mathlib.Data.List.Perm.Basic

/-!
# Catalogs reloaded

A catalog is what its last tables make of it: nothing of earlier tables remains, and in which order
the rows of a table stand is of no importance. The kinds of a language are those that the user gave
for it, or else the built-in ones, put in order; and the languages are listed in increasing order.
-/

namespace ClosingLabels

/-! ## Trimmed texts -/

namespace Text

/-- Neither the first nor the last unit is a blank. -/
structure Trimmed (text : Text) : Prop where
  first : ∀ u ∈ text.head?, isBlank u = false
  last : ∀ u ∈ text.getLast?, isBlank u = false

theorem trim_eq (text : Text) : text.trim = (text.dropWhile isBlank).rdropWhile isBlank := rfl

/-- Trimming leaves no blank at either end. -/
theorem trimmed_trim (text : Text) : text.trim.Trimmed := by
  constructor
  · intro u hu
    have hfront : u ∈ (text.dropWhile isBlank).head? := by
      obtain ⟨rest, hrest⟩ := List.rdropWhile_prefix isBlank (text.dropWhile isBlank)
      rw [← hrest, List.head?_append, ← trim_eq, Option.mem_def.mp hu]
      rfl
    have hnot := List.head?_dropWhile_not isBlank text
    rw [Option.mem_def.mp hfront] at hnot
    exact hnot
  · intro u hu
    obtain ⟨hne, rfl⟩ := List.mem_getLast?_eq_getLast hu
    rw [← Bool.not_eq_true]
    exact List.rdropWhile_last_not isBlank _ hne

/-- Trimming changes nothing where there is no blank at either end. -/
theorem Trimmed.trim_eq_self {text : Text} (h : text.Trimmed) : text.trim = text := by
  have hfront : text.dropWhile isBlank = text := by
    refine List.dropWhile_eq_self_iff.mpr fun hlength => ?_
    rw [h.first text[0] (by rw [List.head?_eq_getElem?]; exact List.getElem?_eq_getElem hlength)]
    exact Bool.false_ne_true
  rw [trim_eq, hfront, List.rdropWhile_eq_self_iff]
  intro hne
  rw [h.last _ (List.getLast?_eq_some_getLast hne)]
  exact Bool.false_ne_true

/-! ## Names in order -/

/-- Sorted names are the same names. -/
theorem sortNames_perm (names : List Text) : (sortNames names).Perm names :=
  List.mergeSort_perm names atMost

/-- Different names increase once they are sorted. -/
theorem increasing_sortNames {names : List Text} (hnodup : names.Nodup) :
    (sortNames names).Pairwise (· < ·) := by
  have hsorted : (sortNames names).Pairwise fun a b => atMost a b = true := by
    apply List.pairwise_mergeSort
    · intro a b c hab hbc
      exact decide_eq_true (List.le_trans (of_decide_eq_true hab) (of_decide_eq_true hbc))
    · intro a b
      rw [Bool.or_eq_true]
      exact (List.le_total a b).imp decide_eq_true decide_eq_true
  have hdistinct : (sortNames names).Nodup := (sortNames_perm names).nodup_iff.mpr hnodup
  refine (hsorted.and hdistinct).imp fun {a b} ⟨hle, hne⟩ => ?_
  rw [← List.not_le]
  exact fun hback => hne (List.le_antisymm (of_decide_eq_true hle) hback)

/-- Increasing lists of the same names are the same list. -/
theorem eq_of_increasing {names others : List Text} (hnames : names.Pairwise (· < ·))
    (hothers : others.Pairwise (· < ·)) (hsame : ∀ name, name ∈ names ↔ name ∈ others) :
    names = others := by
  have hdistinct {names : List Text} (hnames : names.Pairwise (· < ·)) : names.Nodup :=
    hnames.imp fun {a b} hlt (hab : a = b) => List.lt_irrefl b (hab ▸ hlt)
  have hperm : names.Perm others :=
    (List.perm_ext_iff_of_nodup (hdistinct hnames) (hdistinct hothers)).mpr hsame
  refine hperm.eq_of_pairwise ?_ hnames hothers
  intro a b _ _ hab hba
  exact absurd hab (List.lt_asymm hba)

end Text

/-! ## Rows in another order -/

namespace Table

variable {κ α β : Type}

/-- A table that has each name once, and one that has the same rows in some order. -/
structure Rearranged (table other : Table κ α) : Prop where
  nodup : table.keys.Nodup
  perm : table.rows.Perm other.rows

theorem Rearranged.nodup_other {table other : Table κ α} (h : table.Rearranged other) :
    other.keys.Nodup := (h.perm.map Prod.fst).nodup_iff.mp h.nodup

variable [DecidableEq κ]

/-- The order of the rows does not matter for what a name has. -/
theorem Rearranged.get?_eq {table other : Table κ α} (h : table.Rearranged other) (key : κ) :
    table.get? key = other.get? key := by
  refine Option.ext fun value => ?_
  rw [← mem_rows_iff h.nodup, ← mem_rows_iff h.nodup_other]
  exact h.perm.mem_iff

theorem get?_map (table : Table κ α) (f : α → β) (key : κ) :
    (table.map f).get? key = (table.get? key).map f := by
  obtain ⟨rows⟩ := table
  simp only [map, get?]
  induction rows with
  | nil => rfl
  | cons row rest ih =>
    by_cases h : row.1 = key
    · simp [find, h]
    · simp [find, h, ih]

/-- Rows with different names, written to a table one after another, are what is read there, and
every other name keeps what it had. -/
theorem get?_foldl_insert {rows : List (κ × α)} (hnodup : (rows.map Prod.fst).Nodup)
    (table : Table κ α) (key : κ) :
    (rows.foldl (fun table row => table.insert row.1 row.2) table).get? key =
      (find key rows).or (table.get? key) := by
  induction rows generalizing table with
  | nil => rfl
  | cons row rest ih =>
    rw [List.map_cons, List.nodup_cons] at hnodup
    rw [List.foldl_cons, ih hnodup.2, get?_insert]
    by_cases h : row.1 = key
    · rw [find_eq_none (h ▸ hnodup.1), if_pos h.symm, find, if_pos h]
      rfl
    · rw [if_neg fun hkey => h hkey.symm, find, if_neg h]

end Table

/-! ## Kinds in order -/

namespace Catalog

theorem mem_firsts {items : List Text} {item : Text} : item ∈ firsts items ↔ item ∈ items := by
  induction items with
  | nil => exact Iff.rfl
  | cons first rest ih =>
    rw [firsts, List.mem_cons, List.mem_cons, List.mem_filter, ih]
    by_cases h : item = first <;> simp [h]

/-- Items that are listed once stay as they are. -/
theorem firsts_of_nodup {items : List Text} (h : items.Nodup) : firsts items = items := by
  induction items with
  | nil => rfl
  | cons first rest ih =>
    obtain ⟨hnew, hrest⟩ := List.nodup_cons.mp h
    rw [firsts, ih hrest, List.filter_eq_self.mpr]
    intro item hitem
    rw [decide_eq_true_eq]
    rintro rfl
    exact hnew hitem

/-- The firsts come in the order in which they first occur. -/
theorem firsts_ordered (items : List Text) :
    (firsts items).Pairwise fun item later => items.idxOf item < items.idxOf later := by
  induction items with
  | nil => exact .nil
  | cons first rest ih =>
    have hlater {item : Text} (hitem : item ∈ (firsts rest).filter (· ≠ first)) :
        (first :: rest).idxOf item = rest.idxOf item + 1 := by
      have hne : item ≠ first := by simpa using List.of_mem_filter hitem
      exact List.idxOf_cons_ne rest hne.symm
    rw [firsts, List.pairwise_cons]
    constructor
    · intro item hitem
      rw [List.idxOf_cons_self, hlater hitem]
      exact Nat.succ_pos _
    · refine (ih.filter _).imp_of_mem fun {item later} hitem hother hlt => ?_
      rw [hlater hitem, hlater hother]
      exact Nat.succ_lt_succ hlt

/-- Items that pass a test keep their order of occurrence when the others are left out. -/
theorem idxOf_lt_of_filter {items : List Text} {test : Text → Bool} {item later : Text}
    (hitem : test item = true) (hlater : test later = true)
    (h : (items.filter test).idxOf item < (items.filter test).idxOf later) :
    items.idxOf item < items.idxOf later := by
  induction items with
  | nil => exact h
  | cons first rest ih =>
    by_cases htest : test first = true
    · rw [List.filter_cons_of_pos htest] at h
      by_cases hfirst : first = item
      · obtain rfl := hfirst
        rw [List.idxOf_cons_self] at h ⊢
        by_cases hsame : first = later
        · obtain rfl := hsame
          rw [List.idxOf_cons_self] at h
          exact absurd h (Nat.lt_irrefl 0)
        · rw [List.idxOf_cons_ne rest hsame]
          exact Nat.succ_pos _
      · by_cases hsame : first = later
        · obtain rfl := hsame
          rw [List.idxOf_cons_self] at h
          exact absurd h (Nat.not_lt_zero _)
        · rw [List.idxOf_cons_ne _ hfirst, List.idxOf_cons_ne _ hsame] at h ⊢
          exact Nat.succ_lt_succ (ih (Nat.lt_of_succ_lt_succ h))
    · rw [List.filter_cons_of_neg htest] at h
      have hfirst : first ≠ item := fun hsame => htest (hsame ▸ hitem)
      have hother : first ≠ later := fun hsame => htest (hsame ▸ hlater)
      rw [List.idxOf_cons_ne rest hfirst, List.idxOf_cons_ne rest hother]
      exact Nat.succ_lt_succ (ih h)

/-- The order in which kinds are kept: each is trimmed and not blank and stands there once, none is
missing that is not blank, and they come in the order in which they first occur. -/
structure Tidied (given kinds : List Text) : Prop where
  trimmed : ∀ kind ∈ kinds, kind ≠ [] ∧ kind.Trimmed
  nodup : kinds.Nodup
  complete : ∀ kind, kind ∈ kinds ↔ kind ≠ [] ∧ ∃ raw ∈ given, raw.trim = kind
  ordered : kinds.Pairwise fun kind later =>
    (given.map Text.trim).idxOf kind < (given.map Text.trim).idxOf later

theorem mem_tidy {given : List Text} {kind : Text} :
    kind ∈ tidy given ↔ kind ≠ [] ∧ ∃ raw ∈ given, raw.trim = kind := by
  rw [tidy, mem_firsts, List.mem_filter, List.mem_map, and_comm, decide_eq_true_eq]

theorem tidied_tidy (given : List Text) : Tidied given (tidy given) where
  trimmed := by
    intro kind hkind
    obtain ⟨hne, raw, -, rfl⟩ := mem_tidy.mp hkind
    exact ⟨hne, raw.trimmed_trim⟩
  nodup := nodup_firsts _
  complete _ := mem_tidy
  ordered := by
    refine (firsts_ordered _).imp_of_mem fun {kind later} hkind hlater hlt => ?_
    have htest {kind : Text} (hkind : kind ∈ tidy given) : decide (kind ≠ []) = true :=
      decide_eq_true (mem_tidy.mp hkind).1
    exact idxOf_lt_of_filter (htest hkind) (htest hlater) hlt

/-- Kinds that are in order are left as they are. -/
theorem Tidied.tidy_eq {given kinds : List Text} (h : Tidied given kinds) : tidy kinds = kinds := by
  have htrim : kinds.map Text.trim = kinds := by
    conv_rhs => rw [← List.map_id kinds]
    exact List.map_congr_left fun kind hkind => (h.trimmed kind hkind).2.trim_eq_self
  have hnone : kinds.filter (· ≠ []) = kinds :=
    List.filter_eq_self.mpr fun kind hkind => decide_eq_true (h.trimmed kind hkind).1
  rw [tidy, htrim, hnone, firsts_of_nodup h.nodup]

/-! ## The lists in force -/

variable {builtin overrides otherBuiltin otherOverrides : Table Text (List Text)}

/-- A language has the list that the user gave for it, or else the built-in one, in order. -/
theorem get?_merge (hbuiltin : builtin.keys.Nodup) (hoverrides : overrides.keys.Nodup)
    (language : Text) :
    (merge builtin overrides).get? language =
      ((overrides.get? language).or (builtin.get? language)).map tidy := by
  have hnodup {table : Table Text (List Text)} (h : table.keys.Nodup) :
      ((table.map tidy).rows.map Prod.fst).Nodup := by
    simpa [Table.map, Table.keys, Function.comp_def] using h
  have hmerge : merge builtin overrides =
      (overrides.map tidy).rows.foldl (fun table row => table.insert row.1 row.2)
        ((builtin.map tidy).rows.foldl (fun table row => table.insert row.1 row.2) .empty) := by
    rw [merge, Table.ofRows, List.map_append, List.foldl_append]
    rfl
  rw [hmerge, Table.get?_foldl_insert (hnodup hoverrides), Table.get?_foldl_insert (hnodup hbuiltin),
    Table.get?_empty, Option.or_none]
  change ((overrides.map tidy).get? language).or ((builtin.map tidy).get? language) = _
  rw [Table.get?_map, Table.get?_map, Option.map_or]

theorem nodup_keys_merge (builtin overrides : Table Text (List Text)) :
    (merge builtin overrides).keys.Nodup := (Table.ofRows_nodup _).1

/-! ## Questions -/

variable {catalog other : Catalog}

theorem covers_iff (catalog : Catalog) (language : Text) :
    catalog.covers language = true ↔ catalog.kinds language ≠ [] := by
  simp [covers]

/-- The languages that are listed are those that are covered. -/
theorem mem_languages (catalog : Catalog) (language : Text) :
    language ∈ catalog.languages ↔ catalog.covers language = true := by
  rw [languages, (Text.sortNames_perm _).mem_iff, List.mem_filter, Table.mem_keys_iff,
    and_iff_right_iff_imp, covers_iff, kinds, Table.contains]
  intro hkinds
  cases hfound : catalog.table.get? language with
  | none => exact absurd (by rw [hfound]; rfl) hkinds
  | some kinds => rfl

/-- The languages are listed in increasing order. -/
theorem increasing_languages (h : catalog.table.keys.Nodup) :
    catalog.languages.Pairwise (· < ·) :=
  Text.increasing_sortNames (h.filter _)

/-- Two catalogs hold the same for every language, whatever the order of their rows. -/
structure Agrees (catalog other : Catalog) : Prop where
  nodup : catalog.table.keys.Nodup
  nodup_other : other.table.keys.Nodup
  lists : ∀ language, catalog.table.get? language = other.table.get? language
  grammars : ∀ language, catalog.grammars.get? language = other.grammars.get? language

namespace Agrees

theorem kinds_eq (h : catalog.Agrees other) (language : Text) :
    catalog.kinds language = other.kinds language := by
  rw [kinds, kinds, h.lists]

theorem covers_eq (h : catalog.Agrees other) (language : Text) :
    catalog.covers language = other.covers language := by
  rw [covers, covers, h.kinds_eq]

theorem grammar?_eq (h : catalog.Agrees other) (language : Text) :
    catalog.grammar? language = other.grammar? language := by
  rw [grammar?, grammar?, h.covers_eq, namedGrammar?, namedGrammar?, h.grammars]

theorem languages_eq (h : catalog.Agrees other) : catalog.languages = other.languages := by
  refine Text.eq_of_increasing (increasing_languages h.nodup) (increasing_languages h.nodup_other)
    fun language => ?_
  rw [mem_languages, mem_languages, h.covers_eq]

end Agrees

/-- Catalogs that are made of the same tables agree, whatever the order of the rows. -/
theorem agrees_make {grammars otherGrammars : Table Text String}
    (hbuiltin : builtin.Rearranged otherBuiltin) (hoverrides : overrides.Rearranged otherOverrides)
    (hgrammars : grammars.Rearranged otherGrammars) :
    (make builtin overrides grammars).Agrees (make otherBuiltin otherOverrides otherGrammars) where
  nodup := nodup_keys_merge _ _
  nodup_other := nodup_keys_merge _ _
  lists language := by
    change (merge builtin overrides).get? language = (merge otherBuiltin otherOverrides).get? language
    rw [get?_merge hbuiltin.nodup hoverrides.nodup,
      get?_merge hbuiltin.nodup_other hoverrides.nodup_other, hbuiltin.get?_eq, hoverrides.get?_eq]
  grammars language := hgrammars.get?_eq language

/-- The kinds of a language are the list that was given for it, in order. -/
theorem kinds_make (grammars : Table Text String) (hbuiltin : builtin.keys.Nodup)
    (hoverrides : overrides.keys.Nodup) (language : Text) :
    (make builtin overrides grammars).kinds language =
      tidy (((overrides.get? language).or (builtin.get? language)).getD []) := by
  change ((merge builtin overrides).get? language).getD [] = _
  rw [get?_merge hbuiltin hoverrides]
  cases (overrides.get? language).or (builtin.get? language) <;> rfl

end Catalog

/-! ## Reloads -/

namespace Scenario

/-- The tables that the last reload among some steps brought, or those that were there before if
there is none. -/
def lastTables (before : Table Text (List Text) × Table Text String) :
    List CatalogStep → Table Text (List Text) × Table Text String
  | [] => before
  | .reload overrides grammars :: rest => lastTables (overrides, grammars) rest
  | _ :: rest => lastTables before rest

/-- After any questions and reloads a catalog is the one that is made of the last tables. -/
theorem finish_make (builtin overrides : Table Text (List Text)) (grammars : Table Text String)
    (steps : List CatalogStep) :
    Action.finish CatalogStep.perform (Catalog.make builtin overrides grammars) steps =
      Catalog.make builtin (lastTables (overrides, grammars) steps).1
        (lastTables (overrides, grammars) steps).2 := by
  induction steps generalizing overrides grammars with
  | nil => rfl
  | cons step rest ih =>
    rw [Action.finish_cons]
    cases step with
    | reload newOverrides newGrammars => exact ih newOverrides newGrammars
    | kinds _ | covers _ | grammar _ | languages => exact ih overrides grammars

/-- Catalogs that agree give the same answers. -/
theorem CatalogStep.result_of_agrees {catalog other : Catalog} (h : catalog.Agrees other)
    (question : CatalogStep) :
    (question.perform catalog).result = (question.perform other).result := by
  cases question with
  | kinds language =>
    simp only [CatalogStep.perform, Action.gets_apply, h.kinds_eq]
  | covers language =>
    simp only [CatalogStep.perform, Action.gets_apply, h.covers_eq]
  | grammar language =>
    simp only [CatalogStep.perform, Action.gets_apply, h.grammar?_eq]
  | languages =>
    simp only [CatalogStep.perform, Action.gets_apply, h.languages_eq]
  | reload overrides grammars => rfl

/-- **A catalog is what its last tables make of it.** After any questions and reloads it is the one
that is made anew of the built-in lists and of the tables of the last reload, and it answers every
question like one that is made of the same tables with their rows in any other order. The kinds of a
language are the user's list if there is one, or else the built-in list, or else none, put in order;
and the languages that have kinds are listed in increasing order. -/
theorem answered_by_last_tables {builtin first otherBuiltin overrides : Table Text (List Text)}
    {files grammars : Table Text String} (steps : List CatalogStep)
    (hbuiltin : builtin.Rearranged otherBuiltin)
    (hoverrides : (lastTables (first, files) steps).1.Rearranged overrides)
    (hgrammars : (lastTables (first, files) steps).2.Rearranged grammars) :
    let last := lastTables (first, files) steps
    let reached := Action.finish CatalogStep.perform (Catalog.make builtin first files) steps
    reached = Catalog.make builtin last.1 last.2 ∧
    (∀ question : CatalogStep, (question.perform reached).result =
      (question.perform (Catalog.make otherBuiltin overrides grammars)).result) ∧
    (∀ language, Catalog.Tidied (((last.1.get? language).or (builtin.get? language)).getD [])
        (reached.kinds language) ∧
      Catalog.tidy (reached.kinds language) = reached.kinds language ∧
      (reached.covers language = true ↔ reached.kinds language ≠ []) ∧
      (language ∈ reached.languages ↔ reached.covers language = true)) ∧
    reached.languages.Pairwise (· < ·) := by
  intro last reached
  have hreached : reached = Catalog.make builtin last.1 last.2 := finish_make _ _ _ _
  have hagrees := Catalog.agrees_make hbuiltin hoverrides hgrammars
  refine ⟨hreached, fun question => ?_, fun language => ?_, ?_⟩
  · rw [hreached]
    exact question.result_of_agrees hagrees
  · have hkinds : reached.kinds language =
        Catalog.tidy (((last.1.get? language).or (builtin.get? language)).getD []) := by
      rw [hreached]
      exact Catalog.kinds_make _ hbuiltin.nodup hoverrides.nodup language
    have htidied := Catalog.tidied_tidy (((last.1.get? language).or (builtin.get? language)).getD [])
    rw [← hkinds] at htidied
    exact ⟨htidied, htidied.tidy_eq, reached.covers_iff language, reached.mem_languages language⟩
  · rw [hreached]
    exact Catalog.increasing_languages hagrees.nodup

/-- A list that replaces a built-in one, one that has only blank kinds, and one that names kinds
twice but for blanks. A user's list for Go is gone after the last reload, and the rows of all tables
are turned round. -/
theorem answered_by_last_tables_turned_round :
    let builtin : Table Text (List Text) :=
      ⟨[("rust", ["fn"]), ("go", ["func", " type "]), ("c", ["struct"])]⟩
    let turnedBuiltin : Table Text (List Text) :=
      ⟨[("c", ["struct"]), ("go", ["func", " type "]), ("rust", ["fn"])]⟩
    let overrides : Table Text (List Text) := ⟨[("rust", [" b", "a", "", "b "]), ("c", ["  "])]⟩
    let turned : Table Text (List Text) := ⟨[("c", ["  "]), ("rust", [" b", "a", "", "b "])]⟩
    let grammars : Table Text String := ⟨[("go", "g.wasm"), ("c", "c.wasm")]⟩
    let turnedGrammars : Table Text String := ⟨[("c", "c.wasm"), ("go", "g.wasm")]⟩
    let steps : List CatalogStep :=
      [.reload ⟨[("go", ["x"])]⟩ ⟨[("rust", "r.wasm")]⟩, .languages, .reload overrides grammars,
        .kinds "go"]
    let reached :=
      Action.finish CatalogStep.perform (Catalog.make builtin ⟨[("go", ["y"])]⟩ .empty) steps
    let turnedCatalog := Catalog.make turnedBuiltin turned turnedGrammars
    let rust : List Text := ["b", "a"]
    let go : List Text := ["func", "type"]
    let covered : List Text := ["go", "rust"]
    builtin.Rearranged turnedBuiltin ∧ overrides.Rearranged turned ∧
      grammars.Rearranged turnedGrammars ∧
      (CatalogStep.languages.perform reached).result =
        (CatalogStep.languages.perform turnedCatalog).result ∧
      reached.languages = covered ∧ covered.Pairwise (· < ·) ∧
      reached.kinds "rust" = rust ∧ Catalog.Tidied [" b", "a", "", "b "] rust ∧
      reached.kinds "go" = go ∧ reached.covers "c" = false := by
  intro builtin turnedBuiltin overrides turned grammars turnedGrammars steps reached turnedCatalog
    rust go covered
  have hbuiltin : builtin.Rearranged turnedBuiltin := ⟨by decide +kernel, by decide +kernel⟩
  have hoverrides : overrides.Rearranged turned := ⟨by decide +kernel, by decide +kernel⟩
  have hgrammars : grammars.Rearranged turnedGrammars := ⟨by decide +kernel, by decide +kernel⟩
  obtain ⟨-, hanswers, hkinds, hincreasing⟩ :=
    @answered_by_last_tables _ ⟨[("go", ["y"])]⟩ _ _ .empty _ steps hbuiltin hoverrides hgrammars
  have hcovered : reached.languages = covered := by
    have hkeys : reached.table.keys.filter reached.covers = (["rust", "go"] : List Text) := by
      decide +kernel
    refine Text.eq_of_increasing hincreasing (by decide +kernel) fun language => ?_
    rw [Catalog.languages, (Text.sortNames_perm _).mem_iff, hkeys]
    simp [covered, or_comm]
  have hrust : reached.kinds "rust" = rust := by decide +kernel
  have hgo : reached.kinds "go" = go := by decide +kernel
  exact ⟨hbuiltin, hoverrides, hgrammars, hanswers .languages, hcovered, hcovered ▸ hincreasing,
    hrust, hrust ▸ (hkinds "rust").1, hgo, by decide +kernel⟩

end Scenario

end ClosingLabels
