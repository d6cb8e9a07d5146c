import ClosingLabels.Proofs.Drawing
import ClosingLabels.Proofs.Searching
import ClosingLabels.Proofs.Tables
import ClosingLabels.Publication

/-!
# A tree and the list of its blocks

Labels ask a tree for its blocks of some kinds. The kinds go into the text of a pattern, the
toolkit reads the text and compiles it once, and the query that is kept is run on the whole
tree, root and all. All of this is to find what a plain look through the list of its blocks
finds. It does so for the kinds of a catalog, as long as the cache was used for one language
and one list of kinds since it was cleared.
-/

namespace ClosingLabels

variable {D L : Type}

/-! ## Kinds in a catalog -/

namespace Catalog

/-- Listing each item once repeats none. -/
theorem nodup_firsts (items : List Text) : (firsts items).Nodup := by
  induction items with
  | nil => exact List.nodup_nil
  | cons first rest ih =>
    rw [firsts]
    refine List.nodup_cons.mpr ⟨fun hagain => ?_, ih.filter _⟩
    have hother := List.of_mem_filter hagain
    simp at hother

/-- Every list in force was put in order, whether it is built in or the user's. -/
theorem tidy_of_get?_merge {builtin overrides : Table Text (List Text)} {language : Text}
    {kinds : List Text} (hkinds : (merge builtin overrides).get? language = some kinds) :
    ∃ given, kinds = tidy given := by
  have hrows (rows : List (Text × List Text)) (table : Table Text (List Text))
      (htable : ∀ row ∈ table.rows, ∃ given, row.2 = tidy given) :
      ∀ row ∈ ((rows.map fun row => (row.1, tidy row.2)).foldl
        (fun table row => table.insert row.1 row.2) table).rows, ∃ given, row.2 = tidy given := by
    induction rows generalizing table with
    | nil => exact htable
    | cons first rest ih =>
      refine ih _ fun row hrow => ?_
      rcases Table.mem_rows_insert hrow with rfl | hold
      · exact ⟨first.2, rfl⟩
      · exact htable row hold
  exact hrows _ .empty (by simp [Table.empty]) _ (Table.mem_rows_of_get? hkinds)

/-- A catalog that was reloaded names each kind of a language once. -/
theorem nodup_kinds_reload (catalog : Catalog) (overrides : Table Text (List Text))
    (grammars : Table Text String) (language : Text) :
    ((catalog.reload overrides grammars).kinds language).Nodup := by
  unfold kinds
  cases hkinds : (catalog.reload overrides grammars).table.get? language with
  | none => exact List.nodup_nil
  | some found =>
    obtain ⟨given, rfl⟩ := tidy_of_get?_merge hkinds
    exact nodup_firsts _

end Catalog

/-! ## A cache for one list of kinds -/

namespace PatternCache

/-- The cache was cleared, and has since served searches of one language only, all under one name
and for one list of kinds. Whatever else happens leaves it alone. -/
inductive Dedicated (key : Text) (language : Language) (kinds : List Text) : Grove D L → Prop
  | cleared (grove : Grove D L) : Dedicated key language kinds (clear Grove.cacheSite grove).state
  | searched {grove : Grove D L} (tree : Tree) (hgrove : Dedicated key language kinds grove) :
      Dedicated key language kinds (find Grove.cacheSite key language tree kinds grove).state
  | beside {grove other : Grove D L} (hgrove : Dedicated key language kinds grove)
      (hcache : other.forest.cache = grove.forest.cache) : Dedicated key language kinds other

/-- A query that such a cache keeps for these kinds asks for the names among them, and the
language knows them all. -/
theorem Dedicated.own {key : Text} {language : Language} {kinds : List Text} {grove : Grove D L}
    (hdedicated : Dedicated key language kinds grove) {query : Query}
    (hkept : grove.forest.cache.queries.get? (keyOf key kinds) = some query) :
    query.kinds = Pattern.names kinds ∧ language.Knows kinds := by
  induction hdedicated with
  | cleared grove =>
    rw [clear_apply] at hkept
    cases hkept
  | beside _ hcache ih => exact ih (hcache ▸ hkept)
  | @searched grove tree _ ih =>
    have hsearched := find_searched key language tree kinds grove
    generalize find Grove.cacheSite key language tree kinds grove = outcome at hsearched hkept
    cases hsearched with
    | kept _ => exact ih hkept
    | failed reported hidle => exact ih hkept
    | compiled hnew hquery hpattern hknows =>
      have hsame := (Table.get?_insert_self _ _ _).symm.trans hkept
      rw [← Option.some.inj hsame, hquery, Query.kinds_mk]
      exact ⟨hpattern, hknows⟩

end PatternCache

/-! ## What is found -/

/-- Among blocks whose kinds are names, those of some kinds are those of the names among them. -/
theorem Language.blocks_of_knows {language : Language} {kinds : List Text} {tree : Tree}
    (hknows : language.Knows kinds)
    (hnamed : ∀ block ∈ tree.blocks, Pattern.isKindName block.kind) :
    language.blocks kinds tree = tree.blocks.filter fun block => decide (block.kind ∈ kinds) := by
  rw [blocks, if_pos hknows]
  refine List.filter_congr fun block hblock => ?_
  simp [Pattern.names, hnamed block hblock]

/-- The blocks of the tree of an entry, listed by hand beside a text. -/
def Entry.listing (entry : Entry D) (document : Document) : Publication where
  blocks := entry.tree.blocks
  document := document
  language := entry.key

/-- No blocks, no labels. -/
theorem Label.gather_nil (document : Document) (minLines : Rat) (kinds : List Text) :
    gather document minLines kinds (.ok []) = [] := by
  unfold gather
  split <;> rfl

namespace Forest

/-- **Searching is looking through a list.** Take the kinds of a language in any catalog that was
loaded, a tree that was not deleted, in which all kinds are names, and a cache that was cleared and
then used for these kinds and this language alone. Where some kind is a name and the language
knows all that are, a search finds what looking through the list of all blocks finds, and the
labels of the tree are those of the list. Where no kind is a name, or the language does not know
one, the search finds nothing, there are no labels, and neither fails. A pattern never asks for
the same kind twice, and what the toolkit reads in its text are these names. -/
theorem search_agrees_with_listing {σ τ : Type} (part : Lens σ (Grove D L)) (catalog : Catalog)
    (overrides : Table Text (List Text)) (grammars : Table Text String) (entry : Entry D)
    (document : Document) (minLines : Rat) (s : σ) (t : τ)
    (hdedicated : PatternCache.Dedicated entry.key entry.language
      ((catalog.reload overrides grammars).kinds entry.key) (part.get s))
    (halive : entry.tree.number ∉ (part.get s).workshop.toolkit.deletedTrees)
    (hnamed : ∀ block ∈ entry.tree.blocks, Pattern.isKindName block.kind) :
    let current := catalog.reload overrides grammars
    let kinds := current.kinds entry.key
    let found := ((viewOf part entry document).find kinds s).result
    let labels := (Label.extract (viewOf part entry document) minLines current s).result
    (Pattern.names kinds).Nodup ∧
    (∀ pattern, Pattern.ofKinds kinds = .ok pattern →
      Reading.ofText? pattern.text = some ⟨Pattern.names kinds, Pattern.capture⟩) ∧
    (Pattern.names kinds ≠ [] → entry.language.Knows kinds →
      found = .ok (entry.tree.blocks.filter fun block => decide (block.kind ∈ kinds)) ∧
      labels = (Label.extract (entry.listing document).view minLines current t).result) ∧
    (Pattern.names kinds = [] ∨ ¬entry.language.Knows kinds → found = .ok [] ∧ labels = .ok []) := by
  intro current kinds found labels
  have hfound : found = .ok (entry.language.blocks kinds entry.tree) :=
    PatternCache.find_result halive fun _ hkept => hdedicated.own hkept
  have hlabels : labels = .ok (Label.gather document minLines kinds found) :=
    Label.extract_result _ _ _ _
  refine ⟨(catalog.nodup_kinds_reload overrides grammars entry.key).filter _,
    fun pattern hpattern => ?_, fun _ hknows => ?_, fun hcannot => ?_⟩
  · rcases Pattern.ofKinds_cases kinds with ⟨hsome, hmade⟩ | ⟨-, hfault⟩
    · rw [← Except.ok.inj (hmade.symm.trans hpattern)]
      exact Pattern.read_names hsome
    · cases hfault.symm.trans hpattern
  · have hlisted := entry.language.blocks_of_knows hknows hnamed
    refine ⟨hfound.trans (congrArg _ hlisted), ?_⟩
    rw [hlabels, hfound, hlisted, Label.extract_result]
    rfl
  · have hnothing : entry.language.blocks kinds entry.tree = [] := by
      rcases hcannot with hnone | hunknown
      · simp [Language.blocks, hnone]
      · exact if_neg hunknown
    rw [hnothing] at hfound
    exact ⟨hfound, by rw [hlabels, hfound, Label.gather_nil]⟩

/-- A language that reports more than it is asked for, and a tree of it that was searched before.
Of the kinds in the settings two are the same but for blanks, one is no name, and one is that of
the root. -/
theorem search_agrees_with_listing_in_noisy_language :
    let text : Text := "if\x7b\n fn\x7b\n a\x7b\x7d\n \x7d\n\x7d"
    let language : Language := ⟨"l1:p.wasm", ["fn", "if", "root"], true⟩
    let entry : Entry Document :=
      ⟨⟨1, some language, text, Braces.parse text⟩, language, ⟨text, "p"⟩, "p", []⟩
    let overrides : Table Text (List Text) := .ofRows [("p", ["root", "fn", " if", "fn ", "(a)"])]
    let current := (Catalog.make .empty .empty .empty).reload overrides .empty
    let kinds := current.kinds "p"
    let grove : Grove Document Unit :=
      (PatternCache.find Grove.cacheSite "p" language entry.tree kinds
        (PatternCache.clear Grove.cacheSite {}).state).state
    let found := ((Forest.viewOf Lens.whole entry entry.source).find kinds grove).result
    let labels := (Label.extract (Forest.viewOf Lens.whole entry entry.source) 1 current grove).result
    PatternCache.Dedicated "p" language kinds grove ∧
    entry.tree.number ∉ grove.workshop.toolkit.deletedTrees ∧
    (∀ block ∈ entry.tree.blocks, Pattern.isKindName block.kind) ∧
    Pattern.names kinds = ["root", "fn", "if"] ∧ language.Knows kinds ∧
    found = .ok [⟨"root", 0, 18⟩, ⟨"if", 0, 18⟩, ⟨"fn", 5, 16⟩] ∧
    labels = .ok [⟨16, "fn\x7b", 2, 4⟩, ⟨18, "if\x7b", 1, 5⟩, ⟨18, "if\x7b", 1, 5⟩] := by
  intro text language entry overrides current kinds grove found labels
  have hdedicated : PatternCache.Dedicated "p" language kinds grove := .searched _ (.cleared _)
  have halive : entry.tree.number ∉ grove.workshop.toolkit.deletedTrees := by decide +kernel
  have hnamed : ∀ block ∈ entry.tree.blocks, Pattern.isKindName block.kind := by decide +kernel
  have hnames : Pattern.names kinds = ["root", "fn", "if"] := by decide +kernel
  have hknows : language.Knows kinds := by decide +kernel
  obtain ⟨-, -, hagrees, -⟩ :=
    search_agrees_with_listing Lens.whole (Catalog.make .empty .empty .empty) overrides .empty
      entry entry.source 1 grove () hdedicated halive hnamed
  obtain ⟨hfound, hlabels⟩ := hagrees (by rw [hnames]; decide) hknows
  exact ⟨hdedicated, halive, hnamed, hnames, hknows, hfound.trans (by decide +kernel),
    hlabels.trans (by decide +kernel)⟩

end Forest

end ClosingLabels
