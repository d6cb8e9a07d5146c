import ClosingLabels.Proofs.Searching
import ClosingLabels.Proofs.Steadiness
import ClosingLabels.Screen

/-!
# Trees, queries and their languages

Queries are kept under the name of a language, and languages are known by their names. As
long as one name leads to one language, each tree of that name was parsed with it, and each
query of that name was compiled by it. Entries and queries may then come and go as they do
in a forest. Only when the languages are forgotten must no tree of that name be left: it
would keep its language, while the name leads to another one.
-/

namespace ClosingLabels

/-! ## Searches -/

/-- The query that an event runs, and the tree it runs it on. -/
def Event.search? : Event → Option (Nat × Nat)
  | .patternMatching query tree => some (query, tree)
  | _ => none

/-- All searches, in order. -/
def searches (past : List Event) : List (Nat × Nat) := past.filterMap Event.search?

@[simp] theorem searches_append (past trace : List Event) :
    searches (past ++ trace) = searches past ++ searches trace := List.filterMap_append

theorem mem_searches {past : List Event} {query tree : Nat} :
    (query, tree) ∈ searches past ↔ .patternMatching query tree ∈ past := by
  refine List.mem_filterMap.trans ⟨?_, fun hmem => ⟨_, hmem, rfl⟩⟩
  rintro ⟨event, hmem, hsearch⟩
  cases event with
  | patternMatching found searched =>
    obtain ⟨rfl, rfl⟩ := Prod.mk.inj (Option.some.inj hsearch)
    exact hmem
  | _ => cases hsearch

/-- Events that touch nothing search nothing. -/
theorem searches_idle {trace : List Event} (hidle : ∀ event ∈ trace, event.Idle) :
    searches trace = [] := by
  refine List.filterMap_eq_nil_iff.mpr fun event hevent => ?_
  have hone := hidle event hevent
  cases event with
  | patternMatching query tree => cases hone
  | _ => rfl

theorem searches_parsing {trace : List Event} {old : Option Nat}
    (hparser : ∀ event ∈ trace, event.OfParser old) : searches trace = [] := by
  refine List.filterMap_eq_nil_iff.mpr fun event hevent => ?_
  have hone := hparser event hevent
  cases event with
  | patternMatching query tree => cases hone
  | _ => rfl

/-- Events of one sort search nothing if the sort does not. -/
theorem searches_map {α : Type} {event : α → Event} (hevent : ∀ a, (event a).search? = none)
    (items : List α) : searches (items.map event) = [] := by
  refine List.filterMap_eq_nil_iff.mpr fun found hfound => ?_
  obtain ⟨a, -, rfl⟩ := List.mem_map.mp hfound
  exact hevent a

theorem searches_editing (tree : Tree) (changes : List Change) :
    searches (Forest.editing tree changes) = [] := searches_map (fun _ => rfl) _

theorem searches_deletions {D L : Type} (grove : Grove D L) (document : String) :
    searches (grove.deletions document) = [] := searches_map (fun _ => rfl) _

theorem searches_clearing {D L : Type} (grove : Grove D L) : searches grove.clearing = [] :=
  searches_map (fun _ => rfl) _

/-! ## Names in the cache -/

/-- The text under which a query is kept tells the name of its language. -/
theorem PatternCache.name_of_keyOf {name other : Text} {kinds others : List Text}
    (hname : 0 ∉ name) (hother : 0 ∉ other) (hsame : keyOf name kinds = keyOf other others) :
    name = other := by
  have hfront {front : Text} (hplain : 0 ∉ front) (rest : Text) :
      (front ++ 0 :: rest).takeWhile (· ≠ 0) = front := by
    rw [List.takeWhile_append_of_pos]
    · simp
    · intro unit hunit
      have hne : unit ≠ 0 := fun hzero => hplain (hzero ▸ hunit)
      simpa using hne
  -- Neither name has a zero unit, so each ends at the first one.
  have htake := congrArg (List.takeWhile (· ≠ 0)) hsame
  rwa [keyOf, keyOf, hfront hname, hfront hother] at htake

/-- An entry goes by a language that is known, and its tree was parsed with that. -/
structure Entry.Fits (key : Text) (languages : Table Text Language) (entry : Entry Nat) :
    Prop where
  knows : Knows key languages entry.key entry.language
  parsed : entry.tree.language = some entry.language

/-- A query is kept for the name of a language that is known and compiled it. -/
def Query.Fits (key : Text) (languages : Table Text Language) (text : Text) (query : Query) :
    Prop :=
  ∃ name kinds, text = PatternCache.keyOf name kinds ∧ Knows key languages name query.language

/-! ## The shelf -/

/-- What searches depend on: the workshop, the buffers, the entries and the queries that are
kept. -/
structure Shelf where
  workshop : Workshop (Waiter Nat) (Work Nat)
  buffers : List Buffer
  entries : Table String (Entry Nat)
  queries : Table Text Query

namespace Shelf

variable {key : Text} {shelf : Shelf}

/-- The languages that are known. -/
def languages (shelf : Shelf) : Table Text Language := shelf.workshop.grammars.languages

/-- One name leads to one language, in which its trees were parsed and by which its queries were
compiled. -/
structure Fit (key : Text) (shelf : Shelf) : Prop where
  plain : ∀ buffer ∈ shelf.buffers, 0 ∉ buffer.document.language
  steady : shelf.workshop.Steady key
  entries : ∀ document entry, shelf.entries.get? document = some entry →
    entry.Fits key shelf.languages
  queries : ∀ text query, shelf.queries.get? text = some query →
    query.Fits key shelf.languages text

/-- A query is kept for the tree of some entry, and compiled by its language if that has the name
that counts. -/
def Paired (key : Text) (shelf : Shelf) (query tree : Nat) : Prop :=
  ∃ document entry kinds compiled,
    shelf.entries.get? document = some entry ∧ entry.tree.number = tree ∧
    shelf.queries.get? (PatternCache.keyOf entry.key kinds) = some compiled ∧
    compiled.number = query ∧
    (entry.key = key → entry.tree.language = some compiled.language)

namespace Fit

/-- The workshop may change as long as it loses no language. -/
theorem withWorkshop (h : shelf.Fit key) {workshop : Workshop (Waiter Nat) (Work Nat)}
    (hsteady : workshop.Steady key)
    (hgrow : ∀ language, shelf.languages.get? key = some language →
      workshop.grammars.languages.get? key = some language) :
    Fit key { shelf with workshop } where
  plain := h.plain
  steady := hsteady
  entries document entry hget := by
    obtain ⟨hknows, hparsed⟩ := h.entries document entry hget
    exact ⟨hknows.mono hgrow, hparsed⟩
  queries text query hget := by
    obtain ⟨name, kinds, htext, hknows⟩ := h.queries text query hget
    exact ⟨name, kinds, htext, hknows.mono hgrow⟩

/-- So may the toolkit. -/
theorem withToolkit (h : shelf.Fit key) (toolkit : Toolkit) :
    Fit key { shelf with workshop := { shelf.workshop with toolkit } } :=
  h.withWorkshop (h.steady.of_toolkit toolkit) fun _ => id

/-- Documents may come and go as long as their languages have plain names. -/
theorem withBuffers (h : shelf.Fit key) {buffers : List Buffer}
    (hplain : ∀ buffer ∈ buffers, 0 ∉ buffer.document.language) :
    Fit key { shelf with buffers } where
  plain := hplain
  steady := h.steady
  entries := h.entries
  queries := h.queries

/-- An entry that fits may be stored. -/
theorem plant (h : shelf.Fit key) (document : String) {entry : Entry Nat}
    (hentry : entry.Fits key shelf.languages) :
    Fit key { shelf with entries := shelf.entries.insert document entry } where
  plain := h.plain
  steady := h.steady
  entries other found hget := by
    change (shelf.entries.insert document entry).get? other = some found at hget
    rw [Table.get?_insert] at hget
    split at hget
    · exact Option.some.inj hget ▸ hentry
    · exact h.entries other found hget
  queries := h.queries

/-- An entry may be dropped. -/
theorem erase (h : shelf.Fit key) (document : String) :
    Fit key { shelf with entries := shelf.entries.erase document } where
  plain := h.plain
  steady := h.steady
  entries other found hget := by
    change (shelf.entries.erase document).get? other = some found at hget
    rw [Table.get?_erase] at hget
    split at hget
    · cases hget
    · exact h.entries other found hget
  queries := h.queries

/-- A query that fits may be kept. -/
theorem keep (h : shelf.Fit key) {text : Text} {query : Query}
    (hquery : query.Fits key shelf.languages text) :
    Fit key { shelf with queries := shelf.queries.insert text query } where
  plain := h.plain
  steady := h.steady
  entries := h.entries
  queries other found hget := by
    change (shelf.queries.insert text query).get? other = some found at hget
    rw [Table.get?_insert] at hget
    split at hget
    · rw [‹other = text›, ← Option.some.inj hget]
      exact hquery
    · exact h.queries other found hget

/-- The queries may be dropped. -/
theorem clear (h : shelf.Fit key) (toolkit : Toolkit) :
    Fit key
      { shelf with workshop := { shelf.workshop with toolkit }, queries := .empty } where
  plain := h.plain
  steady := h.steady.of_toolkit toolkit
  entries := h.entries
  queries text query hget := by cases hget

/-- A query that is kept for an entry was compiled by the language of its tree. -/
theorem paired (h : shelf.Fit key) {document : String} {entry : Entry Nat} {kinds : List Text}
    {query : Query} (hentry : shelf.entries.get? document = some entry)
    (hquery : shelf.queries.get? (PatternCache.keyOf entry.key kinds) = some query) :
    shelf.Paired key query.number entry.tree.number := by
  obtain ⟨hknows, hparsed⟩ := h.entries document entry hentry
  obtain ⟨name, others, htext, hcompiled⟩ := h.queries _ query hquery
  obtain rfl := PatternCache.name_of_keyOf hknows.1 hcompiled.1 htext
  refine ⟨document, entry, kinds, query, hentry, rfl, hquery, rfl, fun hkey => ?_⟩
  rw [hkey] at hknows hcompiled
  rw [hparsed, hknows.unique hcompiled]

end Fit

/-- All fits, and nothing is left to do. -/
structure Resting (key : Text) (shelf : Shelf) : Prop extends shelf.Fit key where
  tasks : shelf.workshop.tasks = []

/-- No tree of the name is left either, so the languages may be forgotten. -/
structure Forgettable (key : Text) (shelf : Shelf) : Prop extends shelf.Resting key where
  free : ∀ document entry, shelf.entries.get? document = some entry → entry.key ≠ key

/-- Whoever forgets the languages has to drop the queries as well. -/
theorem Forgettable.forget (h : shelf.Forgettable key) (grammars : Grammars (Waiter Nat))
    (hstartups : grammars.startups = shelf.workshop.grammars.startups)
    (hlinks : grammars.links = shelf.workshop.grammars.links)
    (hlanguages : grammars.languages = .empty)
    (hcurrent : ∀ number, grammars.current = some number →
      shelf.workshop.grammars.current = some number) (toolkit : Toolkit) :
    Fit key
      { shelf with
        workshop := { shelf.workshop.withGrammars grammars with toolkit }
        queries := .empty } where
  plain := h.plain
  steady :=
    (h.steady.forget h.tasks grammars hstartups hlinks hlanguages hcurrent).of_toolkit toolkit
  entries document entry hget := by
    obtain ⟨hknows, hparsed⟩ := h.entries document entry hget
    exact ⟨⟨hknows.1, fun hkey => absurd hkey (h.free document entry hget)⟩, hparsed⟩
  queries text query hget := by cases hget

end Shelf

end ClosingLabels
