import ClosingLabels.Proofs.Forest
import ClosingLabels.Proofs.Readback

/-!
# Searching a tree

A search asks the pattern cache for a query and runs it. The query may be kept from an
earlier search, be compiled now, or be impossible to compile; what each case leaves
behind is listed here once. So is what clearing the cache leaves behind.
-/

namespace ClosingLabels

variable {D L : Type}

namespace Grove

/-- A grove in which one more query was made. -/
def compile (grove : Grove D L) : Grove D L :=
  { grove with
    workshop := { grove.workshop with
      toolkit := { grove.workshop.toolkit with
        queries := grove.workshop.toolkit.queries + 1 } } }

/-- A grove in which a query was made and is kept under a text. -/
def keep (grove : Grove D L) (text : Text) (query : Query) : Grove D L :=
  { grove.compile with
    forest := { grove.forest with
      cache := {
        queries := grove.forest.cache.queries.insert text query
        reported := grove.forest.cache.reported.filter (· ≠ text) } } }

/-- A grove in which other failures of patterns have been reported. -/
def withReported (grove : Grove D L) (reported : List Text) : Grove D L :=
  { grove with
    forest := { grove.forest with cache := { grove.forest.cache with reported } } }

/-- A grove in which queries were deleted, one after another. -/
def discard (grove : Grove D L) (queries : List Query) : Grove D L :=
  { grove with
    workshop := { grove.workshop with
      toolkit := { grove.workshop.toolkit with
        deletedQueries :=
          (queries.map Query.number).reverse ++ grove.workshop.toolkit.deletedQueries } } }

/-- A grove in which all queries that were kept were deleted. -/
def clear (grove : Grove D L) : Grove D L :=
  { grove.discard grove.forest.cache.queries.values with
    forest := { grove.forest with cache := {} } }

/-- The events of deleting all queries that are kept. -/
def clearing (grove : Grove D L) : List Event :=
  grove.forest.cache.queries.values.map fun query => .queryDeleted query.number

end Grove

/-- The names among some kinds, which are what a pattern for them asks for. -/
def Pattern.names (kinds : List Text) : List Text := kinds.filter isKindName

/-- There is a pattern as soon as there is a name. -/
theorem Pattern.ofKinds_cases (kinds : List Text) :
    (names kinds ≠ [] ∧ ofKinds kinds = .ok ⟨names kinds⟩) ∨
    (names kinds = [] ∧ ofKinds kinds = .error (.noValidKinds kinds)) := by
  unfold ofKinds
  split
  · next hnone => exact .inr ⟨hnone, rfl⟩
  · next hsome => exact .inl ⟨hsome, rfl⟩

/-- What is read in the pattern for some kinds are the names among them. -/
theorem Pattern.read_names {kinds : List Text} (hsome : names kinds ≠ []) :
    Reading.ofText? (Pattern.mk (names kinds)).text = some ⟨names kinds, capture⟩ :=
  Reading.ofText?_text hsome fun _ hkind => List.of_mem_filter hkind

/-- A language knows every name among some kinds. -/
def Language.Knows (language : Language) (kinds : List Text) : Prop :=
  ∀ name ∈ Pattern.names kinds, name ∈ language.kinds

instance (language : Language) (kinds : List Text) : Decidable (language.Knows kinds) :=
  inferInstanceAs (Decidable (∀ name ∈ Pattern.names kinds, name ∈ language.kinds))

/-- The blocks with such a name that a language finds in a tree by itself: none if there is a name
it does not know. -/
def Language.blocks (language : Language) (kinds : List Text) (tree : Tree) : List Block :=
  if language.Knows kinds then
    tree.blocks.filter fun block => decide (block.kind ∈ Pattern.names kinds)
  else []

/-- Compiling a text that can be read makes one query if the language knows all that is asked for,
and else nothing. -/
theorem Toolkit.compile_cases (language : Language) {source : Text} {reading : Reading}
    (hread : Reading.ofText? source = some reading) (toolkit : Toolkit) :
    ((∀ kind ∈ reading.kinds, kind ∈ language.kinds) ∧ compile language source toolkit =
      ⟨.ok ⟨toolkit.queries + 1, language, reading⟩,
        { toolkit with queries := toolkit.queries + 1 },
        [.patternCompiling language.name source]⟩) ∨
    ((¬∀ kind ∈ reading.kinds, kind ∈ language.kinds) ∧
      ∃ fault, compile language source toolkit =
        ⟨.error fault, toolkit, [.patternCompiling language.name source]⟩) := by
  have hquiet : (Action.ofOption (some reading) (.host "Bad syntax") : Action Toolkit Reading)
      toolkit = ⟨.ok reading, toolkit, []⟩ := rfl
  unfold compile
  rw [Action.bind_of_ok (Action.emit_apply _ _), hread, Action.bind_of_quiet hquiet]
  cases hunknown : reading.kinds.find? fun kind => decide (kind ∉ language.kinds) with
  | some kind =>
    refine .inr ⟨fun hknown => ?_, .unknownKind kind, rfl⟩
    have hkind : kind ∉ language.kinds := by simpa using List.find?_some hunknown
    exact hkind (hknown kind (List.mem_of_find?_eq_some hunknown))
  | none => exact .inl ⟨by simpa using hunknown, rfl⟩

/-- The kinds of the blocks that a query captures under the name of patterns. -/
def Query.kinds (query : Query) : List Text :=
  if query.reading.capture = Pattern.capture then query.reading.kinds else []

/-- The name of patterns hides none of the kinds that are asked for. -/
@[simp] theorem Query.kinds_mk (number : Nat) (language : Language) (kinds : List Text) :
    (Query.mk number language ⟨kinds, Pattern.capture⟩).kinds = kinds := if_pos rfl

/-- The blocks of a tree that a query captures under the name of patterns. -/
def Query.blocks (query : Query) (tree : Tree) : List Block :=
  tree.blocks.filter fun block => decide (block.kind ∈ query.kinds)

/-- Of what a match captures, the block alone goes by the name that the query was given. -/
theorem Toolkit.captured_capturesOf (query : Query) (tree : Tree) (block : Block) :
    ((capturesOf query tree block).filter (·.name = (Pattern.capture : Text))).map Capture.block =
      if query.reading.capture = Pattern.capture then [block] else [] := by
  have hother : ("other" : Text) ≠ Pattern.capture := by decide
  unfold capturesOf
  split <;> split <;> simp_all

/-- So a query finds the blocks that it captures under the name of patterns. -/
theorem Toolkit.captured_matchesOf (query : Query) (tree : Tree) :
    ((matchesOf query tree).flatten.filter (·.name = (Pattern.capture : Text))).map Capture.block =
      query.blocks tree := by
  have hall (blocks : List Block) :
      (((blocks.map (capturesOf query tree)).flatten.filter
        (·.name = (Pattern.capture : Text))).map Capture.block) =
        if query.reading.capture = Pattern.capture then blocks else [] := by
    induction blocks with
    | nil => simp
    | cons block rest ih =>
      rw [List.map_cons, List.flatten_cons, List.filter_append, List.map_append, ih,
        captured_capturesOf]
      split <;> rfl
  rw [matchesOf, hall, Query.blocks, Query.kinds]
  split
  · rfl
  · simp

/-- Running a query changes nothing, and finds its matches if the tree was not deleted. -/
theorem Toolkit.runQuery_apply (query : Query) (tree : Tree) (toolkit : Toolkit) :
    ∃ result, runQuery query tree toolkit =
        ⟨result, toolkit, [.patternMatching query.number tree.number]⟩ ∧
      (tree.number ∉ toolkit.deletedTrees → result = .ok (matchesOf query tree)) := by
  unfold runQuery
  rw [Action.bind_of_ok (Action.emit_apply _ _), Action.bind_of_quiet (Action.get_apply _)]
  by_cases hdeleted : tree.number ∈ toolkit.deletedTrees
  · rw [if_pos hdeleted, Action.bind_of_error (Action.fail_apply _ _)]
    exact ⟨.error (.treeDeleted tree.number), rfl, absurd hdeleted⟩
  · rw [if_neg hdeleted]
    exact ⟨.ok (matchesOf query tree), rfl, fun _ => rfl⟩

namespace PatternCache

/-- A pattern is compiled if there is a name and the language knows all of them; else nothing is
made and a fault tells why. -/
theorem build_cases (language : Language) (kinds : List Text) (grove : Grove D L) :
    (∃ pattern : Pattern, pattern.kinds = Pattern.names kinds ∧ language.Knows kinds ∧
      build Grove.cacheSite (some language) kinds grove =
        ⟨.ok ⟨grove.workshop.toolkit.queries + 1, language, ⟨pattern.kinds, Pattern.capture⟩⟩,
          grove.compile, [.patternCompiling language.name pattern.text]⟩) ∨
    (Pattern.names kinds = [] ∨ ¬language.Knows kinds) ∧
      ∃ fault trace, (∀ event ∈ trace, event.Idle) ∧
        build Grove.cacheSite (some language) kinds grove = ⟨.error fault, grove, trace⟩ := by
  have hlanguage : (Action.ofOption (some language) .missingLanguage :
      Action (Grove D L) Language) grove = ⟨.ok language, grove, []⟩ := rfl
  unfold build
  rw [Action.bind_of_quiet hlanguage]
  rcases Pattern.ofKinds_cases kinds with ⟨hsome, hpattern⟩ | ⟨hnone, hfault⟩
  · rw [hpattern, Action.bind_of_quiet (Action.ofExcept_apply _ _)]
    rcases Toolkit.compile_cases language (Pattern.read_names hsome) grove.workshop.toolkit with
      ⟨hknows, hmade⟩ | ⟨hunknown, fault, hfails⟩
    · refine .inl ⟨⟨Pattern.names kinds⟩, rfl, hknows, ?_⟩
      simp [Grove.compile, Grove.cacheSite, Grove.toolkitPart, Lens.comp, Grove.workshopPart,
        Workshop.toolkitPart, hmade]
    · refine .inr ⟨.inr hunknown, fault,
        [.patternCompiling language.name (Pattern.mk (Pattern.names kinds)).text],
        by simp [Event.Idle, Event.touches], ?_⟩
      simp [Grove.cacheSite, Grove.toolkitPart, Lens.comp, Grove.workshopPart,
        Workshop.toolkitPart, hfails]
  · rw [hfault]
    exact .inr ⟨.inl hnone, _, [], by simp, Action.bind_of_error (Action.ofExcept_apply _ _) _⟩

/-- The ways in which asking for a query can end. -/
inductive Fetched (key : Text) (language : Language) (kinds : List Text) (grove : Grove D L) :
    Outcome (Grove D L) (Option Query) → Prop
  /-- The query is kept from before. -/
  | kept {query : Query}
      (hkept : grove.forest.cache.queries.get? (keyOf key kinds) = some query) :
      Fetched key language kinds grove ⟨.ok (some query), grove, []⟩
  /-- The query is compiled now. -/
  | compiled {query : Query} {pattern : Pattern}
      (hnew : grove.forest.cache.queries.get? (keyOf key kinds) = none)
      (hquery : query =
        ⟨grove.workshop.toolkit.queries + 1, language, ⟨pattern.kinds, Pattern.capture⟩⟩)
      (hpattern : pattern.kinds = Pattern.names kinds) (hknows : language.Knows kinds) :
      Fetched key language kinds grove
        ⟨.ok (some query), grove.keep (keyOf key kinds) query,
          [.patternCompiling language.name pattern.text]⟩
  /-- The query cannot be compiled. -/
  | failed (reported : List Text) {trace : List Event} (hidle : ∀ event ∈ trace, event.Idle)
      (hcannot : Pattern.names kinds = [] ∨ ¬language.Knows kinds) :
      Fetched key language kinds grove ⟨.ok none, grove.withReported reported, trace⟩

/-- Asking for a query ends in one of these ways. -/
theorem get_fetched (key : Text) (language : Language) (kinds : List Text) (grove : Grove D L) :
    Fetched key language kinds grove
      (get Grove.cacheSite key (some language) kinds grove) := by
  unfold get
  rw [Action.bind_of_quiet (Action.look_apply _ _)]
  dsimp only
  cases hkept : (Grove.cacheSite.part.get grove).queries.get? (keyOf key kinds) with
  | some query => exact .kept hkept
  | none =>
    rcases build_cases language kinds grove with
      ⟨pattern, hpattern, hknows, hbuild⟩ | ⟨hcannot, fault, trace, hidle, hbuild⟩
    · have hattempt : Action.attempt (build Grove.cacheSite (some language) kinds) grove =
          ⟨.ok (.ok
              ⟨grove.workshop.toolkit.queries + 1, language, ⟨pattern.kinds, Pattern.capture⟩⟩),
            grove.compile, [.patternCompiling language.name pattern.text]⟩ := by
        rw [Action.attempt_apply, hbuild]
      dsimp only
      rw [Action.bind_of_ok hattempt]
      exact .compiled hkept rfl hpattern hknows
    · have hattempt : Action.attempt (build Grove.cacheSite (some language) kinds) grove =
          ⟨.ok (.error fault), grove, trace⟩ := by
        rw [Action.attempt_apply, hbuild]
      dsimp only
      rw [Action.bind_of_ok hattempt]
      dsimp only
      rw [Action.bind_of_quiet (Action.look_apply _ _)]
      by_cases hreported : keyOf key kinds ∉ (Grove.cacheSite.part.get grove).reported
      · rw [if_pos hreported]
        refine Fetched.failed (grove.forest.cache.reported ++ [keyOf key kinds]) ?_ hcannot
        intro event hevent
        rcases List.mem_append.mp hevent with hold | hnew
        · exact hidle event hold
        · rw [List.mem_singleton.mp hnew]
          rfl
      · rw [if_neg hreported, Action.pure_apply]
        dsimp only
        rw [List.append_nil]
        exact Fetched.failed grove.forest.cache.reported hidle hcannot

/-- The ways in which searching a tree can end. -/
inductive Searched (key : Text) (language : Language) (tree : Tree) (kinds : List Text)
    (grove : Grove D L) : Outcome (Grove D L) (List Block) → Prop
  /-- A query that was kept from before is run. -/
  | kept {query : Query} {result : Except Fault (List Block)}
      (hkept : grove.forest.cache.queries.get? (keyOf key kinds) = some query)
      (hresult : tree.number ∉ grove.workshop.toolkit.deletedTrees →
        result = .ok (query.blocks tree)) :
      Searched key language tree kinds grove
        ⟨result, grove, [.patternMatching query.number tree.number]⟩
  /-- A query is compiled now and run. -/
  | compiled {query : Query} {pattern : Pattern} {result : Except Fault (List Block)}
      (hnew : grove.forest.cache.queries.get? (keyOf key kinds) = none)
      (hquery : query =
        ⟨grove.workshop.toolkit.queries + 1, language, ⟨pattern.kinds, Pattern.capture⟩⟩)
      (hpattern : pattern.kinds = Pattern.names kinds) (hknows : language.Knows kinds)
      (hresult : tree.number ∉ grove.workshop.toolkit.deletedTrees →
        result = .ok (query.blocks tree)) :
      Searched key language tree kinds grove
        ⟨result, grove.keep (keyOf key kinds) query,
          [.patternCompiling language.name pattern.text,
            .patternMatching query.number tree.number]⟩
  /-- There is no query, so nothing is found. -/
  | failed (reported : List Text) {trace : List Event} (hidle : ∀ event ∈ trace, event.Idle)
      (hcannot : Pattern.names kinds = [] ∨ ¬language.Knows kinds) :
      Searched key language tree kinds grove ⟨.ok [], grove.withReported reported, trace⟩

/-- Searching a tree ends in one of these ways. -/
theorem find_searched (key : Text) (language : Language) (tree : Tree) (kinds : List Text)
    (grove : Grove D L) :
    Searched key language tree kinds grove
      (find Grove.cacheSite key language tree kinds grove) := by
  have hrun (query : Query) (after : Grove D L) :
      ∃ result, (do
        let found ← Action.zoom Grove.cacheSite.toolkit (Toolkit.runQuery query tree)
        return (found.flatten.filter (·.name = (Pattern.capture : Text))).map Capture.block :
          Action (Grove D L) (List Block)) after =
          ⟨result, after, [.patternMatching query.number tree.number]⟩ ∧
        (tree.number ∉ after.workshop.toolkit.deletedTrees →
          result = .ok (query.blocks tree)) := by
    obtain ⟨result, hresult, hmatches⟩ :=
      Toolkit.runQuery_apply query tree (Grove.cacheSite.toolkit.get after)
    rw [bind_pure_comp, Action.map_apply, Action.zoom_apply, hresult]
    dsimp only
    rw [Lens.set_get]
    refine ⟨_, rfl, fun halive => ?_⟩
    rw [hmatches halive, Except.map, Toolkit.captured_matchesOf]
  have hfetched := get_fetched key language kinds grove
  unfold find
  rcases hget : get Grove.cacheSite key (some language) kinds grove with ⟨result, reached, trace⟩
  rw [hget] at hfetched
  rw [Action.bind_apply, hget]
  cases hfetched with
  | @kept query hkept =>
    obtain ⟨found, hfound, hresult⟩ := hrun query grove
    dsimp only
    rw [hfound]
    exact .kept hkept hresult
  | @compiled query pattern hnew hquery hpattern hknows =>
    obtain ⟨found, hfound, hresult⟩ := hrun query (grove.keep (keyOf key kinds) query)
    dsimp only
    rw [hfound]
    exact .compiled hnew hquery hpattern hknows hresult
  | failed reported hidle hcannot =>
    dsimp only
    rw [Action.pure_apply]
    dsimp only
    rw [List.append_nil]
    exact .failed reported hidle hcannot

/-- A query that is kept stays. -/
theorem find_keeps (key : Text) (language : Language) (tree : Tree) (kinds : List Text)
    {grove : Grove D L} {text : Text} {query : Query}
    (hkept : grove.forest.cache.queries.get? text = some query) :
    (find Grove.cacheSite key language tree kinds grove).state.forest.cache.queries.get? text =
      some query := by
  have hsearched := find_searched key language tree kinds grove
  generalize find Grove.cacheSite key language tree kinds grove = outcome at hsearched
  cases hsearched with
  | kept _ => exact hkept
  | failed reported hidle => exact hkept
  | compiled hnew hquery =>
    have hne : text ≠ keyOf key kinds := by
      rintro rfl
      cases hnew.symm.trans hkept
    exact (Table.get?_insert_of_ne _ _ hne).trans hkept

/-- In a tree that was not deleted, a search finds what the language would find by itself, unless
a query is kept that the language would not compile. -/
theorem find_result {key : Text} {language : Language} {tree : Tree} {kinds : List Text}
    {grove : Grove D L} (halive : tree.number ∉ grove.workshop.toolkit.deletedTrees)
    (hown : ∀ query, grove.forest.cache.queries.get? (keyOf key kinds) = some query →
      query.kinds = Pattern.names kinds ∧ language.Knows kinds) :
    (find Grove.cacheSite key language tree kinds grove).result =
      .ok (language.blocks kinds tree) := by
  have hsearched := find_searched key language tree kinds grove
  generalize find Grove.cacheSite key language tree kinds grove = outcome at hsearched
  cases hsearched with
  | kept hkept hresult =>
    obtain ⟨hkinds, hknows⟩ := hown _ hkept
    rw [Language.blocks, if_pos hknows, hresult halive, Query.blocks, hkinds]
  | compiled hnew hquery hpattern hknows hresult =>
    rw [Language.blocks, if_pos hknows, hresult halive, Query.blocks, hquery, Query.kinds_mk,
      hpattern]
  | failed reported hidle hcannot =>
    rcases hcannot with hnone | hunknown
    · simp [Language.blocks, hnone]
    · rw [Language.blocks, if_neg hunknown]

/-- Deleting queries one after another. -/
theorem deleteQueries_apply (queries : List Query) (grove : Grove D L) :
    Action.each queries
        (fun query => Action.zoom Grove.cacheSite.toolkit (Toolkit.deleteQuery query)) grove =
      ⟨.ok (), grove.discard queries, queries.map fun query => .queryDeleted query.number⟩ := by
  induction queries generalizing grove with
  | nil => rfl
  | cons query rest ih =>
    have hfirst : Action.zoom Grove.cacheSite.toolkit (Toolkit.deleteQuery query) grove =
        ⟨.ok (), grove.discard [query], [.queryDeleted query.number]⟩ := rfl
    rw [Action.each, Action.bind_of_ok hfirst, ih]
    simp [Grove.discard]

/-- Clearing the cache deletes all queries that are kept. -/
theorem clear_apply (grove : Grove D L) :
    clear Grove.cacheSite grove = ⟨.ok (), grove.clear, grove.clearing⟩ := by
  unfold clear
  rw [Action.bind_of_quiet (Action.look_apply _ _), Action.bind_of_ok (deleteQueries_apply _ _),
    Action.adjust_apply]
  simp only [List.append_nil]
  rfl

end PatternCache

/-- Dropping all compiled patterns clears the cache. -/
theorem Forest.resetPatterns_apply {σ : Type} (part : Lens σ (Grove D L)) (s : σ) :
    resetPatterns part s = ⟨.ok (), part.set (part.get s).clear s, (part.get s).clearing⟩ := by
  rw [resetPatterns, Action.zoom_apply, PatternCache.clear_apply]

end ClosingLabels
