import ClosingLabels.Proofs.Shelf
import ClosingLabels.Scenario.Patterns
import Mathlib.Data.List.Induction

/-!
# Queries fetched and kept

A query that is kept answers for the pattern that it was compiled for. So whoever asks for kinds gets
what compiling their own pattern would give now, unless some other kinds were asked for since the
queries were last dropped that go by the same text. One call at most compiles with success until
then, and one at most reports that the pattern cannot be compiled, however often it is tried.
-/

namespace ClosingLabels

/-- What a language was before it learned more kinds. -/
structure Language.Before (old now : Language) : Prop where
  name : old.name = now.name
  noisy : old.noisy = now.noisy
  kinds : old.kinds <+: now.kinds

namespace Language.Before

theorem refl (language : Language) : language.Before language :=
  ⟨rfl, rfl, List.prefix_refl _⟩

theorem trans {old later now : Language} (h : old.Before later) (hlater : later.Before now) :
    old.Before now :=
  ⟨h.name.trans hlater.name, h.noisy.trans hlater.noisy, h.kinds.trans hlater.kinds⟩

/-- Kinds that were known stay known. -/
theorem knows {old now : Language} (h : old.Before now) {kinds : List Text}
    (hknows : old.Knows kinds) : now.Knows kinds :=
  fun kind hkind => h.kinds.subset (hknows kind hkind)

end Language.Before

namespace PatternCache

/-- The comma that stands between kinds. -/
def comma : UInt16 := 0x2C

/-- What names there are among kinds shows in the text under which a query for them is kept, if no
kind has a comma. -/
theorem names_of_keyOf {key other : Text} {kinds others : List Text} (hkey : 0 ∉ key)
    (hother : 0 ∉ other) (hkinds : ∀ kind ∈ kinds, comma ∉ kind)
    (hothers : ∀ kind ∈ others, comma ∉ kind) (hsame : keyOf key kinds = keyOf other others) :
    key = other ∧ Pattern.names kinds = Pattern.names others := by
  have hnames {kinds : List Text} (hkinds : ∀ kind ∈ kinds, comma ∉ kind) :
      Pattern.names kinds = Pattern.names ((Text.join "," kinds).splitOn comma) := by
    by_cases hne : kinds = []
    · rw [hne]
      decide +kernel
    · exact congrArg Pattern.names (List.splitOn_intercalate comma hkinds hne).symm
  obtain rfl := name_of_keyOf hkey hother hsame
  have hjoin : Text.join "," kinds = Text.join "," others := by
    simpa [keyOf] using hsame
  exact ⟨rfl, by rw [hnames hkinds, hnames hothers, hjoin]⟩

end PatternCache

namespace Scenario

open PatternCache (keyOf)

namespace PatternRun

variable {run : PatternRun} {key text : Text} {name : String} {kinds : List Text}

/-- The run that some steps lead to. -/
def after (run : PatternRun) (steps : List PatternStep) : PatternRun :=
  steps.foldl (fun run step => (step.perform run).state) run

/-- A run in which one more query was made. -/
def compile (run : PatternRun) : PatternRun :=
  { run with toolkit := { run.toolkit with queries := run.toolkit.queries + 1 } }

/-- A run in which a query was made and is kept under a text. -/
def keep (run : PatternRun) (text : Text) (query : Query) : PatternRun :=
  { run.compile with
    cache := {
      queries := run.cache.queries.insert text query
      reported := run.cache.reported.filter (· ≠ text) } }

/-- A run in which the failure for a text has been reported. -/
def note (run : PatternRun) (text : Text) : PatternRun :=
  { run with cache := { run.cache with reported := run.cache.reported ++ [text] } }

/-- The language of some name can compile a pattern for kinds. -/
structure Compiles (run : PatternRun) (name : String) (kinds : List Text) (language : Language) :
    Prop where
  known : run.languages.get? name = some language
  names : Pattern.names kinds ≠ []
  knows : language.Knows kinds

/-- Compiling the pattern for some kinds, with nothing kept. -/
def build (run : PatternRun) (name : String) (kinds : List Text) : Outcome PatternRun Query :=
  PatternCache.build site (run.languages.get? name) kinds run

/-- Some events report nothing. -/
def Silent (trace : List Event) : Prop :=
  ∀ event ∈ trace, ∀ failure cause, event ≠ .error failure cause

/-- A pattern is compiled if the language can do it; else nothing is made, and nothing is
reported. -/
theorem build_cases (run : PatternRun) (name : String) (kinds : List Text) :
    (∃ language, run.Compiles name kinds language ∧ run.build name kinds =
      ⟨.ok ⟨run.toolkit.queries + 1, language, ⟨Pattern.names kinds, Pattern.capture⟩⟩, run.compile,
        [.patternCompiling language.name (Pattern.mk (Pattern.names kinds)).text]⟩) ∨
    (∀ language, ¬ run.Compiles name kinds language) ∧
      ∃ fault trace, Silent trace ∧ run.build name kinds = ⟨.error fault, run, trace⟩ := by
  unfold build
  cases hlanguage : run.languages.get? name with
  | none =>
    refine .inr ⟨fun language h => ?_, .missingLanguage, [], by simp [Silent], rfl⟩
    cases hlanguage.symm.trans h.known
  | some language =>
    have hone {other : Language} (h : run.Compiles name kinds other) : other = language :=
      Option.some.inj (h.known.symm.trans hlanguage)
    have hquiet : (Action.ofOption (some language) .missingLanguage :
        Action PatternRun Language) run = ⟨.ok language, run, []⟩ := rfl
    unfold PatternCache.build
    rw [Action.bind_of_quiet hquiet]
    rcases Pattern.ofKinds_cases kinds with ⟨hnames, hpattern⟩ | ⟨hnone, hfault⟩
    · rw [hpattern, Action.bind_of_quiet (Action.ofExcept_apply _ _), Action.zoom_apply]
      rcases Toolkit.compile_cases language (Pattern.read_names hnames) run.toolkit with
        ⟨hknows, hmade⟩ | ⟨hunknown, fault, hfails⟩
      · refine .inl ⟨language, ⟨hlanguage, hnames, hknows⟩, ?_⟩
        simp [site, compile, hmade]
      · refine .inr ⟨fun other h => hunknown (hone h ▸ h.knows), fault,
          [.patternCompiling language.name (Pattern.mk (Pattern.names kinds)).text],
          by simp [Silent], ?_⟩
        simp [site, hfails]
    · rw [hfault]
      exact .inr ⟨fun other h => h.names hnone, _, [], by simp [Silent],
        Action.bind_of_error (Action.ofExcept_apply _ _) _⟩

/-- Compiling reports nothing by itself. -/
theorem build_silent (run : PatternRun) (name : String) (kinds : List Text) :
    Silent (run.build name kinds).trace := by
  rcases build_cases run name kinds with ⟨language, -, hbuild⟩ | ⟨-, fault, trace, hsilent, hbuild⟩
  · rw [hbuild]
    simp [Silent]
  · rw [hbuild]
    exact hsilent

/-- Compiling fails where the language cannot do it, and only there. -/
theorem build_fails_iff (run : PatternRun) (name : String) (kinds : List Text) :
    (∃ fault, (run.build name kinds).result = .error fault) ↔
      ∀ language, ¬ run.Compiles name kinds language := by
  rcases build_cases run name kinds with
    ⟨language, hcompiles, hbuild⟩ | ⟨hcannot, fault, _, _, hbuild⟩
  · rw [hbuild]
    constructor
    · rintro ⟨fault, hfault⟩
      cases hfault
    · exact fun hcannot => absurd hcompiles (hcannot language)
  · rw [hbuild]
    exact ⟨fun _ => hcannot, fun _ => ⟨fault, rfl⟩⟩

/-- What can be compiled has a pattern that asks for the names among the kinds. -/
theorem Compiles.pattern {language : Language} (h : run.Compiles name kinds language) :
    Pattern.ofKinds kinds = .ok ⟨Pattern.names kinds⟩ := by
  rcases Pattern.ofKinds_cases kinds with ⟨-, hpattern⟩ | ⟨hnone, -⟩
  · exact hpattern
  · exact absurd hnone h.names

/-- The ways in which asking for a query can end. -/
inductive Answered (run : PatternRun) (key : Text) (name : String) (kinds : List Text) :
    Outcome PatternRun (Option Query) → Prop
  /-- The query is kept from before. -/
  | kept {query : Query} (hkept : run.cache.queries.get? (keyOf key kinds) = some query) :
      Answered run key name kinds ⟨.ok (some query), run, []⟩
  /-- The query is compiled now. -/
  | compiled {language : Language}
      (hnew : run.cache.queries.get? (keyOf key kinds) = none)
      (hcompiles : run.Compiles name kinds language) :
      Answered run key name kinds
        ⟨.ok (some ⟨run.toolkit.queries + 1, language, ⟨Pattern.names kinds, Pattern.capture⟩⟩),
          run.keep (keyOf key kinds)
            ⟨run.toolkit.queries + 1, language, ⟨Pattern.names kinds, Pattern.capture⟩⟩,
          (run.build name kinds).trace⟩
  /-- The pattern cannot be compiled, which was reported before. -/
  | known {fault : Fault}
      (hnew : run.cache.queries.get? (keyOf key kinds) = none)
      (hfails : (run.build name kinds).result = .error fault)
      (hreported : keyOf key kinds ∈ run.cache.reported) :
      Answered run key name kinds ⟨.ok none, run, (run.build name kinds).trace⟩
  /-- The pattern cannot be compiled, which is reported now. -/
  | reported {fault : Fault}
      (hnew : run.cache.queries.get? (keyOf key kinds) = none)
      (hfails : (run.build name kinds).result = .error fault)
      (hreported : keyOf key kinds ∉ run.cache.reported) :
      Answered run key name kinds
        ⟨.ok none, run.note (keyOf key kinds),
          (run.build name kinds).trace ++ [.error (.patternBuild key) (some fault)]⟩

/-- Asking for a query ends in one of these ways. -/
theorem perform_get (run : PatternRun) (key : Text) (name : String) (kinds : List Text) :
    run.Answered key name kinds ((PatternStep.get key name kinds).perform run) := by
  have hperform : (PatternStep.get key name kinds).perform run =
      PatternCache.get site key (run.languages.get? name) kinds run := by
    rw [PatternStep.perform, Action.bind_of_quiet (Action.get_apply _)]
  rw [hperform]
  unfold PatternCache.get
  rw [Action.bind_of_quiet (Action.look_apply _ _)]
  dsimp only
  cases hkept : (site.part.get run).queries.get? (keyOf key kinds) with
  | some query => exact .kept hkept
  | none =>
    have hattempt : Action.attempt (PatternCache.build site (run.languages.get? name) kinds) run =
        ⟨.ok (run.build name kinds).result, (run.build name kinds).state,
          (run.build name kinds).trace⟩ := rfl
    dsimp only
    rw [Action.bind_of_ok hattempt]
    rcases build_cases run name kinds with
      ⟨language, hcompiles, hbuild⟩ | ⟨hcannot, fault, trace, -, hbuild⟩
    · have h : run.Answered key name kinds _ := .compiled hkept hcompiles
      rw [hbuild] at h ⊢
      exact h
    · have hfails : (run.build name kinds).result = .error fault := by rw [hbuild]
      have hlook : Action.look site.part run = ⟨.ok run.cache, run, []⟩ := rfl
      by_cases hreported : keyOf key kinds ∈ run.cache.reported
      · have h := Answered.known hkept hfails hreported
        rw [hbuild] at h ⊢
        dsimp only
        rw [Action.bind_of_quiet hlook, if_neg (not_not_intro hreported), Action.pure_apply]
        simpa using h
      · have h := Answered.reported hkept hfails hreported
        rw [hbuild] at h ⊢
        dsimp only
        rw [Action.bind_of_quiet hlook, if_pos hreported]
        exact h

/-! ## One step -/

/-- Learning adds to the kinds of one language, if there is one of that name. -/
theorem perform_learn (run : PatternRun) (name : String) (kinds : List Text) :
    ((PatternStep.learn name kinds).perform run).state =
      match run.languages.get? name with
      | none => run
      | some language =>
        { run with
          languages := run.languages.insert name
            { language with kinds := language.kinds ++ kinds } } := by
  rw [PatternStep.perform, Action.bind_of_quiet (Action.get_apply _)]
  cases run.languages.get? name <;> rfl

/-- Clearing leaves nothing in the cache. -/
theorem perform_clear (run : PatternRun) :
    (PatternStep.clear.perform run).state.cache = {} ∧
      (PatternStep.clear.perform run).state.languages = run.languages := by
  have hdelete (queries : List Query) (run : PatternRun) :
      ∃ toolkit trace, Action.each queries
        (fun query => Action.zoom site.toolkit (Toolkit.deleteQuery query)) run =
          ⟨.ok (), { run with toolkit }, trace⟩ := by
    induction queries generalizing run with
    | nil => exact ⟨run.toolkit, [], rfl⟩
    | cons query rest ih =>
      have hfirst : Action.zoom site.toolkit (Toolkit.deleteQuery query) run =
          ⟨.ok (), { run with
            toolkit := { run.toolkit with
              deletedQueries := query.number :: run.toolkit.deletedQueries } },
            [.queryDeleted query.number]⟩ := rfl
      obtain ⟨toolkit, trace, hrest⟩ := ih { run with
        toolkit := { run.toolkit with
          deletedQueries := query.number :: run.toolkit.deletedQueries } }
      refine ⟨toolkit, .queryDeleted query.number :: trace, ?_⟩
      rw [Action.each, Action.bind_of_ok hfirst, hrest]
      rfl
  obtain ⟨toolkit, trace, hdone⟩ := hdelete run.cache.queries.values run
  have hclear : PatternCache.clear site run =
      ⟨.ok (), { run with cache := {}, toolkit }, trace ++ []⟩ := by
    rw [PatternCache.clear, Action.bind_of_quiet (Action.look_apply _ _)]
    exact (Action.bind_of_ok hdone _).trans rfl
  rw [PatternStep.perform, Action.bind_of_ok hclear]
  exact ⟨rfl, rfl⟩

/-- A language stays under its name and may learn. -/
theorem language_perform {language : Language} (h : run.languages.get? name = some language)
    (step : PatternStep) :
    ∃ now, (step.perform run).state.languages.get? name = some now ∧ language.Before now := by
  cases step with
  | get key other kinds =>
    have hanswered := perform_get run key other kinds
    generalize (PatternStep.get key other kinds).perform run = outcome at hanswered
    cases hanswered <;> exact ⟨language, h, .refl language⟩
  | clear =>
    rw [(perform_clear run).2]
    exact ⟨language, h, .refl language⟩
  | learn other more =>
    rw [perform_learn]
    cases hlearner : run.languages.get? other with
    | none => exact ⟨language, h, .refl language⟩
    | some learner =>
      by_cases hname : name = other
      · obtain rfl := hname
        obtain rfl := Option.some.inj (h.symm.trans hlearner)
        exact ⟨_, Table.get?_insert_self _ _ _, rfl, rfl, List.prefix_append _ _⟩
      · exact ⟨language, (Table.get?_insert_of_ne _ _ hname).trans h, .refl language⟩

/-- What can be compiled can be compiled later. -/
theorem Compiles.perform {language : Language} (h : run.Compiles name kinds language)
    (step : PatternStep) :
    ∃ now, (step.perform run).state.Compiles name kinds now ∧ language.Before now := by
  obtain ⟨now, hnow, hbefore⟩ := language_perform h.known step
  exact ⟨now, ⟨hnow, h.names, hbefore.knows h.knows⟩, hbefore⟩

/-- A query that is kept stays until the queries are dropped. -/
theorem kept_perform {query : Query} (h : run.cache.queries.get? text = some query)
    {step : PatternStep} (hstep : step ≠ .clear) :
    (step.perform run).state.cache.queries.get? text = some query := by
  cases step with
  | clear => exact absurd rfl hstep
  | learn name kinds =>
    rw [perform_learn]
    split <;> exact h
  | get key name kinds =>
    have hanswered := perform_get run key name kinds
    generalize (PatternStep.get key name kinds).perform run = outcome at hanswered
    cases hanswered with
    | compiled hnew =>
      have hne : text ≠ keyOf key kinds := by
        rintro rfl
        cases hnew.symm.trans h
      exact (Table.get?_insert_of_ne _ _ hne).trans h
    | _ => exact h

/-- Under a text either a query is kept or a failure has been reported. -/
def Tried (run : PatternRun) (text : Text) : Prop :=
  (∃ query, run.cache.queries.get? text = some query) ∨ text ∈ run.cache.reported

/-- What was tried is not forgotten until the queries are dropped. -/
theorem Tried.perform (h : run.Tried text) {step : PatternStep} (hstep : step ≠ .clear) :
    (step.perform run).state.Tried text := by
  rcases h with ⟨query, hkept⟩ | hreported
  · exact .inl ⟨query, kept_perform hkept hstep⟩
  cases step with
  | clear => exact absurd rfl hstep
  | learn name kinds =>
    rw [perform_learn]
    split <;> exact .inr hreported
  | get key name kinds =>
    have hanswered := perform_get run key name kinds
    generalize (PatternStep.get key name kinds).perform run = outcome at hanswered
    cases hanswered with
    | @compiled language hnew hcompiles =>
      by_cases htext : text = keyOf key kinds
      · rw [htext]
        exact .inl ⟨_, Table.get?_insert_self _ _ _⟩
      · exact .inr (List.mem_filter.mpr ⟨hreported, by simpa using htext⟩)
    | reported => exact .inr (List.mem_append_left _ hreported)
    | _ => exact .inr hreported

/-- A query that was given is kept. -/
theorem kept_perform_get {query : Query}
    (h : ((PatternStep.get key name kinds).perform run).result = .ok (some query)) :
    ((PatternStep.get key name kinds).perform run).state.cache.queries.get? (keyOf key kinds) =
      some query := by
  have hanswered := perform_get run key name kinds
  generalize (PatternStep.get key name kinds).perform run = outcome at hanswered h
  cases hanswered with
  | kept hkept =>
    cases h
    exact hkept
  | compiled =>
    cases h
    exact Table.get?_insert_self _ _ _
  | known => cases h
  | reported => cases h

/-- Whoever asks for a query tries its text. -/
theorem tried_perform_get (run : PatternRun) (key : Text) (name : String) (kinds : List Text) :
    ((PatternStep.get key name kinds).perform run).state.Tried (keyOf key kinds) := by
  have hanswered := perform_get run key name kinds
  generalize (PatternStep.get key name kinds).perform run = outcome at hanswered
  cases hanswered with
  | kept hkept => exact .inl ⟨_, hkept⟩
  | compiled => exact .inl ⟨_, Table.get?_insert_self _ _ _⟩
  | known _ _ hreported => exact .inr hreported
  | reported => exact .inr (List.mem_append_right _ (List.mem_singleton.mpr rfl))

/-! ## Many steps -/

theorem after_append (run : PatternRun) (steps more : List PatternStep) :
    run.after (steps ++ more) = (run.after steps).after more := List.foldl_append

/-- What steps other than dropping the queries preserve, runs without that preserve. -/
theorem after_induction (fine : PatternRun → Prop)
    (hstep : ∀ run (step : PatternStep), step ≠ .clear → fine run → fine (step.perform run).state)
    {steps : List PatternStep} (hclear : .clear ∉ steps) (h : fine run) :
    fine (run.after steps) := by
  induction steps generalizing run with
  | nil => exact h
  | cons step rest ih =>
    have hfirst : step ≠ .clear := fun hstep => hclear (hstep ▸ List.mem_cons_self)
    exact ih (fun hmem => hclear (List.mem_cons_of_mem step hmem)) (hstep run step hfirst h)

/-- A query that is kept under a text was compiled for some call since the queries were last
dropped, by the language of that call as it was then. -/
def Due (steps : List PatternStep) (run : PatternRun) (text : Text) (query : Query) : Prop :=
  ∃ earlier key name kinds since language,
    steps = earlier ++ .get key name kinds :: since ∧ .clear ∉ since ∧ text = keyOf key kinds ∧
    run.Compiles name kinds language ∧ query.language.Before language ∧
    query.kinds = Pattern.names kinds

/-- That is so for every query that is kept. -/
def Accounted (steps : List PatternStep) (run : PatternRun) : Prop :=
  ∀ text query, run.cache.queries.get? text = some query → Due steps run text query

/-- Another step changes nothing about that, if it is not the one that drops the queries. -/
theorem Due.perform {steps : List PatternStep} {query : Query} (h : Due steps run text query)
    {step : PatternStep} (hstep : step ≠ .clear) :
    Due (steps ++ [step]) (step.perform run).state text query := by
  obtain ⟨earlier, key, name, kinds, since, language, hsteps, hsince, htext, hcompiles, hbefore,
    hkinds⟩ := h
  obtain ⟨now, hnow, hlater⟩ := hcompiles.perform step
  refine ⟨earlier, key, name, kinds, since ++ [step], now, ?_, ?_, htext, hnow,
    hbefore.trans hlater, hkinds⟩
  · rw [hsteps, List.append_assoc, List.cons_append]
  · rw [List.mem_append, List.mem_singleton, not_or]
    exact ⟨hsince, hstep.symm⟩

/-- Every step keeps account of the queries. -/
theorem Accounted.perform {steps : List PatternStep} (h : Accounted steps run)
    (step : PatternStep) : Accounted (steps ++ [step]) (step.perform run).state := by
  intro text query hkept
  cases step with
  | clear =>
    rw [(perform_clear run).1] at hkept
    cases hkept
  | learn name kinds =>
    have hold : run.cache.queries.get? text = some query := by
      rw [perform_learn] at hkept
      split at hkept <;> exact hkept
    exact (h text query hold).perform (by simp)
  | get key name kinds =>
    have hold (hold : run.cache.queries.get? text = some query) :=
      (h text query hold).perform
        (PatternStep.noConfusion : PatternStep.get key name kinds ≠ .clear)
    have hanswered := perform_get run key name kinds
    generalize (PatternStep.get key name kinds).perform run = outcome at hanswered hold hkept
    cases hanswered with
    | @compiled language hnew hcompiles =>
      by_cases htext : text = keyOf key kinds
      · rw [htext] at hkept
        cases Option.some.inj ((Table.get?_insert_self _ _ _).symm.trans hkept)
        exact ⟨steps, key, name, kinds, [], language, rfl, List.not_mem_nil, htext,
          ⟨hcompiles.known, hcompiles.names, hcompiles.knows⟩, .refl language, rfl⟩
      · exact hold ((Table.get?_insert_of_ne _ _ htext).symm.trans hkept)
    | _ => exact hold hkept

/-- So does every run that starts with an empty cache. -/
theorem accounted_after (h : run.cache = {}) (steps : List PatternStep) :
    Accounted steps (run.after steps) := by
  induction steps using List.reverseRecOn with
  | nil =>
    intro text query hkept
    rw [after, List.foldl_nil, h] at hkept
    cases hkept
  | append_singleton steps step ih =>
    rw [after_append]
    exact ih.perform step

/-! ## Any calls -/

/-- All calls for a language key pass the same language. -/
def OneLanguage (steps : List PatternStep) : Prop :=
  ∀ key name kinds other others, .get key name kinds ∈ steps → .get key other others ∈ steps →
    name = other

/-- Calls that go by the same text ask for the same, unless the queries are dropped between them. -/
def Apart (steps : List PatternStep) : Prop :=
  ∀ earlier key name kinds since other language others later,
    steps = earlier ++ .get key name kinds :: (since ++ .get other language others :: later) →
    .clear ∉ since → keyOf key kinds = keyOf other others →
    key = other ∧ Pattern.names kinds = Pattern.names others

/-- A call that names no zero unit as part of a key and no comma as part of a kind. -/
def Plain : PatternStep → Prop
  | .get key _ kinds => 0 ∉ key ∧ ∀ kind ∈ kinds, PatternCache.comma ∉ kind
  | _ => True

instance : DecidablePred Plain
  | .get key _ kinds =>
    inferInstanceAs (Decidable (0 ∉ key ∧ ∀ kind ∈ kinds, PatternCache.comma ∉ kind))
  | .learn _ _ => isTrue trivial
  | .clear => isTrue trivial

/-- Such calls go by different texts if they ask for different patterns. -/
theorem apart_of_plain {steps : List PatternStep} (h : ∀ step ∈ steps, Plain step) :
    Apart steps := by
  rintro earlier key name kinds since other language others later rfl - hsame
  obtain ⟨hkey, hkinds⟩ := h (.get key name kinds) (by simp)
  obtain ⟨hother, hothers⟩ := h (.get other language others) (by simp)
  exact PatternCache.names_of_keyOf hkey hother hkinds hothers hsame

/-- A kept query is one that its own kinds would give now. -/
theorem compiles_of_kept {start : PatternRun} (hstart : start.cache = {}) {steps : List PatternStep}
    (hone : OneLanguage (steps ++ [.get key name kinds]))
    (hapart : Apart (steps ++ [.get key name kinds])) {query : Query}
    (hkept : (start.after steps).cache.queries.get? (keyOf key kinds) = some query) :
    ∃ language, (start.after steps).Compiles name kinds language ∧ query.language.Before language ∧
      query.kinds = Pattern.names kinds := by
  obtain ⟨earlier, other, learner, others, since, language, hsteps, hsince, htext, hcompiles,
    hbefore, hkinds⟩ := accounted_after hstart steps _ query hkept
  obtain ⟨rfl, hnames⟩ := hapart earlier other learner others since key name kinds []
    (by rw [hsteps, List.append_assoc, List.cons_append]) hsince htext.symm
  obtain rfl := hone other learner others name kinds (by simp [hsteps]) (by simp)
  rw [hnames] at hkinds
  exact ⟨language, ⟨hcompiles.known, hnames ▸ hcompiles.names,
    fun kind hkind => hcompiles.knows kind (hnames ▸ hkind)⟩, hbefore, hkinds⟩

/-- After a call nothing is reported any more for the same kinds until the queries are dropped. -/
theorem silent_again (run : PatternRun) {since : List PatternStep} (hsince : .clear ∉ since) :
    Silent ((PatternStep.get key name kinds).perform
      (((PatternStep.get key name kinds).perform run).state.after since)).trace := by
  have htried : ((((PatternStep.get key name kinds).perform run).state.after since).Tried
      (keyOf key kinds)) :=
    after_induction (fun run => run.Tried (keyOf key kinds))
      (fun _ _ hstep h => h.perform hstep) hsince (tried_perform_get run key name kinds)
  generalize ((PatternStep.get key name kinds).perform run).state.after since = later at htried
  have hanswered := perform_get later key name kinds
  generalize (PatternStep.get key name kinds).perform later = outcome at hanswered
  cases hanswered with
  | kept => simp [Silent]
  | compiled => exact build_silent later name kinds
  | known => exact build_silent later name kinds
  | reported hnew _ hreported =>
    rcases htried with ⟨query, hkept⟩ | hbefore
    · cases hnew.symm.trans hkept
    · exact absurd hbefore hreported

/-- A query that a call gave is given again until the queries are dropped, and nothing is done for
it. -/
theorem kept_again {query : Query} (run : PatternRun) {since : List PatternStep}
    (hsince : .clear ∉ since)
    (hfirst : ((PatternStep.get key name kinds).perform run).result = .ok (some query)) :
    (PatternStep.get key name kinds).perform
        (((PatternStep.get key name kinds).perform run).state.after since) =
      ⟨.ok (some query), ((PatternStep.get key name kinds).perform run).state.after since, []⟩ := by
  have hkept : (((PatternStep.get key name kinds).perform run).state.after since).cache.queries.get?
      (keyOf key kinds) = some query :=
    after_induction (fun run => run.cache.queries.get? (keyOf key kinds) = some query)
      (fun _ _ hstep h => kept_perform h hstep) hsince (kept_perform_get hfirst)
  generalize ((PatternStep.get key name kinds).perform run).state.after since = later at hkept
  have hanswered := perform_get later key name kinds
  generalize (PatternStep.get key name kinds).perform later = outcome at hanswered
  cases hanswered with
  | kept hfound =>
    obtain rfl := Option.some.inj (hkept.symm.trans hfound)
    rfl
  | compiled hnew | known hnew | reported hnew => cases hnew.symm.trans hkept

/-- From an empty cache on, after any calls, drops and learning, whoever asks for a query is answered
as if nothing were kept: with a query for the names among the kinds that the language compiled, or
with none exactly if the pattern cannot be compiled now, which has then been tried. After an earlier
call for the same nothing is reported any more until the queries are dropped, and nothing is compiled
if that call gave a query. All this as long as calls that go by one text ask for the same. -/
theorem get_as_if_built (languages : Table String Language) (toolkit : Toolkit)
    (steps : List PatternStep) (key : Text) (name : String) (kinds : List Text)
    (hone : OneLanguage (steps ++ [.get key name kinds]))
    (hapart : Apart (steps ++ [.get key name kinds])) :
    let start : PatternRun := { languages, toolkit }
    let run := start.after steps
    let built := run.build name kinds
    let asked := (PatternStep.get key name kinds).perform run
    (∃ answer, asked.result = .ok answer ∧
      (∀ query, answer = some query → ∃ language, run.languages.get? name = some language ∧
        query.language.Before language ∧ Pattern.ofKinds kinds = .ok ⟨query.kinds⟩) ∧
      (answer = none ↔ ∃ fault, built.result = .error fault) ∧
      (answer = none → asked.trace = built.trace ∨
        ∃ fault, asked.trace = built.trace ++ [.error (.patternBuild key) (some fault)])) ∧
    ∀ earlier since, steps = earlier ++ .get key name kinds :: since → .clear ∉ since →
      Silent asked.trace ∧
      ∀ query, ((PatternStep.get key name kinds).perform (start.after earlier)).result =
        .ok (some query) → asked = ⟨.ok (some query), run, []⟩ := by
  intro start run built asked
  constructor
  · have hanswered : run.Answered key name kinds asked := perform_get run key name kinds
    have hfails {fault : Fault} (h : built.result = .error fault) :
        (none : Option Query) = none ↔ ∃ fault, built.result = .error fault :=
      ⟨fun _ => ⟨fault, h⟩, fun _ => rfl⟩
    have hmade {language : Language} (h : run.Compiles name kinds language) (query : Query) :
        some query = none ↔ ∃ fault, built.result = .error fault :=
      ⟨nofun, fun hfault => absurd h ((build_fails_iff run name kinds).mp hfault language)⟩
    generalize asked = outcome at hanswered
    cases hanswered with
    | @kept query hkept =>
      obtain ⟨language, hcompiles, hbefore, hkinds⟩ := compiles_of_kept rfl hone hapart hkept
      refine ⟨some query, rfl, ?_, hmade hcompiles query, nofun⟩
      rintro found ⟨rfl⟩
      exact ⟨language, hcompiles.known, hbefore, hkinds ▸ hcompiles.pattern⟩
    | @compiled language _ hcompiles =>
      refine ⟨_, rfl, ?_, hmade hcompiles _, nofun⟩
      rintro found ⟨rfl⟩
      exact ⟨language, hcompiles.known, .refl language, hcompiles.pattern⟩
    | known _ hfault => exact ⟨none, rfl, nofun, hfails hfault, fun _ => .inl rfl⟩
    | reported _ hfault => exact ⟨none, rfl, nofun, hfails hfault, fun _ => .inr ⟨_, rfl⟩⟩
  · intro earlier since hsteps hsince
    have hrun : run = ((PatternStep.get key name kinds).perform (start.after earlier)).state.after
        since := by
      dsimp only [run]
      rw [hsteps, after_append]
      rfl
    dsimp only [asked]
    rw [hrun]
    exact ⟨silent_again _ hsince, fun query => kept_again _ hsince⟩

/-- A kind that is learned after it was asked for in vain, asked for again with a call for another
key between. -/
theorem get_as_if_built_once_learned :
    let start : PatternRun := { languages := ⟨[("l", ⟨"l", ["a"], false⟩)]⟩ }
    let steps : List PatternStep := [.get "p" "l" ["b", "-"], .get "q" "l" ["a"], .learn "l" ["b"],
      .get "p" "l" ["b", "-"], .get "q" "l" ["a"]]
    let asked := (PatternStep.get "p" "l" ["b", "-"]).perform (start.after steps)
    Silent asked.trace ∧
      asked = ⟨.ok (some ⟨2, ⟨"l", ["a", "b"], false⟩, ⟨["b"], "scope"⟩⟩), start.after steps, []⟩ := by
  intro start steps asked
  have hplain : ∀ step ∈ steps ++ [.get "p" "l" ["b", "-"]], Plain step := by decide +kernel
  have hone : OneLanguage (steps ++ [.get "p" "l" ["b", "-"]]) := by
    have hname : ∀ key name kinds, .get key name kinds ∈ steps ++ [.get "p" "l" ["b", "-"]] →
        name = "l" := by
      intro key name kinds h
      simp only [steps, List.cons_append, List.nil_append, List.mem_cons, List.not_mem_nil,
        PatternStep.get.injEq, reduceCtorEq, or_false, false_or] at h
      tauto
    intro key name kinds other others h hother
    rw [hname key name kinds h, hname key other others hother]
  obtain ⟨hsilent, hagain⟩ := (get_as_if_built start.languages start.toolkit steps "p" "l"
    ["b", "-"] hone (apart_of_plain hplain)).2 (steps.take 3) [.get "q" "l" ["a"]] rfl (by simp)
  exact ⟨hsilent, hagain _ rfl⟩

/-- Two lists that go by one text: the first names two kinds, and the second none, for a comma is
no part of a name. The query for the first is given for the second, for which none can be
compiled. -/
theorem get_shared :
    let start : PatternRun := { languages := ⟨[("l", ⟨"l", ["a", "b"], false⟩)]⟩ }
    let run := start.after [.get "p" "l" ["a", "b"]]
    ((PatternStep.get "p" "l" ["a,b"]).perform run).result =
        .ok (some ⟨1, ⟨"l", ["a", "b"], false⟩, ⟨["a", "b"], "scope"⟩⟩) ∧
      (run.build "l" ["a,b"]).result = .error (.noValidKinds ["a,b"]) :=
  ⟨rfl, rfl⟩

end PatternRun

end Scenario

end ClosingLabels
