import ClosingLabels.Pattern.Cache

/-!
# Patterns kept and dropped

A scenario asks a cache for compiled patterns, while the languages that compile them
learn new kinds.
-/

namespace ClosingLabels.Scenario

/-- A cache, the toolkit behind it and the languages by name. -/
structure PatternRun where
  cache : PatternCache := {}
  toolkit : Toolkit := {}
  languages : Table String Language
deriving DecidableEq, Repr

/-- The cache of a run. -/
def PatternRun.site : PatternCache.Site PatternRun where
  part := {
    get := PatternRun.cache
    set := fun c s => { s with cache := c } }
  toolkit := {
    get := PatternRun.toolkit
    set := fun t s => { s with toolkit := t } }

/-- Something done to a cache or a language. -/
inductive PatternStep where
  | get (key : Text) (language : String) (kinds : List Text)
  | learn (language : String) (kinds : List Text)
  | clear
deriving DecidableEq, Repr

/-- Does it, and gives the query that was asked for. -/
def PatternStep.perform : PatternStep → Action PatternRun (Option Query)
  | .get key name kinds => do
    let language := (← Action.get).languages.get? name
    PatternCache.get PatternRun.site key language kinds
  | .learn name kinds => do
    let language ← Action.ofOption ((← Action.get).languages.get? name) .missingLanguage
    Action.modify fun run =>
      { run with
        languages := run.languages.insert name
          { language with kinds := language.kinds ++ kinds } }
    return none
  | .clear => do
    PatternCache.clear PatternRun.site
    return none

end ClosingLabels.Scenario
