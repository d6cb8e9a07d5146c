import ClosingLabels.Toolkit

/-!
# Compiled patterns

Compiling a pattern costs time, so the query for each language and list of kinds is
kept. A pattern that cannot be compiled is tried again each time, but reported only
once until the cache is cleared.
-/

namespace ClosingLabels

/-- The queries that are kept, and the patterns whose failure has been reported. -/
structure PatternCache where
  queries : Table Text Query := .empty
  reported : List Text := []
deriving DecidableEq, Repr

namespace PatternCache

/-- The text under which the query for a language and a list of kinds is kept. -/
def keyOf (language : Text) (kinds : List Text) : Text :=
  language ++ 0 :: Text.join "," kinds

/-- Where a cache lives, with the toolkit that compiles for it. -/
structure Site (σ : Type) where
  part : Lens σ PatternCache
  toolkit : Lens σ Toolkit

variable {σ : Type}

/-- Compiles the pattern for a list of kinds. Without a language nothing can be compiled. -/
def build (site : Site σ) (language : Option Language) (kinds : List Text) :
    Action σ Query := do
  let language ← Action.ofOption language .missingLanguage
  let pattern ← Action.ofExcept (Pattern.ofKinds kinds)
  Action.zoom site.toolkit (Toolkit.compile language pattern.text)

/-- The query for a list of kinds, kept from an earlier call or compiled now. There is
none when it cannot be compiled. -/
def get (site : Site σ) (key : Text) (language : Option Language) (kinds : List Text) :
    Action σ (Option Query) := do
  let text := keyOf key kinds
  match (← Action.look site.part).queries.get? text with
  | some query => return some query
  | none =>
    match ← Action.attempt (build site language kinds) with
    | .ok query =>
      Action.adjust site.part fun c =>
        { queries := c.queries.insert text query, reported := c.reported.filter (· ≠ text) }
      return some query
    | .error fault =>
      if text ∉ (← Action.look site.part).reported then
        Action.adjust site.part fun c => { c with reported := c.reported ++ [text] }
        Action.report (.patternBuild key) fault
      return none

/-- The blocks of the given kinds in a tree; none when their pattern cannot be compiled. -/
def find (site : Site σ) (key : Text) (language : Language) (tree : Tree)
    (kinds : List Text) : Action σ (List Block) := do
  match ← get site key (some language) kinds with
  | none => return []
  | some query =>
    let found ← Action.zoom site.toolkit (Toolkit.runQuery query tree)
    return (found.flatten.filter (·.name = (Pattern.capture : Text))).map Capture.block

/-- Deletes all queries and forgets all reports. -/
def clear (site : Site σ) : Action σ Unit := do
  let cache ← Action.look site.part
  Action.each cache.queries.values fun query =>
    Action.zoom site.toolkit (Toolkit.deleteQuery query)
  Action.adjust site.part fun _ => {}

end PatternCache

end ClosingLabels
