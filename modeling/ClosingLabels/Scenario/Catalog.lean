import ClosingLabels.Catalog

/-!
# Questions to a catalog

A scenario asks a catalog one thing after another and reloads it in between.
-/

namespace ClosingLabels.Scenario

/-- A question to a catalog, or a reload of it. -/
inductive CatalogStep where
  | kinds (language : Text)
  | covers (language : Text)
  | grammar (language : Text)
  | languages
  | reload (overrides : Table Text (List Text)) (grammars : Table Text String)
deriving DecidableEq, Repr

/-- What a catalog answers. -/
inductive CatalogReply where
  | done
  | names (names : List Text)
  | flag (value : Bool)
  | grammar (name : Option GrammarName)
deriving DecidableEq, Repr

/-- Asks or reloads a catalog. -/
def CatalogStep.perform : CatalogStep → Action Catalog CatalogReply
  | .kinds language => Action.gets fun catalog => .names (catalog.kinds language)
  | .covers language => Action.gets fun catalog => .flag (catalog.covers language)
  | .grammar language => Action.gets fun catalog => .grammar (catalog.grammar? language)
  | .languages => Action.gets fun catalog => .names catalog.languages
  | .reload overrides grammars => do
    Catalog.reloadIn .whole overrides grammars
    return .done

end ClosingLabels.Scenario
