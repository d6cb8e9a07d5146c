import ClosingLabels.Action
import ClosingLabels.Catalog.Shipped
import ClosingLabels.Pattern
import ClosingLabels.Text

/-!
# The catalog of languages

The catalog says, for each language, which kinds of syntax count as blocks and
which grammar file parses it. A user's list for a language takes the place of the
built-in one, and an empty list turns the language off. Reloading starts again from
the built-in lists, so nothing of earlier settings remains.
-/

namespace ClosingLabels

/-- What a language's grammar is named by. -/
inductive GrammarName where
  /-- A file name. -/
  | file (name : String)
  /-- Not a file: the name of the language is that of a member that every table of
  grammars carries by itself, and looking it up finds this member. -/
  | member (name : Text)
deriving DecidableEq, Repr

namespace GrammarName

/-- Members that a table of grammars answers to besides its own rows. -/
def members : List Text :=
  ["constructor", "__defineGetter__", "__defineSetter__", "hasOwnProperty", "__lookupGetter__",
    "__lookupSetter__", "isPrototypeOf", "propertyIsEnumerable", "toString", "valueOf",
    "toLocaleString", "__proto__"]

end GrammarName

/-- The known languages: the built-in lists, the lists in force and the configured
grammar files. -/
structure Catalog where
  builtin : Table Text (List Text)
  table : Table Text (List Text)
  grammars : Table Text String
deriving DecidableEq, Repr

namespace Catalog

/-- Each item once, in order of first occurrence. -/
def firsts : List Text → List Text
  | [] => []
  | item :: rest => item :: (firsts rest).filter (· ≠ item)

/-- A list of kinds put in order: trimmed, without blank kinds, each kind once. -/
def tidy (kinds : List Text) : List Text :=
  firsts ((kinds.map Text.trim).filter (· ≠ []))

/-- The lists in force: the built-in ones, with the user's in their place. -/
def merge (builtin overrides : Table Text (List Text)) : Table Text (List Text) :=
  Table.ofRows ((builtin.rows ++ overrides.rows).map fun row => (row.1, tidy row.2))

/-- The catalog with a fresh set of user lists and grammar files. -/
def reload (catalog : Catalog) (overrides : Table Text (List Text)) (grammars : Table Text String) :
    Catalog :=
  { catalog with table := merge catalog.builtin overrides, grammars }

/-- A catalog made from built-in lists, user lists and grammar files. -/
def make (builtin overrides : Table Text (List Text)) (grammars : Table Text String) : Catalog :=
  reload ⟨builtin, .empty, .empty⟩ overrides grammars

/-- The kinds that count as blocks in a language; an unknown language has none. -/
def kinds (catalog : Catalog) (language : Text) : List Text :=
  (catalog.table.get? language).getD []

/-- Whether a language has any kind. -/
def covers (catalog : Catalog) (language : Text) : Bool := !(catalog.kinds language).isEmpty

/-- The covered languages, in increasing order. -/
def languages (catalog : Catalog) : List Text :=
  Text.sortNames (catalog.table.keys.filter catalog.covers)

/-- The unit of a dash. -/
def dash : UInt16 := 0x2D

/-- The unit of an underscore. -/
def underscore : UInt16 := 0x5F

/-- A language name from which a file name can be made. -/
def isPlainName (language : Text) : Bool :=
  !language.isEmpty && language.all fun u => Text.isWord u || u = dash

/-- The file name that a language has by convention. -/
def conventionalFile (language : Text) : String :=
  "tree-sitter-" ++
    Text.toString (language.map fun u => if u = dash then underscore else u) ++ ".wasm"

/-- The grammar that the tables name for a language: the configured one first, then
the shipped one. -/
def namedGrammar? (catalog : Catalog) (language : Text) : Option GrammarName :=
  match catalog.grammars.get? language with
  | some file => some (.file file)
  | none =>
    if language ∈ GrammarName.members then some (.member language)
    else (shippedGrammar? language).map .file

/-- The grammar of a covered language: the one the tables name, and where they name
none, or an empty one, the conventional file of a plainly named language. -/
def grammar? (catalog : Catalog) (language : Text) : Option GrammarName :=
  if catalog.covers language then
    match catalog.namedGrammar? language with
    | some (.member name) => some (.member name)
    | some (.file file) =>
      if file ≠ "" then some (.file file)
      else if isPlainName language then some (.file (conventionalFile language)) else none
    | none => if isPlainName language then some (.file (conventionalFile language)) else none
  else none

/-- The notice that tells how many languages a catalog covers. -/
def notice (catalog : Catalog) : Notice := .catalogLoaded catalog.languages.length

/-- Reloads the catalog in a state and says so. -/
def reloadIn {σ : Type} (part : Lens σ Catalog) (overrides : Table Text (List Text))
    (grammars : Table Text String) : Action σ Unit := do
  Action.adjust part (·.reload overrides grammars)
  Action.log (← Action.look part).notice

end Catalog

end ClosingLabels
