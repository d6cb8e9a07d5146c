import ClosingLabels.Action
import ClosingLabels.Pattern.Reader
import ClosingLabels.Table
import ClosingLabels.Tree
import ClosingLabels.Tree.Braces

/-!
# The parsing toolkit

The host that parses texts. It makes parsers, loads grammar files into languages,
parses texts into trees and compiles the texts of patterns into queries. Parsers,
trees and queries have to be deleted by whoever asked for them, and every request
leaves an event.
-/

namespace ClosingLabels

/-- A compiled pattern: a number to know it by, the language that compiled it and what was read
in the text of the pattern. -/
structure Query where
  number : Nat
  language : Language
  reading : Reading
deriving DecidableEq, Repr

/-- A block that a query found, under the name the pattern gives it. -/
structure Capture where
  name : Text
  block : Block
deriving DecidableEq, Repr

/-- The state of the toolkit: the grammar files, whether it can start, how many things of
each sort it has made, and what has been deleted so far, latest first. -/
structure Toolkit where
  files : Table String GrammarSpec := .empty
  startError : Option String := none
  parsers : Nat := 0
  trees : Nat := 0
  queries : Nat := 0
  languages : Nat := 0
  deletedParsers : List Nat := []
  deletedTrees : List Nat := []
  deletedQueries : List Nat := []
deriving DecidableEq, Repr

namespace Toolkit

/-- Makes a parser. -/
def newParser : Action Toolkit Nat := do
  Action.modify fun t => { t with parsers := t.parsers + 1 }
  let number := (← Action.get).parsers
  Action.emit (.parserMade number)
  return number

/-- Deletes a parser. -/
def deleteParser (parser : Nat) : Action Toolkit Unit := do
  Action.modify fun t => { t with deletedParsers := parser :: t.deletedParsers }
  Action.emit (.parserDeleted parser)

/-- Parses a text in a language. The tree the text had before is only a hint. -/
def parse (parser : Nat) (language : Option Language) (text : Text) (old : Option Tree) :
    Action Toolkit Tree := do
  Action.emit (.parserTuned parser (language.map Language.name))
  Action.emit (.parsing parser text.length (old.map Tree.number))
  if Braces.isHopeless text then Action.fail .parsingFailed
  Action.modify fun t => { t with trees := t.trees + 1 }
  return ⟨(← Action.get).trees, language, text, Braces.parse text⟩

/-- Tells a tree of an edit to its text. -/
def editTree (tree : Tree) (edit : Edit) : Action Toolkit Unit :=
  Action.emit (.treeEdited tree.number edit)

/-- Deletes a tree. -/
def deleteTree (tree : Tree) : Action Toolkit Unit := do
  Action.modify fun t => { t with deletedTrees := tree.number :: t.deletedTrees }
  Action.emit (.treeDeleted tree.number)

/-- Makes the language of a grammar file. -/
def newLanguage (file : String) (spec : GrammarSpec) : Action Toolkit Language := do
  Action.modify fun t => { t with languages := t.languages + 1 }
  let number := (← Action.get).languages
  return ⟨s!"l{number}:{file}", spec.kinds, spec.noisy⟩

/-- Reads the text of a pattern and compiles what it asks for. Fails if the text cannot be read,
and at the first kind that the language does not know. -/
def compile (language : Language) (source : Text) : Action Toolkit Query := do
  Action.emit (.patternCompiling language.name source)
  let reading ← Action.ofOption (Reading.ofText? source) (.host "Bad syntax")
  match reading.kinds.find? fun kind => decide (kind ∉ language.kinds) with
  | some kind => Action.fail (.unknownKind kind)
  | none =>
    Action.modify fun t => { t with queries := t.queries + 1 }
    return ⟨(← Action.get).queries, language, reading⟩

/-- Deletes a query. -/
def deleteQuery (query : Query) : Action Toolkit Unit := do
  Action.modify fun t => { t with deletedQueries := query.number :: t.deletedQueries }
  Action.emit (.queryDeleted query.number)

/-- What one match of a query captures: the block, and the whole tree before it when the
language is noisy. -/
def capturesOf (query : Query) (tree : Tree) (block : Block) : List Capture :=
  (if query.language.noisy then [⟨("other" : Text), tree.root.block⟩] else []) ++
    [⟨query.reading.capture, block⟩]

/-- The matches of a query in a tree, in order of opening. The root may be one of them. -/
def matchesOf (query : Query) (tree : Tree) : List (List Capture) :=
  (tree.blocks.filter fun block => decide (block.kind ∈ query.reading.kinds)).map
    (capturesOf query tree)

/-- Runs a query on a tree, unless the tree was deleted. -/
def runQuery (query : Query) (tree : Tree) : Action Toolkit (List (List Capture)) := do
  Action.emit (.patternMatching query.number tree.number)
  if tree.number ∈ (← Action.get).deletedTrees then Action.fail (.treeDeleted tree.number)
  return matchesOf query tree

end Toolkit

end ClosingLabels
