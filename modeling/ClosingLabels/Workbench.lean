import ClosingLabels.Screen
import ClosingLabels.Settings.Store
import ClosingLabels.Toolkit

/-!
# The workbench

The editor that a plugin lives in: its screen, the documents that are open, the
editor in front, the workspace with its settings file, and the parsing toolkit.
-/

namespace ClosingLabels

/-- The state of the editor. Open documents are listed by name, each with its present
buffer. The editor in front, if there is one, is known by its buffer, if that has one. -/
structure Workbench where
  toolkit : Toolkit := {}
  screen : Screen := {}
  documents : Table String Nat := .empty
  active : Option (Option Nat) := none
  store : SettingsStore := {}
  workspace : Option String := none
  openFailure : Option String := none
deriving DecidableEq, Repr

namespace Workbench

/-- Opens a document: it gets a fresh buffer, and keeps its place among the open documents
if it was open already. -/
def openDocument (bench : Workbench) (uri : String) (document : Document) : Workbench :=
  { bench with
    screen := bench.screen.add uri document
    documents := bench.documents.insert uri bench.screen.buffers.length }

/-- A replacement asked for by the user: how many units from which offset on give way to
which text. -/
structure Replacement where
  offset : Rat
  length : Rat
  text : Text
deriving DecidableEq, Repr

/-- The change that a replacement in a text amounts to. -/
def Replacement.change (replacement : Replacement) (text : Text) : Change where
  start := (Document.mk text "").positionOf replacement.offset
  stop := (Document.mk text "").positionOf
    (Number.sum replacement.offset replacement.length)
  offset := replacement.offset
  length := replacement.length
  text := replacement.text

/-- Replacements made one after another, each in the text the one before it left: the
changes they amount to, and the last text. -/
def applyAll (text : Text) : List Replacement → List Change × Text
  | [] => ([], text)
  | replacement :: rest =>
    let change := replacement.change text
    let (changes, last) := applyAll (change.apply text) rest
    (change :: changes, last)

/-- Makes replacements in a buffer and gives the changes they amount to. -/
def edit (bench : Workbench) (buffer : Nat) (replacements : List Replacement) :
    List Change × Workbench :=
  let (changes, text) := applyAll (bench.screen.buffer buffer).document.text replacements
  (changes, { bench with screen := bench.screen.write buffer text })

end Workbench

end ClosingLabels
