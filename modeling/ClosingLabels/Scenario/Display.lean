import ClosingLabels.Canvas.Decorations

/-!
# Decorations on a screen

A scenario draws labels as decorations while editors come and go and texts change.
-/

namespace ClosingLabels.Scenario

/-- A display and all editors that can be shown on it, by name. -/
structure DisplayRun where
  display : Display := {}
  editors : Table String Editor := .empty
deriving DecidableEq, Repr

namespace DisplayRun

/-- The display of a run. -/
def displayPart : Lens DisplayRun Display where
  get := DisplayRun.display
  set d s := { s with display := d }

/-- The number of the buffer of a document. -/
def bufferOf? (run : DisplayRun) (uri : String) : Option Nat :=
  run.display.screen.buffers.findIdx? (·.uri = uri)

/-- Adds an editor, in place of one of the same name. Editors of one document share its
buffer, and the first of them gives the text. -/
def addEditor (run : DisplayRun) (name uri : String) (text : Text) (failure : Option String) :
    DisplayRun :=
  match run.bufferOf? uri with
  | some number =>
    { run with editors := run.editors.insert name ⟨name, some number, failure⟩ }
  | none =>
    let number := run.display.screen.buffers.length
    { display := { run.display with screen := run.display.screen.add uri ⟨text, ""⟩ }
      editors := run.editors.insert name ⟨name, some number, failure⟩ }

/-- The editor of a name; a name that nothing has stands for an editor without a
document. -/
def editor (run : DisplayRun) (name : String) : Editor :=
  (run.editors.get? name).getD ⟨name, none, none⟩

/-- Shows the named editors and no others. -/
def setVisible (run : DisplayRun) (names : List String) : DisplayRun :=
  let visible := names.map run.editor
  { run with display := { run.display with screen := { run.display.screen with visible } } }

end DisplayRun

/-- Something done to a display. -/
inductive DisplayStep where
  | draw (document : String) (anchor : Rat) (text : Text) (style : Style)
  | erase (document : String) (handle : Nat)
  | flush (document : String)
  | paint (editor : String)
  | setVisible (editors : List String)
  | write (uri : String) (text : Text)
  | dispose
deriving DecidableEq, Repr

/-- Does it, and gives the handle of a new label. -/
def DisplayStep.perform : DisplayStep → Action DisplayRun (Option Nat)
  | .draw document anchor text style => do
    return some (← Action.zoom DisplayRun.displayPart (Display.draw document anchor text style))
  | .erase document handle => do
    Action.zoom DisplayRun.displayPart (Display.erase document handle)
    return none
  | .flush document => do
    Action.zoom DisplayRun.displayPart (Display.flush document)
    return none
  | .paint name => do
    let editor := (← Action.get).editor name
    Action.zoom DisplayRun.displayPart (Display.paint editor)
    return none
  | .setVisible editors => do
    Action.modify (·.setVisible editors)
    return none
  | .write uri text => do
    let number ← Action.ofOption ((← Action.get).bufferOf? uri) .missingDocument
    Action.modify fun run =>
      { run with display := { run.display with screen := run.display.screen.write number text } }
    return none
  | .dispose => do
    Action.zoom DisplayRun.displayPart Display.dispose
    return none

end ClosingLabels.Scenario
