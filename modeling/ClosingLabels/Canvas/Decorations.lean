import ClosingLabels.Canvas
import ClosingLabels.Screen
import ClosingLabels.Table

/-!
# A canvas of editor decorations

Labels become decorations: text attached after an empty range at the label's offset.
All of them share one decoration type, which is made when it is first needed. An
editor is always given all labels of its document at once.
-/

namespace ClosingLabels

/-- A label waiting to be shown. -/
structure Pending where
  handle : Nat
  anchor : Rat
  text : Text
  style : Style
deriving DecidableEq, Repr

/-- The labels of every document, oldest first, with the shared decoration type and
the next handle. -/
structure Decorations where
  type : Option Nat := none
  documents : Table String (List Pending) := .empty
  next : Nat := 1
deriving DecidableEq, Repr

/-- Decorations together with the screen they show on. -/
structure Display where
  decorations : Decorations := {}
  screen : Screen := {}
deriving DecidableEq, Repr

namespace Display

/-- The decorations of a display. -/
def decorationsPart : Lens Display Decorations where
  get := Display.decorations
  set d s := { s with decorations := d }

/-- The screen of a display. -/
def screenPart : Lens Display Screen where
  get := Display.screen
  set d s := { s with screen := d }

/-- The labels of a document. -/
def pending (display : Display) (document : String) : List Pending :=
  (display.decorations.documents.get? document).getD []

/-- Adds a label and gives out the next handle. -/
def draw (document : String) (anchor : Rat) (text : Text) (style : Style) :
    Action Display Nat := do
  let display ← Action.get
  let handle := display.decorations.next
  Action.adjust decorationsPart fun d => { d with
    documents := d.documents.insert document
      (display.pending document ++ [⟨handle, anchor, text, style⟩])
    next := handle + 1 }
  return handle

/-- Removes a label, and the document when it was its last. -/
def erase (document : String) (handle : Nat) : Action Display Unit :=
  Action.adjust decorationsPart fun d =>
    match d.documents.get? document with
    | none => d
    | some labels =>
      match labels.filter (·.handle ≠ handle) with
      | [] => { d with documents := d.documents.erase document }
      | rest => { d with documents := d.documents.insert document rest }

/-- The shared decoration type, made on first use. -/
def sharedType : Action Display Nat := do
  match (← Action.get).decorations.type with
  | some number => return number
  | none =>
    let number ← Action.zoom screenPart Screen.newType
    Action.adjust decorationsPart fun d => { d with type := some number }
    Action.log .decorationTypeMade
    return number

/-- How a label shows in a document. -/
def decorationOf (document : Document) (label : Pending) : Decoration :=
  let place := document.positionOf label.anchor
  ⟨place, place, label.text, label.style⟩

/-- Gives an editor all labels of its document. -/
def paint (editor : Editor) : Action Display Unit := do
  let type ← sharedType
  let display ← Action.get
  let buffer ← Action.ofExcept (display.screen.bufferOf editor.buffer)
  Action.zoom screenPart
    (Screen.decorate editor type ((display.pending buffer.uri).map (decorationOf buffer.document)))

/-- Paints every visible editor of a document, until one fails. -/
def flush (document : String) : Action Display Unit := do
  let display ← Action.get
  Action.each display.screen.visible fun editor => do
    let buffer ← Action.ofExcept (display.screen.bufferOf editor.buffer)
    if buffer.uri = document then paint editor

/-- Drops the decoration type and every label. Handles are not given out again. -/
def dispose : Action Display Unit := do
  match (← Action.get).decorations.type with
  | some number => Action.emit (.decorationTypeDropped number)
  | none => pure ()
  Action.adjust decorationsPart fun d => { d with type := none, documents := .empty }

/-- The display as a canvas. -/
def canvas : Canvas Display Nat := ⟨draw, erase, flush⟩

end Display

end ClosingLabels
