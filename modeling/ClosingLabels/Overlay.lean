import ClosingLabels.Canvas
import ClosingLabels.Label

/-!
# The overlay

The overlay owns every label that is drawn. Whenever a document has to be redrawn,
all labels it has are erased and the freshly extracted ones are drawn; nothing is
compared. What was drawn before a failure stays on record, so that it can still be
erased later.
-/

namespace ClosingLabels

/-- How labels are drawn: the marker before each, its look, and whether a place may
carry one label only. -/
structure OverlayOptions where
  marker : Text := "  ¤ "
  style : Style := .standard
  oneForEachAnchor : Bool := true
deriving DecidableEq, Repr

/-- A label on the canvas, with the handle to erase it by. -/
structure Placed (H : Type) where
  handle : H
  anchor : Rat
  text : Text
deriving DecidableEq, Repr

/-- The labels of each document in order of drawing, and the options in force. -/
structure Overlay (H : Type) where
  tracked : Table String (List (Placed H)) := .empty
  options : OverlayOptions := {}

namespace Overlay

/-- Where an overlay lives: its place in a state and the canvas it draws on. -/
structure Site (σ H : Type) where
  part : Lens σ (Overlay H)
  canvas : Canvas σ H

variable {σ H : Type}

/-- The labels on record for a document. -/
def labels (overlay : Overlay H) (document : String) : List (Placed H) :=
  (overlay.tracked.get? document).getD []

/-- Puts a document on record, with no labels when it is new. -/
def register (overlay : Overlay H) (document : String) : Overlay H :=
  if overlay.tracked.contains document then overlay
  else { overlay with tracked := overlay.tracked.insert document [] }

/-- Puts a label on record. -/
def push (overlay : Overlay H) (document : String) (label : Placed H) : Overlay H :=
  { overlay with tracked := overlay.tracked.insert document (overlay.labels document ++ [label]) }

/-- Takes a document off the record. -/
def forget (overlay : Overlay H) (document : String) : Overlay H :=
  { overlay with tracked := overlay.tracked.erase document }

/-- Erases labels one after another. One that cannot be erased is reported. -/
def eraseAll (site : Site σ H) (document : String) (labels : List (Placed H)) : Action σ Unit :=
  Action.each labels fun label =>
    Action.rescue (site.canvas.erase document label.handle) fun fault =>
      Action.report (.removal label.anchor) fault

/-- Takes a document off the record and erases its labels. Gives how many it had. -/
def retract (site : Site σ H) (document : String) : Action σ Nat := do
  let labels := (← Action.look site.part).labels document
  Action.adjust site.part (·.forget document)
  eraseAll site document labels
  return labels.length

/-- Draws labels one after another and puts each on record as soon as it is drawn. With
one label for each anchor, later ones for a taken anchor are left out. Gives how many
were drawn. -/
def drawEach (site : Site σ H) (options : OverlayOptions) (document : String) :
    List Label → Action σ Nat
  | [] => return 0
  | label :: rest => do
    let present := (← Action.look site.part).labels document
    if options.oneForEachAnchor && present.any (·.anchor = label.anchor) then
      drawEach site options document rest
    else
      let handle ← site.canvas.draw document label.anchor (options.marker ++ label.text)
        options.style
      Action.adjust site.part (·.push document ⟨handle, label.anchor, label.text⟩)
      let placed ← drawEach site options document rest
      return placed + 1

/-- Draws labels. A document is on record from the moment drawing into it begins. -/
def drawAll (site : Site σ H) (document : String) (labels : List Label) : Action σ Nat := do
  if labels.isEmpty then return 0
  Action.adjust site.part (·.register document)
  let options := (← Action.look site.part).options
  drawEach site options document labels

/-- Draws labels and flushes the document, whether all could be drawn or not. -/
def add (site : Site σ H) (document : String) (labels : List Label) : Action σ Unit :=
  Action.ensure
    (do
      let _ ← drawAll site document labels)
    (if labels.isEmpty then pure () else site.canvas.flush document)

/-- Retracts the labels of a document, and flushes it if it had any. -/
def clear (site : Site σ H) (document : String) : Action σ Unit := do
  if 0 < (← retract site document) then site.canvas.flush document

/-- Replaces the labels of a document by those of its present text. Never fails: a
failure is reported and leaves on record what was drawn before it. The document is
flushed once, if anything may have changed. -/
def redraw (site : Site σ H) (catalog : Catalog) (document : String) (view : View σ)
    (minLines : Rat) : Action σ Unit := do
  let replaced ← Action.attempt do
    let retracted ← retract site document
    let labels ← Label.extract view minLines catalog
    let placed ← drawAll site document labels
    return decide (0 < retracted ∨ 0 < placed)
  let changed ← match replaced with
    | .ok changed => pure changed
    | .error fault => do
      Action.report (.recompute document) fault
      pure true
  if changed then
    Action.rescue (site.canvas.flush document) fun fault =>
      Action.report (.repaint document) fault

/-- Sets the options for labels drawn from now on. -/
def setOptions (site : Site σ H) (options : OverlayOptions) : Action σ Unit :=
  Action.adjust site.part fun o => { o with options }

/-- Clears every document on record, until one fails. -/
def dispose (site : Site σ H) : Action σ Unit := do
  Action.each (← Action.look site.part).tracked.keys (clear site)

end Overlay

end ClosingLabels
