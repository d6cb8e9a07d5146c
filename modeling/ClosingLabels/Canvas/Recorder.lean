import ClosingLabels.Canvas

/-!
# A canvas that records

The recorder keeps a list of what is drawn on it and can be told beforehand which
requests to refuse. Handles are numbered by attempts to draw, so a refused attempt
uses up a number.
-/

namespace ClosingLabels

/-- Which requests a recorder refuses. -/
structure Refusals where
  /-- Attempts to draw, counted from one. -/
  draws : List Nat := []
  /-- Handles that cannot be erased. -/
  erasures : List String := []
  /-- Flushes, counted from one. -/
  flushes : List Nat := []
deriving DecidableEq, Repr

/-- A label on a recorder. -/
structure Drawn where
  handle : String
  document : String
  anchor : Rat
  text : Text
  style : Style
deriving DecidableEq, Repr

/-- A recording canvas: the labels on it, oldest first, and the requests so far. -/
structure Recorder where
  refusals : Refusals := {}
  attempts : Nat := 0
  flushes : Nat := 0
  live : List Drawn := []
deriving DecidableEq, Repr

namespace Recorder

/-- The handle of an attempt to draw. -/
def handleOf (attempt : Nat) : String := s!"h{attempt}"

/-- Draws a label, unless this attempt is to be refused. -/
def draw (document : String) (anchor : Rat) (text : Text) (style : Style) :
    Action Recorder String := do
  Action.modify fun r => { r with attempts := r.attempts + 1 }
  let recorder ← Action.get
  let attempt := recorder.attempts
  if attempt ∈ recorder.refusals.draws then Action.fail .canvasUnavailable
  let handle := handleOf attempt
  Action.modify fun r => { r with live := r.live ++ [⟨handle, document, anchor, text, style⟩] }
  Action.emit (.drawn document handle anchor text style)
  return handle

/-- Erases a label, unless its handle is to be refused. -/
def erase (document handle : String) : Action Recorder Unit := do
  let recorder ← Action.get
  if handle ∈ recorder.refusals.erasures then
    Action.emit (.eraseFailed document handle)
    Action.fail (.cannotErase handle)
  Action.modify fun r => { r with live := r.live.filter (·.handle ≠ handle) }
  Action.emit (.erased document handle)

/-- Counts a flush, and refuses it when it is to be refused. -/
def flush (document : String) : Action Recorder Unit := do
  Action.modify fun r => { r with flushes := r.flushes + 1 }
  let recorder ← Action.get
  if recorder.flushes ∈ recorder.refusals.flushes then
    Action.emit (.flushFailed document)
    Action.fail (.cannotFlush document)
  Action.emit (.flushed document)

/-- The recorder as a canvas. -/
def canvas : Canvas Recorder String := ⟨draw, erase, flush⟩

end Recorder

end ClosingLabels
