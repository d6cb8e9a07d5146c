import ClosingLabels.Action

/-!
# Canvases

A canvas draws labels into documents and hands out a handle for each, by which the
label can be erased again. What was drawn or erased shows once the document is
flushed. Any of the three may fail.
-/

namespace ClosingLabels

/-- A place to draw labels, with handles of type `H`. -/
structure Canvas (σ H : Type) where
  /-- Draws a text at an offset of a document. -/
  draw : String → Rat → Text → Style → Action σ H
  /-- Erases what a handle stands for. -/
  erase : String → H → Action σ Unit
  /-- Makes the latest drawing of a document show. -/
  flush : String → Action σ Unit

/-- A canvas that is part of a larger state. -/
def Canvas.within {σ τ H : Type} (part : Lens σ τ) (canvas : Canvas τ H) : Canvas σ H where
  draw document anchor text style := Action.zoom part (canvas.draw document anchor text style)
  erase document handle := Action.zoom part (canvas.erase document handle)
  flush document := Action.zoom part (canvas.flush document)

end ClosingLabels
