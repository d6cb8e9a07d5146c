import ClosingLabels.Canvas.Recorder
import ClosingLabels.Overlay
import ClosingLabels.Publication

/-!
# An overlay on a recorder

A scenario draws, clears and redraws documents on a recording canvas, which may
refuse some of its requests.
-/

namespace ClosingLabels.Scenario

/-- An overlay, the recorder it draws on and the catalog it goes by. -/
structure OverlayRun where
  overlay : Overlay String
  recorder : Recorder
  catalog : Catalog

namespace OverlayRun

/-- The overlay of a run. -/
def overlayPart : Lens OverlayRun (Overlay String) where
  get := OverlayRun.overlay
  set o s := { s with overlay := o }

/-- The recorder of a run. -/
def recorderPart : Lens OverlayRun Recorder where
  get := OverlayRun.recorder
  set r s := { s with recorder := r }

/-- The catalog of a run. -/
def catalogPart : Lens OverlayRun Catalog where
  get := OverlayRun.catalog
  set c s := { s with catalog := c }

/-- The overlay draws on the recorder. -/
def site : Overlay.Site OverlayRun String :=
  ⟨overlayPart, Recorder.canvas.within recorderPart⟩

end OverlayRun

/-- Something done to an overlay. -/
inductive OverlayStep where
  | add (document : String) (labels : List Label)
  | clear (document : String)
  | redraw (document : String) (publication : Except Fault Publication) (minLines : Rat)
  | setOptions (options : OverlayOptions)
  | reload (overrides : Table Text (List Text)) (grammars : Table Text String)
  | tracked (document : String)
  | dispose

/-- Does it, and gives the labels on record where they are asked for. -/
def OverlayStep.perform : OverlayStep → Action OverlayRun (Option (List (Placed String)))
  | .add document labels => do
    Overlay.add OverlayRun.site document labels
    return none
  | .clear document => do
    Overlay.clear OverlayRun.site document
    return none
  | .redraw document publication minLines => do
    let publication ← Action.ofExcept publication
    let run ← Action.get
    Overlay.redraw OverlayRun.site run.catalog document publication.view minLines
    return none
  | .setOptions options => do
    Overlay.setOptions OverlayRun.site options
    return none
  | .reload overrides grammars => do
    Catalog.reloadIn OverlayRun.catalogPart overrides grammars
    return none
  | .tracked document => Action.gets fun run => some (run.overlay.labels document)
  | .dispose => do
    Overlay.dispose OverlayRun.site
    return none

end ClosingLabels.Scenario
