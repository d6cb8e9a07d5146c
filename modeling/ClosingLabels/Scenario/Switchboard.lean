import ClosingLabels.Canvas.Recorder
import ClosingLabels.Switchboard.ManualFeed

/-!
# A switchboard on a recorder

A scenario publishes documents by hand, announces their triggers, and switches labels on
and off, all on a recording canvas.
-/

namespace ClosingLabels.Scenario

/-- A switchboard with everything it works with. -/
structure SwitchboardRun where
  board : Switchboard := {}
  overlay : Overlay String
  recorder : Recorder
  feed : ManualFeed := {}
  catalog : Catalog
  minLines : Rat

namespace SwitchboardRun

/-- The feed of a run. -/
def feedPart : Lens SwitchboardRun ManualFeed where
  get := SwitchboardRun.feed
  set f s := { s with feed := f }

/-- The catalog of a run. -/
def catalogPart : Lens SwitchboardRun Catalog where
  get := SwitchboardRun.catalog
  set c s := { s with catalog := c }

/-- The recorder of a run. -/
def recorderPart : Lens SwitchboardRun Recorder where
  get := SwitchboardRun.recorder
  set r s := { s with recorder := r }

/-- The overlay of a run, drawing on its recorder. -/
def overlaySite : Overlay.Site SwitchboardRun String where
  part := {
    get := SwitchboardRun.overlay
    set := fun o s => { s with overlay := o } }
  canvas := Recorder.canvas.within recorderPart

/-- The switchboard of a run. -/
def site : Switchboard.Site SwitchboardRun String where
  part := {
    get := SwitchboardRun.board
    set := fun b s => { s with board := b } }
  overlay := overlaySite
  feed := ManualFeed.feed feedPart
  catalog := SwitchboardRun.catalog
  minLines := Action.gets SwitchboardRun.minLines

/-- Calls everyone who subscribed to a trigger of a document. A subscription made by the
switchboard redraws its document. -/
def announce (trigger : Trigger) (document : String) : Action SwitchboardRun Unit := do
  let run ← Action.get
  Action.each (run.feed.subscribers trigger document) fun _ => Switchboard.refresh site document

end SwitchboardRun

/-- Something done to a switchboard or its surroundings. -/
inductive SwitchboardStep where
  | publish (document : String) (publication : Except Fault Publication)
  | announce (trigger : Trigger) (document : String)
  | setMinLines (value : Rat)
  | enable (document : String)
  | disable (document : String)
  | toggle (document : String)
  | isOn (document : String)
  | redrawAll
  | setOptions (options : OverlayOptions)
  | reload (overrides : Table Text (List Text)) (grammars : Table Text String)
  | dispose

/-- Does it, and gives the answer where there is one. -/
def SwitchboardStep.perform : SwitchboardStep → Action SwitchboardRun (Option Bool)
  | .publish document publication => do
    let publication ← Action.ofExcept publication
    Action.adjust SwitchboardRun.feedPart (·.publish document publication)
    return none
  | .announce trigger document => do
    SwitchboardRun.announce trigger document
    return none
  | .setMinLines value => do
    Action.modify fun run => { run with minLines := value }
    return none
  | .enable document => do
    Switchboard.enable SwitchboardRun.site document
    return none
  | .disable document => do
    Switchboard.disable SwitchboardRun.site document
    return none
  | .toggle document => do
    return some (← Switchboard.toggle SwitchboardRun.site document)
  | .isOn document => Action.gets fun run => some (run.board.isOn document)
  | .redrawAll => do
    Switchboard.redrawAll SwitchboardRun.site
    return none
  | .setOptions options => do
    Overlay.setOptions SwitchboardRun.overlaySite options
    return none
  | .reload overrides grammars => do
    Catalog.reloadIn SwitchboardRun.catalogPart overrides grammars
    return none
  | .dispose => do
    Switchboard.dispose SwitchboardRun.site
    return none

end ClosingLabels.Scenario
