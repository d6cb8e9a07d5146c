import ClosingLabels.Overlay

/-!
# Settings

What a user can set: which blocks get labels, how labels look, whether they are on
from the start, and which languages and grammars there are beyond the shipped ones.
-/

namespace ClosingLabels

/-- The settings of a workspace. -/
structure Settings where
  /-- A block gets a label when it closes more than this many lines below its opening. -/
  minLines : Nat := Label.standardMinLines
  /-- Put before every label. -/
  marker : Text := "  ¤ "
  /-- The look of labels. -/
  style : Style := .standard
  /-- Whether a line end carries one label at most. -/
  oneForEachAnchor : Bool := true
  /-- Whether labels are on in every document that is opened. -/
  onByDefault : Bool := true
  /-- The kinds that count as blocks, for languages where the user has a say. -/
  targets : Table Text (List Text) := .empty
  /-- The grammar files the user named. -/
  grammars : Table Text String := .empty
  /-- The version of the settings. -/
  version : Text := "1.0.0"
deriving DecidableEq, Repr

namespace Settings

/-- The settings of a workspace that has none of its own. -/
def standard : Settings := {}

/-- The part of the settings that the overlay goes by. -/
def overlayOptions (settings : Settings) : OverlayOptions where
  marker := settings.marker
  style := settings.style
  oneForEachAnchor := settings.oneForEachAnchor

end Settings

end ClosingLabels
