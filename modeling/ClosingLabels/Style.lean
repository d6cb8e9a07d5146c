import ClosingLabels.Text

/-!
# Styles

How a label looks. Every part may be left unset, and then the editor decides.
-/

namespace ClosingLabels

/-- The look of a label. -/
structure Style where
  color : Option Text := none
  fontStyle : Option Text := none
  fontWeight : Option Text := none
  margin : Option Text := none
deriving DecidableEq, Repr

/-- Labels look like comments unless the settings say otherwise. -/
def Style.standard : Style := { color := some "#6A9955", fontStyle := some "italic" }

end ClosingLabels
