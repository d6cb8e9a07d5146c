import ClosingLabels.Settings.Basic

/-!
# Writing settings

Settings are written as a JSON object with the fields in a fixed order. Parts of the
style that are unset are left out.
-/

namespace ClosingLabels

namespace Settings

/-- A member for a part of the style that is set. -/
def styleMember (name : Text) : Option Text → List (Text × Json)
  | some value => [(name, .string value)]
  | none => []

/-- The style as an object. -/
def styleJson (style : Style) : Json :=
  .object (styleMember "color" style.color ++ styleMember "fontStyle" style.fontStyle ++
    styleMember "fontWeight" style.fontWeight ++ styleMember "margin" style.margin)

/-- The settings as an object. -/
def toJson (settings : Settings) : Json :=
  .object [
    ("minLines", .number (.finite (settings.minLines : Rat))),
    ("overlayPrefix", .string settings.marker),
    ("style", styleJson settings.style),
    ("deduplicateAnchors", .bool settings.oneForEachAnchor),
    ("enableByDefault", .bool settings.onByDefault),
    ("scopeTargets", .object
      (settings.targets.rows.map fun row => (row.1, .array (row.2.map Json.string)))),
    ("grammars", .object
      (settings.grammars.rows.map fun row => (row.1, .string (Text.ofString row.2)))),
    ("version", .string settings.version)]

end Settings

end ClosingLabels
