import ClosingLabels.Settings.Basic

/-!
# Reading settings

Settings are read from a JSON value field by field. A field of the wrong shape is
set aside with a warning and keeps its standard value, and so does each part of the
style and each row of a table; what is well formed is never affected by what is
not. Unknown fields are passed over in silence.
-/

namespace ClosingLabels

namespace Settings

namespace Reader

/-- The least height: a whole number that is not negative. -/
def minLines : Option Json → Nat × List Warning
  | none => (standard.minLines, [])
  | some (.number n) =>
    match n.whole? with
    | some (.ofNat k) => (k, [])
    | _ => (standard.minLines, [.ignoredMinLines (.number n)])
  | some value => (standard.minLines, [.ignoredMinLines value])

/-- The marker: any string. -/
def marker : Option Json → Text × List Warning
  | none => (standard.marker, [])
  | some (.string s) => (s, [])
  | some _ => (standard.marker, [.ignoredMarker])

/-- A flag with its name and standard value. -/
def flag (name : String) (usual : Bool) : Option Json → Bool × List Warning
  | none => (usual, [])
  | some (.bool b) => (b, [])
  | some _ => (usual, [.ignoredFlag name])

/-- One part of the style with its name and standard value. -/
def stylePart (name : String) (usual : Option Text) : Option Json → Option Text × List Warning
  | none => (usual, [])
  | some (.string s) => (some s, [])
  | some _ => (usual, [.ignoredStylePart name])

/-- The style: an object whose parts are strings. -/
def style : Option Json → Style × List Warning
  | none => (standard.style, [])
  | some (.object members) =>
    let part (name : String) (usual : Option Text) :=
      stylePart name usual (Table.find (Text.ofString name) members)
    let color := part "color" standard.style.color
    let fontStyle := part "fontStyle" standard.style.fontStyle
    let fontWeight := part "fontWeight" standard.style.fontWeight
    let margin := part "margin" standard.style.margin
    (⟨color.1, fontStyle.1, fontWeight.1, margin.1⟩,
      color.2 ++ fontStyle.2 ++ fontWeight.2 ++ margin.2)
  | some _ => (standard.style, [.ignoredStyle])

/-- The strings of an array that holds nothing else. -/
def strings? : List Json → Option (List Text)
  | [] => some []
  | .string s :: rest => (strings? rest).map (s :: ·)
  | _ :: _ => none

/-- A list of kinds: any strings. -/
def kinds? : Json → Option (List Text)
  | .array items => strings? items
  | _ => none

/-- Letters, digits, the underscore, the dot and the dash. -/
def isFileUnit (u : UInt16) : Bool := Text.isWord u || u = 0x2E || u = 0x2D

/-- The ending of a grammar file. -/
def grammarEnding : Text := ".wasm"

/-- A bare file name with the ending of a grammar, never a path. -/
def isGrammarFile (name : Text) : Bool :=
  name.all isFileUnit && grammarEnding.isSuffixOf name && 5 < name.length

/-- A grammar file name. -/
def grammarFile? : Json → Option String
  | .string s => if isGrammarFile s then some s.toString else none
  | _ => none

/-- The one name under which a table cannot hold a row; a row written under it is
accepted and lost. -/
def unheldName : Text := "__proto__"

/-- The rows of a table that are well formed, and a warning for each of the others. -/
def rows {α : Type} (read : Json → Option α) (warning : Text → Warning) :
    List (Text × Json) → List (Text × α) × List Warning
  | [] => ([], [])
  | (name, value) :: rest =>
    let (kept, warnings) := rows read warning rest
    match read value with
    | some a => (if name = unheldName then kept else (name, a) :: kept, warnings)
    | none => (kept, warning name :: warnings)

/-- A table: an object whose rows are read one by one. -/
def table {α : Type} (read : Json → Option α) (warning : Text → Warning) (whole : Warning) :
    Option Json → Table Text α × List Warning
  | none => (.empty, [])
  | some (.object members) =>
    let (kept, warnings) := rows read warning members
    (⟨kept⟩, warnings)
  | some _ => (.empty, [whole])

/-- The version: any string, and anything else is passed over in silence. -/
def version : Option Json → Text
  | some (.string s) => s
  | _ => standard.version

end Reader

/-- Reads settings from the members of an object. -/
def ofMembers (members : List (Text × Json)) : Settings × List Warning :=
  let field (name : Text) := Table.find name members
  let minLines := Reader.minLines (field "minLines")
  let marker := Reader.marker (field "overlayPrefix")
  let oneForEachAnchor :=
    Reader.flag "deduplicateAnchors" standard.oneForEachAnchor (field "deduplicateAnchors")
  let onByDefault := Reader.flag "enableByDefault" standard.onByDefault (field "enableByDefault")
  let style := Reader.style (field "style")
  let targets := Reader.table Reader.kinds? .ignoredTarget .ignoredTargets (field "scopeTargets")
  let grammars :=
    Reader.table Reader.grammarFile? .ignoredGrammar .ignoredGrammars (field "grammars")
  ({ minLines := minLines.1
     marker := marker.1
     style := style.1
     oneForEachAnchor := oneForEachAnchor.1
     onByDefault := onByDefault.1
     targets := targets.1
     grammars := grammars.1
     version := Reader.version (field "version") },
    minLines.2 ++ marker.2 ++ oneForEachAnchor.2 ++ onByDefault.2 ++ style.2 ++ targets.2 ++
      grammars.2)

/-- Reads settings from any JSON value, together with the warnings to give. -/
def ofJson : Json → Settings × List Warning
  | .object members => ofMembers members
  | _ => (standard, [.settingsNotObject])

end Settings

end ClosingLabels
