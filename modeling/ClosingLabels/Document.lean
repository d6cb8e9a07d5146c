import ClosingLabels.Fault
import ClosingLabels.Text

/-!
# Documents and positions

A document is a text and the name of its language. A place in it is either an
offset, counted in code units from the start, or a position, a line with a column.
Both start at zero. `positionOf` and `offsetOf` go from one to the other. Places come
from outside and may be any numbers; what is between two units belongs to the first.
-/

namespace ClosingLabels

/-- A place in a document: a line and a column in it, both from zero. -/
structure Position where
  line : Rat
  character : Rat
deriving DecidableEq, Repr

/-- A text in some language. -/
structure Document where
  text : Text
  language : Text := ""
deriving DecidableEq, Repr

/-- A number moved to the nearest one from zero to `limit`. -/
def clampTo (limit : Nat) (value : Rat) : Rat :=
  if value < 0 then 0 else if (limit : Rat) < value then limit else value

namespace Lines

/-- The text of a line. Only whole numbers count lines. -/
def get (lines : List Text) (line : Rat) : Except Fault Text :=
  match (if line.den = 1 ∧ 0 ≤ line.num then lines[line.num.toNat]? else none) with
  | some text => .ok text
  | none => .error .missingLine

/-- The offset at which a line starts. -/
def startOf (lines : List Text) (line : Nat) : Nat :=
  (lines.take line).foldr (fun text total => text.length + 1 + total) 0

/-- The offset of a position. The line is moved to one of the lines, and a column past
the end of its line counts as that end; a negative column counts backwards. -/
def offsetOf (lines : List Text) (position : Position) : Except Fault Rat := do
  let line := clampTo (lines.length - 1) position.line
  let width : Rat := (← get lines line).length
  let column := if position.character < width then position.character else width
  return startOf lines line.num.toNat + column

end Lines

namespace Document

/-- The lines of a document; there is at least one. -/
def lines (document : Document) : List Text := document.text.lines

/-- The number of lines. -/
def lineCount (document : Document) : Nat := document.lines.length

/-- An offset moved to the nearest place inside the text. -/
def clamp (document : Document) (offset : Rat) : Rat := clampTo document.text.length offset

/-- The whole units before an offset. -/
def before (document : Document) (offset : Rat) : Text :=
  document.text.take (document.clamp offset).floor.toNat

/-- The line of an offset: the number of line feeds before it. -/
def lineOf (document : Document) (offset : Rat) : Nat :=
  (document.before offset).count Text.newline

/-- The position of an offset. What lies outside the text counts as its nearest end.
The column is the distance to the last line feed before the offset. -/
def positionOf (document : Document) (offset : Rat) : Position :=
  let place := document.clamp offset
  let column := ((document.before offset).reverse.takeWhile (· ≠ Text.newline)).length
  { line := document.lineOf offset
    character := column + (place - place.floor) }

/-- The text of a line. -/
def line (document : Document) (line : Rat) : Except Fault Text := Lines.get document.lines line

/-- The offset of a position. -/
def offsetOf (document : Document) (position : Position) : Except Fault Rat :=
  Lines.offsetOf document.lines position

/-- The position just after the last unit of a line with the given text. -/
def endOfLine (line : Rat) (text : Text) : Position := ⟨line, text.length⟩

end Document

end ClosingLabels
