import ClosingLabels.Document
import ClosingLabels.Number

/-!
# Changes and tree edits

The editor reports a change as the range it replaced and the text it put there. A
parser wants the same fact as an edit: where the change starts, where the replaced
text ended and where the new text ends, each as an offset and as a position.
-/

namespace ClosingLabels

/-- A replacement made in a document: the range before it, by positions and by
offset and length, and the text that took its place. -/
structure Change where
  start : Position
  stop : Position
  offset : Rat
  length : Rat
  text : Text
deriving DecidableEq, Repr

/-- A change as a parser wants to hear of it. -/
structure Edit where
  startIndex : Rat
  oldEndIndex : Rat
  newEndIndex : Rat
  startPosition : Position
  oldEndPosition : Position
  newEndPosition : Position
deriving DecidableEq, Repr

namespace Change

/-- The position where a text that begins at `start` ends: further along the same
line when it has no line feed, otherwise on the last line it adds. -/
def endOf (start : Position) (text : Text) : Position :=
  let lines := text.lines
  let last := (lines.getLast?.getD []).length
  if lines.length = 1 then ⟨start.line, Number.sum start.character last⟩
  else ⟨Number.sum (Number.sum start.line lines.length) (-1), last⟩

/-- The edit that a change amounts to. -/
def toEdit (change : Change) : Edit where
  startIndex := change.offset
  oldEndIndex := Number.sum change.offset change.length
  newEndIndex := Number.sum change.offset change.text.length
  startPosition := change.start
  oldEndPosition := change.stop
  newEndPosition := endOf change.start change.text

/-- A text after a change was made in it: it is cut in two places, where the replaced range
starts and where it stops, and has the new text between. -/
def apply (change : Change) (text : Text) : Text :=
  text.take (text.cutAt change.offset) ++ change.text ++
    text.drop (text.cutAt (Number.sum change.offset change.length))

end Change

end ClosingLabels
