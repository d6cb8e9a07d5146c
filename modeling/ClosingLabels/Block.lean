import ClosingLabels.Document

/-!
# Blocks

A block is a stretch of text that a parser recognised, with the kind of syntax it
is. Its ends are offsets and may lie anywhere, since they come from outside.
-/

namespace ClosingLabels

/-- A recognised stretch of text: its kind and the offsets where it starts and stops. -/
structure Block where
  kind : Text
  start : Rat
  stop : Rat
deriving DecidableEq, Repr

namespace Block

/-- The block that runs from the first mark on one line to the end of another. Fails
when the document lacks one of the lines. -/
def spanning (document : Document) (kind : Text) (first last : Rat) : Except Fault Block := do
  let opening ← document.line first
  let closing ← document.line last
  let indentation := opening.length - opening.trimLeft.length
  return {
    kind
    start := ← document.offsetOf ⟨first, indentation⟩
    stop := ← document.offsetOf (Document.endOfLine last closing) }

end Block

/-- A block as it is pointed out from outside: by its offsets, or by its first and last line. -/
inductive BlockSpec where
  | offsets (block : Block)
  | lines (kind : Text) (first last : Rat)
deriving DecidableEq, Repr

/-- The block that is meant in a document. -/
def BlockSpec.resolve (document : Document) : BlockSpec → Except Fault Block
  | .offsets block => .ok block
  | .lines kind first last => Block.spanning document kind first last

end ClosingLabels
