import ClosingLabels.Action
import ClosingLabels.Block
import ClosingLabels.Catalog

/-!
# Labels

A label repeats the opening line of a block at the end of its closing line. Only
blocks that are long enough get one. The labels of a tree are listed in the reverse
of the order in which its blocks were found, so an inner block comes before the
blocks around it.
-/

namespace ClosingLabels

/-- The first and last line of a block, counted from one. -/
structure Span where
  opening : Rat
  closing : Rat
deriving DecidableEq, Repr

/-- How many lines below its opening a block closes. -/
def Span.height (span : Span) : Rat := span.closing - span.opening

/-- The lines of a block, found through the positions of its two ends. -/
def Block.span (document : Document) (block : Block) : Span where
  opening := document.lineOf block.start + 1
  closing := document.lineOf block.stop + 1

/-- A label to be drawn at an offset, with the lines of its block. -/
structure Label where
  anchor : Rat
  text : Text
  opening : Rat
  closing : Rat
deriving DecidableEq, Repr

/-- A parsed document as labels see it: its text, the language it was parsed as and
a way to find the blocks of given kinds. -/
structure View (σ : Type) where
  find : List Text → Action σ (List Block)
  document : Document
  language : Text

namespace Label

/-- The least height of a block without a label, unless the settings say otherwise. -/
def standardMinLines : Nat := 5

/-- The label of a span of lines: at the end of the closing line, saying what the opening
line says. Fails when one of the lines is missing. -/
def ofSpan (lines : List Text) (span : Span) : Except Fault Label := do
  let closing ← Lines.get lines (span.closing - 1)
  let anchor ← Lines.offsetOf lines (Document.endOfLine (span.closing - 1) closing)
  let opening ← Lines.get lines (span.opening - 1)
  return { anchor, text := opening.trim, opening := span.opening, closing := span.closing }

/-- The labels of the spans that are higher than `minLines`, in the given order. -/
def ofSpans (lines : List Text) (minLines : Rat) : List Span → Except Fault (List Label)
  | [] => .ok []
  | span :: rest => do
    if minLines < span.height then
      let label ← ofSpan lines span
      let labels ← ofSpans lines minLines rest
      return label :: labels
    else ofSpans lines minLines rest

/-- The labels of the blocks that are higher than `minLines`, in the given order. -/
def collect (document : Document) (minLines : Rat) (blocks : List Block) :
    Except Fault (List Label) :=
  ofSpans document.lines minLines (blocks.map (Block.span document))

variable {σ : Type}

/-- The labels of a parsed document. The tree is asked once, for all kinds that count
as blocks in the language, and not at all when there are none. A failure is reported
and gives no labels. -/
def extract (view : View σ) (minLines : Rat) (catalog : Catalog) :
    Action σ (List Label) := do
  let kinds := catalog.kinds view.language
  if kinds.isEmpty then return []
  Action.rescue
    (do
      let blocks ← view.find kinds
      Action.ofExcept (collect view.document minLines blocks.reverse))
    (fun fault => do
      Action.report (.extraction view.language) fault
      return [])

end Label

end ClosingLabels
