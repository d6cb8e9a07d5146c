import ClosingLabels.Label

/-!
# Publications

A parsed document given by hand: its text and a fixed list of blocks, which may also
refuse to be searched. It stands in for a syntax tree wherever only the blocks count.
-/

namespace ClosingLabels

/-- A parsed document: its blocks, or why they cannot be searched, its text and the
language it was parsed as. -/
structure Publication where
  blocks : List Block
  failure : Option String := none
  document : Document
  language : Text
deriving DecidableEq, Repr

namespace Publication

variable {σ : Type}

/-- The blocks of the given kinds, in the order of the list. -/
def find (publication : Publication) (kinds : List Text) : Except Fault (List Block) :=
  match publication.failure with
  | some message => .error (.host message)
  | none => .ok (publication.blocks.filter fun block => decide (block.kind ∈ kinds))

/-- A publication as labels see it. -/
def view (publication : Publication) : View σ where
  find kinds := Action.ofExcept (publication.find kinds)
  document := publication.document
  language := publication.language

/-- A publication that notes every list of kinds it is asked for. -/
def noting (publication : Publication) : View (List (List Text)) where
  find kinds := do
    Action.modify (· ++ [kinds])
    Action.ofExcept (publication.find kinds)
  document := publication.document
  language := publication.language

/-- The publication of a text with the blocks that are meant in it. -/
def ofSpecs (text language : Text) (specs : List BlockSpec)
    (failure : Option String) : Except Fault Publication := do
  let document : Document := ⟨text, language⟩
  let blocks ← specs.mapM (BlockSpec.resolve document)
  return ⟨blocks, failure, document, language⟩

/-- A small program with one block, which opens on its second line and has `body`
lines. -/
def conditional (body : Rat) : Except Fault Publication :=
  let steps := (List.range body.floor.toNat).map fun i => s!"        step({i + 1})"
  let text := String.intercalate "\n" (["def main():", "    if ready:"] ++ steps)
  ofSpecs text "python" [.lines "if_statement" 1 (Number.sum 1 body)] none

end Publication

end ClosingLabels
