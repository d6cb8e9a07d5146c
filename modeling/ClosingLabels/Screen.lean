import ClosingLabels.Action

/-!
# The screen

The editor keeps a buffer for every document it has opened and shows some of them
in editors. An editor belongs to one buffer and shows its present text, even when a
newer buffer was opened under the same name. An editor may refuse decorations, and
one that was asked for a document that is not there has no buffer at all.
-/

namespace ClosingLabels

/-- A document under its name. -/
structure Buffer where
  uri : String
  document : Document
deriving DecidableEq, Repr

/-- A view of a buffer, if it has one. An editor with a failure refuses decorations for
that reason. -/
structure Editor where
  name : String
  buffer : Option Nat
  failure : Option String := none
deriving DecidableEq, Repr

/-- Everything that can be on the screen: the buffers in order of opening, the visible
editors, and how many decoration types were made. -/
structure Screen where
  buffers : List Buffer := []
  visible : List Editor := []
  types : Nat := 0
deriving DecidableEq, Repr

namespace Screen

/-- A buffer by number. A number that was never given out stands for an empty one. -/
def buffer (screen : Screen) (number : Nat) : Buffer :=
  (screen.buffers[number]?).getD ⟨"", ⟨[], ""⟩⟩

/-- The buffer of an editor, given by number if it has one. -/
def bufferOf (screen : Screen) : Option Nat → Except Fault Buffer
  | some number => .ok (screen.buffer number)
  | none => .error .missingDocument

/-- Adds a buffer; its number is the count of the buffers before it. -/
def add (screen : Screen) (uri : String) (document : Document) : Screen :=
  { screen with buffers := screen.buffers ++ [⟨uri, document⟩] }

/-- Replaces the text of a buffer. -/
def write (screen : Screen) (number : Nat) (text : Text) : Screen :=
  { screen with
    buffers := screen.buffers.modify number fun b =>
      { b with document := { b.document with text } } }

/-- Makes a decoration type. -/
def newType : Action Screen Nat := do
  Action.modify fun s => { s with types := s.types + 1 }
  let screen ← Action.get
  Action.emit (.decorationTypeMade screen.types)
  return screen.types

/-- Gives an editor the decorations of a type, in place of those it had of that type. -/
def decorate (editor : Editor) (type : Nat) (decorations : List Decoration) :
    Action Screen Unit :=
  match editor.failure with
  | some message => do
    Action.emit (.decorateFailed editor.name)
    Action.fail (.host message)
  | none => Action.emit (.decorated editor.name type decorations)

end Screen

end ClosingLabels
