import ClosingLabels.Fault

/-!
# Patterns

A pattern asks a syntax tree for every block of certain kinds at once, so that all
of them come back in document order. Only kinds that are plain identifiers can
stand in a pattern; any other is left out, so no text given as a kind can change
the meaning of the pattern.
-/

namespace ClosingLabels

/-- The kinds that a pattern asks for, in order. -/
structure Pattern where
  kinds : List Text
deriving DecidableEq, Repr

namespace Pattern

/-- A word that does not begin with a digit. -/
def isKindName : Text → Bool
  | [] => false
  | u :: rest => Text.isWord u && !Text.isDigit u && rest.all Text.isWord

/-- The name under which a pattern captures the blocks it finds. -/
def capture : String := "scope"

/-- The pattern for the kinds in a list that are names. There is none when no kind
in the list is a name. -/
def ofKinds (kinds : List Text) : Except Fault Pattern :=
  match kinds.filter isKindName with
  | [] => .error (.noValidKinds kinds)
  | names => .ok ⟨names⟩

/-- One alternative of a pattern. -/
def alternative (kind : Text) : Text := "(" ++ kind ++ ")"

/-- How a pattern is written. -/
def text (pattern : Pattern) : Text :=
  "[" ++ Text.join " " (pattern.kinds.map alternative) ++ "] @" ++ capture

end Pattern

end ClosingLabels
