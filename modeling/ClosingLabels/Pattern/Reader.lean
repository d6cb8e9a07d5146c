import ClosingLabels.Pattern

/-!
# Reading patterns

A pattern is handed over as a text, and whoever compiles it has to read the text: a bracket
with one name in parentheses after another, a space between them, and behind the bracket
the name under which blocks are captured. A text of any other form asks for nothing.
-/

namespace ClosingLabels

/-- What the text of a pattern asks for: blocks of these kinds, captured under this name. -/
structure Reading where
  kinds : List Text
  capture : Text
deriving DecidableEq, Repr

namespace Pattern

/-- The space between two names. -/
def space : UInt16 := 0x20

/-- The sign that stands before the name of the captures. -/
def captureSign : UInt16 := 0x40

/-- What a text holds between an opening and a closing. -/
def between? (opening closing text : Text) : Option Text :=
  (opening.isPrefixOf? text).bind (closing.isSuffixOf? ·)

/-- The identifier that stands in parentheses. -/
def readAlternative? (text : Text) : Option Text :=
  (between? "(" ")" text).filter isKindName

/-- The identifiers that stand in parentheses one by one. -/
def readAlternatives? : List Text → Option (List Text)
  | [] => some []
  | text :: rest => do
    let name ← readAlternative? text
    let names ← readAlternatives? rest
    return name :: names

end Pattern

/-- What a text asks for, if it is that of a pattern. -/
def Reading.ofText? (text : Text) : Option Reading :=
  match text.splitOn Pattern.captureSign with
  | [alternatives, capture] => do
    let inner ← Pattern.between? "[" "] " alternatives
    let kinds ← Pattern.readAlternatives? (inner.splitOn Pattern.space)
    if Pattern.isKindName capture then return ⟨kinds, capture⟩ else none
  | _ => none

end ClosingLabels
