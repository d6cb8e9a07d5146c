import ClosingLabels.Text

/-!
# Languages

A grammar file becomes a language when it is loaded. Loading the same file again
makes another language, with a name of its own.
-/

namespace ClosingLabels

/-- What is in a grammar file: the kinds it knows, whether its queries report more than
asked for, and why it cannot be loaded if it cannot. -/
structure GrammarSpec where
  kinds : List Text
  noisy : Bool := false
  loadError : Option String := none
deriving DecidableEq, Repr

/-- A loaded grammar. -/
structure Language where
  name : String
  kinds : List Text
  noisy : Bool
deriving DecidableEq, Repr

end ClosingLabels
