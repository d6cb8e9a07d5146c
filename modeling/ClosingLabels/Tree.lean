import ClosingLabels.Language
import ClosingLabels.Tree.Node

/-!
# Syntax trees

A text that was parsed. Its tree remembers the text and the language it was parsed
with, so that it can be told whether the tree still belongs to a document.
-/

namespace ClosingLabels

/-- A parsed text: a number to know the tree by, the language and the text it was parsed
from, and its root. -/
structure Tree where
  number : Nat
  language : Option Language
  text : Text
  root : Node
deriving Repr

/-- All blocks of a tree, in order of opening: the root comes first. -/
def Tree.blocks (tree : Tree) : List Block := tree.root.preorder

end ClosingLabels
