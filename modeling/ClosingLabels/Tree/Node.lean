import ClosingLabels.Block

/-!
# Nodes of syntax trees

A node is a block with the nodes inside it. Listing a node visits its block before
the blocks inside it and earlier blocks before later ones, which is the order in
which they open in the text.
-/

namespace ClosingLabels

/-- A block with the blocks inside it. -/
inductive Node where
  | node (block : Block) (children : List Node)
deriving Repr

namespace Node

/-- The block of a node. -/
def block : Node → Block
  | node block _ => block

/-- The nodes directly inside a node. -/
def children : Node → List Node
  | node _ children => children

mutual

/-- A node's block and all blocks inside it, in order of opening. -/
def preorder : Node → List Block
  | node block children => block :: preorderAll children

/-- The blocks of several nodes, one node after the other. -/
def preorderAll : List Node → List Block
  | [] => []
  | first :: rest => preorder first ++ preorderAll rest

end

end Node

end ClosingLabels
