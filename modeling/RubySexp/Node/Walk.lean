import RubySexp.Node.Tree

namespace RubySexp

/-!
# Walking a Tree

The children of a node are the nodes that stand in its fields, alone or in a sequence, in the
order of the fields; a sequence inside a sequence is not entered. Walking lists a node before
the nodes below it.
-/

namespace Tree

/-- The nodes that stand in a field with this content. -/
def ownNodes : Tree → List Node
  | .node kind location fields => [⟨kind, location, fields⟩]
  | .tuple items => items.filterMap asNode?
  | _ => []

mutual

/-- The nodes at and below the content of a field. -/
def nodes : Tree → List Node
  | .node kind location fields => ⟨kind, location, fields⟩ :: nodesOfFields fields
  | .tuple items => nodesOfItems items
  | _ => []

def nodesOfFields : List (Field × Tree) → List Node
  | [] => []
  | (_, tree) :: rest => nodes tree ++ nodesOfFields rest

/-- The nodes at and below the items of a sequence. -/
def nodesOfItems : List Tree → List Node
  | [] => []
  | .node kind location fields :: rest =>
    ⟨kind, location, fields⟩ :: (nodesOfFields fields ++ nodesOfItems rest)
  | _ :: rest => nodesOfItems rest

end

end Tree

namespace Node

/-- The nodes directly below a node. -/
def children (n : Node) : List Node := n.fields.flatMap fun (_, tree) => tree.ownNodes

/-- A node and all nodes below it. -/
def all (n : Node) : List Node := n :: Tree.nodesOfFields n.fields

/-- A node and all nodes below it that are of a kind. -/
def findAll (kind : Kind) (n : Node) : List Node := n.all.filter (·.kind == kind)

end Node

end RubySexp
