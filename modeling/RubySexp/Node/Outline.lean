import RubySexp.Fault
import RubySexp.Node.Walk

namespace RubySexp

/-!
# Outlines

A tree shown for a person: each node on a line of its own with its kind and its plain fields,
and below it, further indented, the fields that hold nodes. Fields that are empty or hold a place
of the source are left out.
-/

namespace Tree

/-- Whether a field with this content is shown below its node. -/
def holdsNodes : Tree → Bool
  | .node .. => true
  | .tuple items => items.any (·.asNode?.isSome)
  | _ => false

/-- Whether a field with this content is left out. -/
def isEmpty : Tree → Bool
  | .null => true
  | .tuple items => items.isEmpty
  | _ => false

/-- The fields on the line of their node: ` field=content` each. -/
def plainFields (fields : List (Field × Tree)) : List Char :=
  fields.flatMap fun (field, tree) =>
    if tree.isEmpty || tree.holdsNodes || field.isLocation then []
    else ' ' :: (field.label.toList ++ '=' :: tree.render .data)

/-- The position behind the fields, if positions are shown. -/
def positionText (positions : Bool) (location : Option Location) : Except Fault (List Char) :=
  match positions, location with
  | false, _ => .ok []
  | true, some l => .ok (' ' :: '@' :: l.format)
  | true, none => .error .noSuchPart

def indent (depth : Nat) : List Char := List.replicate (2 * depth) ' '

/-- The line of a node. -/
def headLine (positions : Bool) (depth : Nat) (n : Node) : Except Fault (List Char) := do
  let place ← positionText positions n.location
  return indent depth ++ n.kind.name.toList ++ plainFields n.fields ++ place

mutual

/-- The lines for the nodes in a field with this content. -/
def contentLines (positions : Bool) (depth : Nat) : Tree → Except Fault (List (List Char))
  | .node kind location fields => do
    let head ← headLine positions depth ⟨kind, location, fields⟩
    return head :: (← fieldLines positions depth fields)
  | .tuple items =>
    if items.any (·.asNode?.isSome) then itemLines positions depth items else .ok []
  | _ => .ok []

/-- The lines below a node: each field that holds nodes under its label. -/
def fieldLines (positions : Bool) (depth : Nat) :
    List (Field × Tree) → Except Fault (List (List Char))
  | [] => .ok []
  | (field, tree) :: rest => do
    let own ← contentLines positions (depth + 2) tree
    let label := indent (depth + 1) ++ field.label.toList ++ [':']
    return (if tree.holdsNodes then label :: own else []) ++ (← fieldLines positions depth rest)

/-- The lines for a sequence in which every item has to be a node. -/
def itemLines (positions : Bool) (depth : Nat) : List Tree → Except Fault (List (List Char))
  | [] => .ok []
  | .node kind location fields :: rest => do
    let head ← headLine positions depth ⟨kind, location, fields⟩
    let below ← fieldLines positions depth fields
    return head :: below ++ (← itemLines positions depth rest)
  | _ :: _ => .error .wrongType

end

/-- The lines for a tree, which has to be a node. -/
def outline (positions : Bool) (tree : Tree) : Except Fault (List (List Char)) :=
  match tree with
  | .node .. => contentLines positions 0 tree
  | _ => .error .wrongType

end Tree

end RubySexp
