import RubySexp.Convert.Variable

namespace RubySexp.Convert

/-!
# Multiple Assignment

Assignments to several targets, `a, *b, c = v`, and targets nested in each other.
-/

variable (conv : Conversion) (scope : Scope) (n : Node)

/-- The targets in order. A rest that is only implied by a trailing comma is left out. -/
def targets : Except Fault (List Value) := do
  let lefts ← convertItems conv scope n .lefts
  let rest ← n.get .rest
  let middle ← if rest.isNull || rest.isA .implicitRestNode then pure []
    else do pure [← conv scope rest]
  let rights ← convertItems conv scope n .rights
  return lefts ++ middle ++ rights

/-- The value that is taken apart. A list in brackets, or a value that is no list, is marked. -/
def multiValue (value : Tree) : Except Fault Value := do
  match value.asNode? with
  | some array =>
    if array.kind == .arrayNode then
      if (← array.get .openingLoc).isNull then
        match ← (← array.get .elements).elements with
        | [element] => conv scope (if element.isA .splatNode then element else value)
        | _ => conv scope value
      else build value.location? .toAry [← conv scope value]
    else if array.kind == .splatNode then conv scope value
    else build n.location .toAry [← conv scope value]
  | none => build n.location .toAry [← conv scope value]

/-- An assignment to several targets. -/
def multiWrite : Except Fault Value := do
  let left ← build n.location .array (← targets conv scope n)
  let right ← multiValue conv scope n (← n.get .value)
  build n.location .masgn [left, right]

/-- Targets nested in others. Among parameters they are not put in an array. -/
def multiTarget : Except Fault Value := do
  let inner ← targets conv scope n
  if scope.inParameters then build n.location .masgn inner
  else build n.location .masgn [← build n.location .array inner]

/-- The symbol of a mark such as `*` with the name in a node behind it. -/
def markedName (mark : List Char) (holder : Tree) : Except Fault Value := do
  return symbolOf (mark ++ (← holder.get .name).render .spelled)

/-- A splat. Among parameters it is a symbol. -/
def splat : Except Fault Value := do
  let expression ← n.get .expression
  if scope.inParameters then
    if expression.isNull then return .sym "*" else markedName ['*'] expression
  else if expression.isNull then build n.location .splat []
  else build n.location .splat [← conv scope expression]

end RubySexp.Convert
