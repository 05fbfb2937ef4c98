import RubySexp.Convert.Rule

namespace RubySexp

/-!
# Conversion

The conversion of a syntax tree to an expression. The rule of a node is given the conversion of
trees that are less high, and the height of the tree is enough for all of it.
-/

namespace Convert

/-- The conversion of content that is no node: nothing stays nothing. -/
def leaf : Tree → Except Fault Value
  | .null => .ok .nil
  | tree => .error (unsupported tree none)

/-- The conversion of trees up to a height. -/
def convertAt : Nat → Conversion
  | height + 1, scope, .node kind location fields =>
    rule (convertAt height) scope ⟨kind, location, fields⟩
  | _, _, tree => leaf tree

/-- What the log says of an outcome. Content without a conversion is noted, unless the fault
states a reason of its own. -/
def notes {α : Type} : Except Fault α → List String
  | .error (.unsupported kind _ none) => ["No conversion for " ++ kind]
  | _ => []

/-- What the log says when a conversion starts. -/
def opening (tree : Tree) : String :=
  let place := match tree.location? with
    | some l => String.ofList l.format
    | none => "?"
  "Converting " ++ tree.typeName ++ " at " ++ place

end Convert

/-- The conversion of a tree. -/
def Tree.convert (tree : Tree) (scope : Scope) : Except Fault Value :=
  Convert.convertAt tree.height scope tree

/-- The log of the conversion of a tree. -/
def Tree.convertLog (tree : Tree) (scope : Scope) : List String :=
  Convert.opening tree :: Convert.notes (tree.convert scope)

/-- The conversions of the statements in a body. -/
def Tree.convertStatements (tree : Tree) (scope : Scope) : Except Fault (List Value) :=
  Convert.statements (Convert.convertAt tree.height) scope tree

/-- The conversion of a body as one value. -/
def Tree.convertBlock (tree : Tree) (scope : Scope) : Except Fault Value :=
  Convert.block (Convert.convertAt tree.height) scope tree

end RubySexp
