import RubySexp.Sexp.Basic

namespace RubySexp

/-!
# Conversion: Common Ground

Each construct has a rule that builds its expression from the conversions of its parts. A rule does
not call the whole conversion: it takes the conversion of smaller trees as a parameter, so that
every rule is a plain definition and what holds of the parts can be carried to the whole.

A rule converts the parts in the order in which their faults count: a fault found first is the
fault of the whole. The location of the node is looked at last, when the expression is built.
-/

/-- What a construct is nested in, as far as it changes the expression. -/
structure Scope where
  /-- In the body of a method, where a class variable is assigned and not declared. -/
  inDef : Bool := false
  /-- Among the positional parameters, where targets are written as parameters. -/
  inParameters : Bool := false
  /-- The path that stands for the source file, whatever the tree says. -/
  filepath : Option String := none
  deriving DecidableEq, Repr

/-- A conversion of trees to values. -/
abbrev Conversion := Scope → Tree → Except Fault Value

/-- The content of a field of a node that has it. -/
def Node.get (n : Node) (field : Field) : Except Fault Tree :=
  match n.get? field with
  | some tree => .ok tree
  | none => .error .noSuchPart

namespace Tree

/-- The content of a field; only nodes have fields. -/
def get (tree : Tree) (field : Field) : Except Fault Tree :=
  match tree.asNode? with
  | some n => n.get field
  | none => .error .noSuchPart

/-- The items of a sequence. A text is the sequence of its characters. -/
def elements : Tree → Except Fault (List Tree)
  | .tuple items => .ok items
  | .text s => .ok (s.toList.map fun c => .text (String.ofList [c]))
  | _ => .error .wrongType

end Tree

namespace Convert

/-- The expression of a node: its lines are those of the node's location. -/
def build (place : Option Location) (tag : Tag) (kids : List Value) : Except Fault Value :=
  match place with
  | some l => .ok (.sexp tag kids l.startLine l.endLine)
  | none => .error .noSuchPart

/-- Whether a value is a plain string. -/
def isStr (v : Value) : Bool := v.isA [.str]

/-- The symbol that a text makes. -/
def symbolOf (cs : List Char) : Value := .sym (String.ofList cs)

variable (conv : Conversion) (scope : Scope)

/-- The conversions of the items of a sequence. -/
def convertAll (tree : Tree) : Except Fault (List Value) := do
  (← tree.elements).mapM (conv scope)

/-- The conversion of a field of a node. -/
def convertField (n : Node) (field : Field) : Except Fault Value := do
  conv scope (← n.get field)

/-- The conversions of the items in a field of a node. -/
def convertItems (n : Node) (field : Field) : Except Fault (List Value) := do
  convertAll conv scope (← n.get field)

/-- The conversion of a tree that may be missing, as a list of at most one value. -/
def convertIfPresent (tree : Tree) : Except Fault (List Value) := do
  if tree.isNull then return [] else return [← conv scope tree]

/-- The conversion of a field that may be left empty, as a list of at most one value. -/
def convertOptional (n : Node) (field : Field) : Except Fault (List Value) := do
  convertIfPresent conv scope (← n.get field)

/-- The arguments of a call, none if there is no list of them. -/
def arguments (tree : Tree) : Except Fault (List Value) := do
  if tree.isNull then return [] else (← conv scope tree).items

/-- The statements of a body, none if there is no body. -/
def statements (tree : Tree) : Except Fault (List Value) := do
  if tree.isNull then return [] else convertAll conv scope (← tree.get .body)

/-- The statements of a clause, in which an empty body is written out. -/
def clauseBody (tree : Tree) : Except Fault (List Value) := do
  let body ← statements conv scope tree
  return if body.isEmpty then [.nil] else body

/-- A body as one value: a single statement stands for itself, more are put in a block. -/
def block (tree : Tree) : Except Fault Value := do
  match ← statements conv scope tree with
  | [] => return .nil
  | [statement] => return statement
  | body => build tree.location? .block body

end Convert

end RubySexp
