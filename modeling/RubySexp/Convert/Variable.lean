import RubySexp.Convert.Basic

namespace RubySexp.Convert

/-!
# Variables and Constants

Reading, assigning and combined assignments such as `x ||= v` and `x += v`, for all sorts of
variables alike: a sort has a tag for reading and one for writing.
-/

/-- The sorts of names that can be read and assigned. -/
inductive Variable where
  | localVar
  | instanceVar
  | classVar
  | globalVar
  | constant
  deriving DecidableEq, Repr

namespace Variable

def readTag : Variable → Tag
  | .localVar => .lvar
  | .instanceVar => .ivar
  | .classVar => .cvar
  | .globalVar => .gvar
  | .constant => .constant

/-- The tag of an assignment. A class variable is assigned in a method and declared elsewhere. -/
def writeTag (scope : Scope) : Variable → Tag
  | .localVar => .lasgn
  | .instanceVar => .iasgn
  | .classVar => if scope.inDef then .cvasgn else .cvdecl
  | .globalVar => .gasgn
  | .constant => .cdecl

end Variable

variable (conv : Conversion) (scope : Scope) (n : Node)

/-- The symbol of the name in a field. -/
def nameIn (field : Field) : Except Fault Value := do
  return .symbol (← n.get field)

/-- An expression that holds only the name of its node. -/
def named (tag : Tag) : Except Fault Value := do
  build n.location tag [← nameIn n .name]

/-- A variable that is read. -/
def variableRead (sort : Variable) : Except Fault Value := named n sort.readTag

/-- A variable among the targets of an assignment. -/
def variableTarget (sort : Variable) : Except Fault Value := named n (sort.writeTag scope)

/-- Whether a name is that of a numbered block parameter, `_1` to `_9`. -/
def isNumberedParameter (name : String) : Bool :=
  match name.toList with
  | ['_', digit] => '1' ≤ digit && digit ≤ '9'
  | _ => false

/-- A local variable that is read. A numbered parameter reads as a call. -/
def localRead : Except Fault Value := do
  match ← n.get .name with
  | .text name =>
    if isNumberedParameter name then build n.location .call [.nil, .sym name]
    else variableRead n .localVar
  | _ => .error .wrongType

/-- A list without brackets on the right side of an assignment to one target: it is marked, and a
lone splat is taken out of it. -/
def implicitList (array : Node) (converted : Value) : Except Fault Value := do
  let elements ← (← array.get .elements).elements
  let content := match elements, converted with
    | [element], .sexp _ (kid :: _) _ _ => if element.isA .splatNode then kid else converted
    | _, _ => converted
  build array.location .svalue [content]

/-- The right side of an assignment to one target. -/
def assignedValue (value : Tree) : Except Fault Value := do
  let converted ← conv scope value
  match value.asNode? with
  | some array =>
    if array.kind == .arrayNode then
      if (← array.get .openingLoc).isNull then implicitList array converted else return converted
    else return converted
  | none => return converted

/-- An assignment `x = v`. -/
def variableWrite (sort : Variable) : Except Fault Value := do
  let name ← nameIn n .name
  let value ← assignedValue conv scope (← n.get .value)
  build n.location (sort.writeTag scope) [name, value]

/-- An assignment `x ||= v` or `x &&= v`: the variable as it is read, and the assignment. -/
def variableLogicWrite (tag : Tag) (sort : Variable) : Except Fault Value := do
  let name ← nameIn n .name
  let read ← build n.location sort.readTag [name]
  let value ← convertField conv scope n .value
  let write ← build n.location (sort.writeTag scope) [name, value]
  build n.location tag [read, write]

/-- An assignment `x += v`: the call `x + v` is assigned. -/
def variableOperatorWrite (sort : Variable) : Except Fault Value := do
  let name ← nameIn n .name
  let read ← build n.location sort.readTag [name]
  let operator ← nameIn n .binaryOperator
  let value ← convertField conv scope n .value
  let call ← build n.location .call [read, operator, value]
  build n.location (sort.writeTag scope) [name, call]

/-- The last character of a back reference names it. -/
def backReference : Except Fault Value := do
  match ← n.get .name with
  | .text name =>
    match name.toList.getLast? with
    | some c => build n.location .backRef [symbolOf [c]]
    | none => .error .noItem
  | .tuple items =>
    match items.getLast? with
    | some last => build n.location .backRef [.symbol last]
    | none => .error .noItem
  | _ => .error .wrongType

/-- A constant in a scope, `A::B`, or at the top, `::B`. -/
def constantPath : Except Fault Value := do
  let parent ← n.get .parent
  if parent.isNull then build n.location .colon3 [← nameIn n .name]
  else
    let outer ← conv scope parent
    build n.location .colon2 [outer, ← nameIn n .name]

/-- An assignment `A::B = v`. -/
def constantPathWrite : Except Fault Value := do
  let target ← convertField conv scope n .target
  let value ← assignedValue conv scope (← n.get .value)
  build n.location .cdecl [target, value]

/-- An assignment `A::B ||= v` or `A::B &&= v`. -/
def constantPathLogicWrite (tag : Tag) : Except Fault Value := do
  let target ← convertField conv scope n .target
  let value ← convertField conv scope n .value
  build n.location tag [target, value]

/-- An assignment `A::B += v`. -/
def constantPathOperatorWrite : Except Fault Value := do
  let target ← convertField conv scope n .target
  let operator ← nameIn n .binaryOperator
  let value ← convertField conv scope n .value
  build n.location .opAsgn [target, operator, value]

end RubySexp.Convert
