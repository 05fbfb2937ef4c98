import RubySexp.Convert.Variable

namespace RubySexp.Convert

/-!
# Calls

Calls with their arguments and blocks, and assignments through calls and indices.
-/

variable (conv : Conversion) (scope : Scope) (n : Node)

/-- Operators that end in `=` without being assignments. -/
def comparisons : List String := ["==", "!=", "===", "<=", ">="]

/-- Whether a call assigns, as `x.y = 1` does. -/
def isAttributeWrite (name : String) : Bool :=
  name.toList.getLast? == some '=' && !comparisons.contains name

/-- The parameters of a block. A block that declares none is marked with zero, and so is one
with numbered parameters, which read as calls. -/
def blockSlot (parameters : Tree) : Except Fault Value :=
  if parameters.isNull || parameters.isA .numberedParametersNode then .ok (.int 0)
  else conv scope parameters

/-- Adds the block of a node to a finished call: a literal block wraps the call, any other is its
last argument. -/
def attachBlock (call : Value) : Except Fault Value := do
  let block ← n.get .block
  if block.isNull then return call
  else if block.isA .blockNode then
    let parameters ← blockSlot conv scope (← block.get .parameters)
    let body ← if (← block.get .body).isNull then pure [] else do pure [← conv scope block]
    build n.location .iter ([call, parameters] ++ body)
  else
    let last ← conv scope block
    match call.asSexp? with
    | some s => return (s.append [last]).toValue
    | none => .error .noSuchPart

/-- A match of a literal string or regular expression; the regular expression comes first. -/
def literalMatch (receiver : Tree) : Except Fault Value := do
  match ← arguments conv scope (← n.get .arguments) with
  | [] => .error .noItem
  | argument :: _ =>
    let subject ← conv scope receiver
    if receiver.isA .stringNode then build n.location .match3 [argument, subject]
    else build n.location .match2 [subject, argument]

/-- A call or an assignment through one. -/
def plainCall (name : Tree) (receiver : Tree) : Except Fault Value := do
  match name with
  | .text spelling =>
    let safe := (← n.get .safeNavigation).truthy
    let tag : Tag := match isAttributeWrite spelling, safe with
      | true, true => .safeAttrasgn
      | true, false => .attrasgn
      | false, true => .safeCall
      | false, false => .call
    let subject ← conv scope receiver
    let given ← arguments conv scope (← n.get .arguments)
    let call ← build n.location tag ([subject, .symbol name] ++ given)
    attachBlock conv scope n call
  | _ => .error .noSuchPart

/-- A call. Matching against a literal has expressions of its own. -/
def call : Except Fault Value := do
  let name ← n.get .name
  let receiver ← n.get .receiver
  let isMatch := match name with
    | .text spelling => spelling == "=~"
    | _ => false
  if isMatch && (receiver.isA .stringNode || receiver.isA .regularExpressionNode) then
    literalMatch conv scope n receiver
  else plainCall conv scope n name receiver

/-- A call of the method above, with arguments. -/
def superCall : Except Fault Value := do
  let given ← arguments conv scope (← n.get .arguments)
  attachBlock conv scope n (← build n.location .superCall given)

/-- A call of the method above with the arguments of the present one. -/
def forwardingSuper : Except Fault Value := do
  attachBlock conv scope n (← build n.location .zsuperCall [])

/-- A call of the block. -/
def yieldCall : Except Fault Value := do
  build n.location .yieldCall (← arguments conv scope (← n.get .arguments))

/-- A lambda, written as a block of its own head. -/
def lambda : Except Fault Value := do
  let parameters ← blockSlot conv scope (← n.get .parameters)
  let head ← build n.location .lambdaHead []
  let body ← convertOptional conv scope n .body
  build n.location .iter ([head, parameters] ++ body)

/-- Code that runs before or after the program, written as a block of its own head. -/
def execution (tag : Tag) : Except Fault Value := do
  let head ← build n.location tag []
  let body ← convertOptional conv scope n .statements
  build n.location .iter ([head, .int 0] ++ body)

/-- A block passed as an argument. -/
def blockArgument : Except Fault Value := do
  build n.location .blockPass (← convertOptional conv scope n .expression)

/-- An assignment `x.y += v`, with the symbol of its operator. -/
def callWrite (operator : Value) : Except Fault Value := do
  let safe := (← n.get .safeNavigation).truthy
  let receiver ← convertField conv scope n .receiver
  let name ← nameIn n .writeName
  let value ← convertField conv scope n .value
  build n.location (if safe then .safeOpAsgn2 else .opAsgn2) [receiver, name, operator, value]

/-- An assignment `x[i] += v`, with the symbol of its operator. -/
def indexWrite (operator : Value) : Except Fault Value := do
  let indices ← n.get .arguments
  let given ← arguments conv scope indices
  let place := if indices.truthy then indices.location? else n.location
  let list ← build place .arglist given
  let receiver ← convertField conv scope n .receiver
  let value ← convertField conv scope n .value
  build n.location .opAsgn1 [receiver, list, operator, value]

/-- An attribute among the targets of an assignment. -/
def callTarget : Except Fault Value := do
  let safe := (← n.get .safeNavigation).truthy
  let receiver ← convertField conv scope n .receiver
  build n.location (if safe then .safeAttrasgn else .attrasgn) [receiver, ← nameIn n .name]

/-- An indexed place among the targets of an assignment. -/
def indexTarget : Except Fault Value := do
  let receiver ← convertField conv scope n .receiver
  let given ← arguments conv scope (← n.get .arguments)
  build n.location .attrasgn ([receiver, .sym "[]="] ++ given)

end RubySexp.Convert
