import RubySexp.Convert.Variable

namespace RubySexp.Convert

/-!
# Control Flow

Conditions, loops, jumps and handlers of exceptions.
-/

variable (conv : Conversion) (scope : Scope) (n : Node)

/-- An expression of the conversions of two fields. -/
def binary (tag : Tag) (first second : Field) : Except Fault Value := do
  let a ← convertField conv scope n first
  let b ← convertField conv scope n second
  build n.location tag [a, b]

/-- An expression of the conversion of one field. -/
def unary (tag : Tag) (field : Field) : Except Fault Value := do
  build n.location tag [← convertField conv scope n field]

/-- A condition with what is done if it holds and if it does not. -/
def conditional (holds fails : Field) : Except Fault Value := do
  let predicate ← convertField conv scope n .predicate
  let yes ← convertField conv scope n holds
  let no ← convertField conv scope n fails
  build n.location .ifElse [predicate, yes, no]

/-- A loop; the flag tells whether its condition is tested before the first round. -/
def loop (tag : Tag) : Except Fault Value := do
  let predicate ← convertField conv scope n .predicate
  let body ← convertField conv scope n .statements
  let testedLast := (← n.get .beginModifier).truthy
  build n.location tag [predicate, body, .bool !testedLast]

def forLoop : Except Fault Value := do
  let collection ← convertField conv scope n .collection
  let index ← convertField conv scope n .index
  let body ← convertOptional conv scope n .statements
  build n.location .forLoop ([collection, index] ++ body)

/-- A choice between clauses. -/
def caseOf : Except Fault Value := do
  let predicate ← convertField conv scope n .predicate
  let clauses ← convertItems conv scope n .conditions
  let otherwise ← convertField conv scope n .elseClause
  build n.location .caseOf (predicate :: (clauses ++ [otherwise]))

def whenClause : Except Fault Value := do
  let conditions ← build n.location .array (← convertItems conv scope n .conditions)
  let body ← clauseBody conv scope (← n.get .statements)
  build n.location .whenClause (conditions :: body)

/-- A jump with no value, one value or several. -/
def jump (tag : Tag) : Except Fault Value := do
  let values ← n.get .arguments
  if values.isNull then build n.location tag []
  else
    match ← arguments conv scope values with
    | [] => .error .noItem
    | [value] =>
      let value ← if value.isA [.splat] then build n.location .svalue [value] else pure value
      build n.location tag [value]
    | several => build n.location tag [← build n.location .array several]

/-- A switch that a condition turns on and another turns off. -/
def flipFlop : Except Fault Value := do
  let excludeEnd := (← n.get .excludeEnd).truthy
  binary conv scope n (if excludeEnd then .flip3 else .flip2) .left .right

/-- The handlers of a body: a handler and those that follow it. -/
def handlers : Tree → List Tree
  | .null => []
  | .node kind location fields => .node kind location fields :: next fields
  | tree => [tree]
where
  /-- The handlers that the fields of a handler name as following. -/
  next : List (Field × Tree) → List Tree
  | [] => []
  | (field, tree) :: rest => if field == .subsequent then handlers tree else next rest

/-- The target that an exception is assigned to, with the exception as its value. -/
def caught (reference : Tree) : Except Fault Value := do
  let target ← conv scope reference
  match target with
  | .sexp tag kids line maxLine =>
    let exception ← build reference.location? .gvar [.sym "$!"]
    return .sexp tag (kids ++ [exception]) line maxLine
  | .list _ => do
    let _ ← build reference.location? .gvar [.sym "$!"]
    return .nil
  | _ => .error .noSuchPart

/-- A handler: the exceptions with the target, and the statements of its body. -/
def handler (tree : Tree) : Except Fault Value := do
  let exceptions ← convertAll conv scope (← tree.get .exceptions)
  let reference ← tree.get .reference
  let target ← if reference.isNull then pure [] else do pure [← caught conv scope reference]
  let body ← clauseBody conv scope (← tree.get .statements)
  let list ← build tree.location? .array (exceptions ++ target)
  build tree.location? .resbody (list :: body)

/-- A handler behind an expression. -/
def rescueModifier : Except Fault Value := do
  let list ← build n.location .array []
  let body ← convertField conv scope n .rescueExpression
  let clause ← build n.location .resbody [list, body]
  let expression ← convertField conv scope n .expression
  build n.location .rescue [expression, clause]

/-- A converted body with what is done if nothing is raised, without handlers. -/
def followedBy (body : Value) (otherwise : Tree) : Except Fault Value := do
  match body.asSexp? with
  | some s =>
    let head := if s.tag == .block then s.kids else [body]
    let last ← conv scope otherwise
    build n.location .block (head ++ [last])
  | none => .error .noSuchPart

/-- A body with its handlers and with what is done if nothing is raised. -/
def handled (statements : Tree) (body : Value) : Except Fault Value := do
  let rescueClause ← n.get .rescueClause
  let otherwise ← n.get .elseClause
  if rescueClause.isNull then
    if otherwise.isNull then return body else followedBy conv scope n body otherwise
  else
    let head := if statements.isNull then [] else [body]
    let clauses ← (handlers rescueClause).mapM (handler conv scope)
    let last ← convertIfPresent conv scope otherwise
    let place := if statements.isNull then rescueClause.location? else statements.location?
    build place .rescue (head ++ clauses ++ last)

/-- A body with its handlers and with what is done in any case. -/
def beginBody : Except Fault Value := do
  let statements ← n.get .statements
  let body ← if statements.isNull then build n.location .nilLit [] else conv scope statements
  let result ← handled conv scope n statements body
  let ensureClause ← n.get .ensureClause
  if ensureClause.isNull then return result
  else
    let last ← conv scope ensureClause
    build ensureClause.location? .ensure [result, last]

/-- The conversion of a field; if it is empty, nil written out. -/
def orNil (field : Field) : Except Fault Value := do
  let tree ← n.get field
  if tree.isNull then build n.location .nilLit [] else conv scope tree

end RubySexp.Convert
