import RubySexp.Convert.Variable

namespace RubySexp.Convert

/-!
# Definitions

Methods, classes, modules, and the words that give names to methods or take them away.
-/

variable (conv : Conversion) (scope : Scope) (n : Node)

/-- The body of a definition: statements stand in it one by one. -/
def definitionBody (body : Tree) : Except Fault (List Value) := do
  if body.isNull then return []
  else if body.isA .statementsNode then statements conv scope body
  else return [← conv scope body]

/-- A method. An empty body is written out. -/
def method : Except Fault Value := do
  let inner := { scope with inDef := true, inParameters := false }
  let declared ← n.get .parameters
  let parameters ← if declared.isNull then build n.location .args [] else conv inner declared
  let content ← n.get .body
  let body ← if content.isNull then do pure [← build n.location .nilLit []]
    else definitionBody conv inner content
  let receiver ← n.get .receiver
  let name ← nameIn n .name
  if receiver.isNull then build n.location .defn ([name, parameters] ++ body)
  else
    let owner ← conv scope receiver
    build n.location .defs ([owner, name, parameters] ++ body)

/-- The name of a class or module: a symbol unless it has a path. -/
def definitionName (path : Tree) : Except Fault Value := do
  if path.isA .constantReadNode then return .symbol (← path.get .name) else conv scope path

/-- The scope of the body of a class or module. -/
def bodyScope : Scope := { scope with inDef := false }

def classDefinition : Except Fault Value := do
  let name ← definitionName conv scope (← n.get .constantPath)
  let superclass ← convertField conv scope n .superclass
  let body ← definitionBody conv (bodyScope scope) (← n.get .body)
  build n.location .classDef ([name, superclass] ++ body)

def moduleDefinition : Except Fault Value := do
  let name ← definitionName conv scope (← n.get .constantPath)
  let body ← definitionBody conv (bodyScope scope) (← n.get .body)
  build n.location .moduleDef (name :: body)

/-- The class of a single object. -/
def singletonClass : Except Fault Value := do
  let object ← convertField conv scope n .expression
  let body ← definitionBody conv (bodyScope scope) (← n.get .body)
  build n.location .sclass (object :: body)

/-- Another name for a global variable. -/
def aliasGlobal : Except Fault Value := do
  let fresh ← (← n.get .newName).get .name
  let known ← (← n.get .oldName).get .name
  build n.location .aliasGlobal [.symbol fresh, .symbol known]

/-- Methods that are taken away, each with an expression of its own. -/
def undefine : Except Fault Value := do
  match ← (← n.get .names).elements with
  | [name] => build n.location .undefName [← conv scope name]
  | names =>
    let removals ← names.mapM fun name => do
      build name.location? .undefName [← conv scope name]
    build n.location .block removals

end RubySexp.Convert
