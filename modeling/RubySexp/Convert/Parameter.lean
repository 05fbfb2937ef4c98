import RubySexp.Convert.Target

namespace RubySexp.Convert

/-!
# Parameters

The parameters of methods and blocks, in the order of the source.
-/

variable (conv : Conversion) (scope : Scope) (n : Node)

/-- The parameters in order. Only positional ones can be targets that are taken apart; defaults
are ordinary expressions. -/
def parameterList : Except Fault (List Value) := do
  let positional := { scope with inParameters := true }
  let requireds ← convertItems conv positional n .requireds
  let optionals ← convertItems conv scope n .optionals
  let rest ← convertOptional conv positional n .rest
  let posts ← convertItems conv positional n .posts
  let keywords ← convertItems conv scope n .keywords
  let keywordRest ← convertOptional conv scope n .keywordRest
  let block ← convertOptional conv scope n .block
  return requireds ++ optionals ++ rest ++ posts ++ keywords ++ keywordRest ++ block

def parameters : Except Fault Value := do
  build n.location .args (← parameterList conv scope n)

/-- A parameter with a default. -/
def optionalParameter : Except Fault Value := do
  let name ← nameIn n .name
  let value ← convertField conv scope n .value
  build n.location .lasgn [name, value]

/-- A keyword parameter with a default. -/
def optionalKeyword : Except Fault Value := do
  let name ← nameIn n .name
  let value ← convertField conv scope n .value
  build n.location .kwarg [name, value]

/-- A parameter that takes what is left, as a symbol with its mark; its name may be missing. -/
def restParameter (mark : List Char) : Except Fault Value := do
  let name ← n.get .name
  return symbolOf (mark ++ if name.truthy then name.render .spelled else [])

/-- Adds kids to the parameters of a block, if these are an expression. -/
def extendParameters (parameters : Value) (kids : List Value) : Except Fault Value :=
  match parameters with
  | .sexp tag present line maxLine => .ok (.sexp tag (present ++ kids) line maxLine)
  | .list _ => .ok .nil
  | _ => .error .noSuchPart

/-- The parameters of a block. Names that it keeps to itself stand at the end. -/
def blockParameters : Except Fault Value := do
  let locals ← n.get .locals
  let shadow ← if locals.truthy then
      do pure [← build n.location .shadow (← convertAll conv scope locals)]
    else pure []
  let declared ← n.get .parameters
  if declared.isNull then build n.location .args shadow
  else
    let parameters ← conv scope declared
    if shadow.isEmpty then return parameters else extendParameters parameters shadow

end RubySexp.Convert
