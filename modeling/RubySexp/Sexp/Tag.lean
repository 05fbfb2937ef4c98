namespace RubySexp

/-!
# Tags

The closed vocabulary of expression tags, in the order in which it is published: structure and
literals, variables, compound assignment, calls, control flow, definitions, patterns.
-/

/-- The tag of an expression. -/
inductive Tag where
  | block
  | beginExpr
  | nilLit
  | trueLit
  | falseLit
  | selfRef
  | lit
  | str
  | xstr
  | dstr
  | dxstr
  | dsym
  | dregx
  | dregxOnce
  | evstr
  | array
  | hash
  | dot2
  | dot3
  | lvar
  | lasgn
  | ivar
  | iasgn
  | cvar
  | cvdecl
  | cvasgn
  | gvar
  | gasgn
  | constant
  | cdecl
  | colon2
  | colon3
  | nthRef
  | backRef
  | opAsgn
  | opAsgn1
  | opAsgn2
  | safeOpAsgn2
  | opAsgnOr
  | opAsgnAnd
  | arglist
  | masgn
  | toAry
  | splat
  | svalue
  | call
  | safeCall
  | attrasgn
  | safeAttrasgn
  | iter
  | lambdaHead
  | args
  | shadow
  | kwarg
  | kwsplat
  | blockPass
  | forwardArgs
  | superCall
  | zsuperCall
  | yieldCall
  | matchLast
  | match2
  | match3
  | definedTest
  | ifElse
  | and
  | or
  | whileLoop
  | untilLoop
  | forLoop
  | caseOf
  | whenClause
  | inClause
  | returnJump
  | breakJump
  | nextJump
  | redoJump
  | retryJump
  | rescue
  | resbody
  | ensure
  | flip2
  | flip3
  | preexe
  | postexe
  | defn
  | defs
  | classDef
  | moduleDef
  | sclass
  | aliasName
  | aliasGlobal
  | undefName
  | arrayPat
  | findPat
  | hashPat
  | kwrest
  deriving DecidableEq, Repr

namespace Tag

/-- The spelling of a tag. -/
def name : Tag → String
  | .block => "block"
  | .beginExpr => "begin"
  | .nilLit => "nil"
  | .trueLit => "true"
  | .falseLit => "false"
  | .selfRef => "self"
  | .lit => "lit"
  | .str => "str"
  | .xstr => "xstr"
  | .dstr => "dstr"
  | .dxstr => "dxstr"
  | .dsym => "dsym"
  | .dregx => "dregx"
  | .dregxOnce => "dregx_once"
  | .evstr => "evstr"
  | .array => "array"
  | .hash => "hash"
  | .dot2 => "dot2"
  | .dot3 => "dot3"
  | .lvar => "lvar"
  | .lasgn => "lasgn"
  | .ivar => "ivar"
  | .iasgn => "iasgn"
  | .cvar => "cvar"
  | .cvdecl => "cvdecl"
  | .cvasgn => "cvasgn"
  | .gvar => "gvar"
  | .gasgn => "gasgn"
  | .constant => "const"
  | .cdecl => "cdecl"
  | .colon2 => "colon2"
  | .colon3 => "colon3"
  | .nthRef => "nth_ref"
  | .backRef => "back_ref"
  | .opAsgn => "op_asgn"
  | .opAsgn1 => "op_asgn1"
  | .opAsgn2 => "op_asgn2"
  | .safeOpAsgn2 => "safe_op_asgn2"
  | .opAsgnOr => "op_asgn_or"
  | .opAsgnAnd => "op_asgn_and"
  | .arglist => "arglist"
  | .masgn => "masgn"
  | .toAry => "to_ary"
  | .splat => "splat"
  | .svalue => "svalue"
  | .call => "call"
  | .safeCall => "safe_call"
  | .attrasgn => "attrasgn"
  | .safeAttrasgn => "safe_attrasgn"
  | .iter => "iter"
  | .lambdaHead => "lambda"
  | .args => "args"
  | .shadow => "shadow"
  | .kwarg => "kwarg"
  | .kwsplat => "kwsplat"
  | .blockPass => "block_pass"
  | .forwardArgs => "forward_args"
  | .superCall => "super"
  | .zsuperCall => "zsuper"
  | .yieldCall => "yield"
  | .matchLast => "match"
  | .match2 => "match2"
  | .match3 => "match3"
  | .definedTest => "defined"
  | .ifElse => "if"
  | .and => "and"
  | .or => "or"
  | .whileLoop => "while"
  | .untilLoop => "until"
  | .forLoop => "for"
  | .caseOf => "case"
  | .whenClause => "when"
  | .inClause => "in"
  | .returnJump => "return"
  | .breakJump => "break"
  | .nextJump => "next"
  | .redoJump => "redo"
  | .retryJump => "retry"
  | .rescue => "rescue"
  | .resbody => "resbody"
  | .ensure => "ensure"
  | .flip2 => "flip2"
  | .flip3 => "flip3"
  | .preexe => "preexe"
  | .postexe => "postexe"
  | .defn => "defn"
  | .defs => "defs"
  | .classDef => "class"
  | .moduleDef => "module"
  | .sclass => "sclass"
  | .aliasName => "alias"
  | .aliasGlobal => "valias"
  | .undefName => "undef"
  | .arrayPat => "array_pat"
  | .findPat => "find_pat"
  | .hashPat => "hash_pat"
  | .kwrest => "kwrest"

/-- The whole vocabulary. -/
def all : List Tag := [
  .block, .beginExpr, .nilLit, .trueLit, .falseLit, .selfRef, .lit, .str, .xstr, .dstr, .dxstr,
  .dsym, .dregx, .dregxOnce, .evstr, .array, .hash, .dot2, .dot3, .lvar, .lasgn, .ivar, .iasgn,
  .cvar, .cvdecl, .cvasgn, .gvar, .gasgn, .constant, .cdecl, .colon2, .colon3, .nthRef,
  .backRef, .opAsgn, .opAsgn1, .opAsgn2, .safeOpAsgn2, .opAsgnOr, .opAsgnAnd, .arglist, .masgn,
  .toAry, .splat, .svalue, .call, .safeCall, .attrasgn, .safeAttrasgn, .iter, .lambdaHead,
  .args, .shadow, .kwarg, .kwsplat, .blockPass, .forwardArgs, .superCall, .zsuperCall,
  .yieldCall, .matchLast, .match2, .match3, .definedTest, .ifElse, .and, .or, .whileLoop,
  .untilLoop, .forLoop, .caseOf, .whenClause, .inClause, .returnJump, .breakJump, .nextJump,
  .redoJump, .retryJump, .rescue, .resbody, .ensure, .flip2, .flip3, .preexe, .postexe, .defn,
  .defs, .classDef, .moduleDef, .sclass, .aliasName, .aliasGlobal, .undefName, .arrayPat,
  .findPat, .hashPat, .kwrest]

/-- The tag with a given spelling. -/
def ofName? (name : String) : Option Tag := all.find? (·.name == name)

end Tag

end RubySexp
