import RubySexp.Value.Equality
import RubySexp.Value.Print

namespace RubySexp

/-!
# Expressions

Building expressions from others, looking inside them, and comparing an expected expression with
an actual one. The expected one may leave lines out: lines are compared where it states them.
-/

namespace Sexp

/-- The last item: the last kid, or the tag of an expression without kids. -/
def value (s : Sexp) : Value := s.kids.getLast?.getD (.sym s.tag.name)

def append (s : Sexp) (kids : List Value) : Sexp := { s with kids := s.kids ++ kids }

def retag (s : Sexp) (tag : Tag) : Sexp := { s with tag := tag }

/-- An expression with another tag, given by its spelling. -/
def retagNamed (s : Sexp) (name : String) : Except Fault Sexp :=
  match Tag.ofName? name with
  | some tag => .ok (s.retag tag)
  | none => .error (.unknownTag name)

/-- An expression with one kid, with another value in its place. -/
def replaceValue (s : Sexp) (v : Value) : Except Fault Sexp :=
  match s.kids with
  | [_] => .ok { s with kids := [v] }
  | _ => do .error (.notSingle (← s.toValue.inspect))

end Sexp

namespace Value

mutual

/-- The expressions with a tag at and below a value, from the outside in. Only kids of
expressions are entered. -/
def findAll (name : String) : Value → List Sexp
  | .sexp tag kids line maxLine =>
    (if tag.name == name then [⟨tag, kids, line, maxLine⟩] else []) ++ findAllKids name kids
  | _ => []

def findAllKids (name : String) : List Value → List Sexp
  | [] => []
  | kid :: rest => findAll name kid ++ findAllKids name rest

end

/-- Whether an expected line is left open or is the actual one. -/
def lineFits : Json → Json → Bool
  | .scalar .null, _ => true
  | expected, actual => expected.same actual

mutual

/-- Whether an actual value is what an expected one describes: they are equal, types included,
and, where lines are compared, each line stated in the expected one is the actual one. -/
def accepts (lines : Bool) : Value → Value → Bool
  | .sexp tag kids line maxLine, .sexp tag' kids' line' maxLine' =>
    tag == tag' && (!lines || lineFits line line' && lineFits maxLine maxLine') &&
      acceptsKids lines kids kids'
  | expected, actual => sameType expected actual && same expected actual

def acceptsKids (lines : Bool) : List Value → List Value → Bool
  | [], [] => true
  | kid :: rest, kid' :: rest' => accepts lines kid kid' && acceptsKids lines rest rest'
  | _, _ => false

end

end Value

namespace Sexp

def findAll (s : Sexp) (name : String) : List Sexp := s.toValue.findAll name

def find? (s : Sexp) (name : String) : Option Sexp := (s.findAll name).head?

end Sexp

end RubySexp
