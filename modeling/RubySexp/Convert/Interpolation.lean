import RubySexp.Convert.Literal

namespace RubySexp.Convert

/-!
# Interpolation

A literal with computed parts keeps its texts folded: the first part is always bare text, and
texts next to each other become one. A literal in which nothing computed is left is an ordinary
literal. The folded parts are kept latest first, where the next part is joined to them.
-/

/-- The literals that can have computed parts. -/
inductive Interpolated where
  | string
  | command
  | symbol
  | regexp
  deriving DecidableEq, Repr

/-- The tag of a literal with computed parts. -/
def Interpolated.tag : Interpolated → Tag
  | .string => .dstr
  | .command => .dxstr
  | .symbol => .dsym
  | .regexp => .dregx

/-- The literal without computed parts. -/
def plainLiteral (n : Node) (form : Interpolated) (content : String) : Except Fault Value :=
  match form with
  | .string => build n.location .str [.text content]
  | .command => build n.location .xstr [.text content]
  | .symbol => build n.location .lit [.sym content]
  | .regexp => do build n.location .lit [.regexp (.text content) (← regexpOptions n)]

/-- Adds a converted part behind the folded ones. A string joins the text before it. -/
def absorb (folded : List Value) (part : Value) : Except Fault (List Value) :=
  match part.asSexp?, folded with
  | some s, last :: before =>
    if s.tag == .str then
      match last, last.asSexp? with
      | .text _, _ => do return (← last.join s.value) :: before
      | _, some t =>
        if t.tag == .str then do
          return (← t.replaceValue (← t.value.join s.value)).toValue :: before
        else .ok (part :: folded)
      | _, none => .ok (part :: folded)
    else .ok (part :: folded)
  | _, _ => .ok (part :: folded)

variable (conv : Conversion) (scope : Scope) (n : Node)

/-- Converts a part and adds it. The parts of a string inside the literal are added one by one. -/
def absorbTree (folded : List Value) (part : Tree) : Except Fault (List Value) := do
  let converted ← conv scope part
  match part.isA .interpolatedStringNode, converted with
  | true, .sexp .dstr (head :: rest) _ _ =>
    let folded ← if head.truthy then do absorb folded (← build part.location? .str [head])
      else pure folded
    rest.foldlM absorb folded
  | _, _ => absorb folded converted

/-- The folded parts of a literal, latest first. -/
def foldParts : List Tree → Except Fault (List Value)
  | [] => .ok []
  | first :: rest => do
    let start ← if first.isA .stringNode then do pure [(← first.get .unescaped).toValue]
      else absorbTree conv scope [.text ""] first
    rest.foldlM (absorbTree conv scope) start

/-- A literal with parts. -/
def interpolated (form : Interpolated) : Except Fault Value := do
  let parts ← (← n.get .parts).elements
  match ← foldParts conv scope parts with
  | [] => plainLiteral n form ""
  | [.text content] => plainLiteral n form content
  | folded => build n.location form.tag folded.reverse

/-- A regular expression with parts: its options stand behind them, and one that is computed
only once has a tag of its own. -/
def interpolatedRegexp : Except Fault Value := do
  match ← interpolated conv scope n .regexp with
  | .sexp .dregx kids line maxLine =>
    let options ← regexpOptions n
    let once ← n.get .once
    let kids := if options = 0 then kids else kids ++ [.int options]
    return .sexp (if once.truthy then .dregxOnce else .dregx) kids line maxLine
  | literal => return literal

/-- A bare regular expression with parts as a condition: it is matched with the last line read. -/
def interpolatedMatch : Except Fault Value := do
  let regexp ← interpolatedRegexp conv scope n
  if regexp.isA [.lit] then build n.location .matchLast [regexp]
  else build n.location .match2 [regexp, ← build n.location .gvar [.sym "$_"]]

/-- A bare regular expression as a condition. -/
def matchLastLine : Except Fault Value := do
  build n.location .matchLast [← regexp n]

/-- Computed statements inside a literal. A string among them needs no computation. -/
def embeddedStatements : Except Fault Value := do
  let body ← n.get .statements
  if body.isNull then build n.location .evstr []
  else
    let inner ← conv scope body
    if isStr inner then return inner else build n.location .evstr [inner]

/-- A variable inside a literal. -/
def embeddedVariable : Except Fault Value := do
  build n.location .evstr [← convertField conv scope n .variable]

end RubySexp.Convert
