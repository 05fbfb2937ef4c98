import RubySexp.Convert.Basic
import RubySexp.Number.Rational

namespace RubySexp.Convert

/-!
# Literals

Numbers, texts, symbols, regular expressions, arrays, hashes, ranges and the words that stand for
a part of the source.
-/

/-- An integer; truth values count as 0 and 1. -/
def integer : Tree → Except Fault Int
  | .int n => .ok n
  | .bool b => .ok (if b then 1 else 0)
  | _ => .error .wrongType

/-- A quotient in lowest terms. -/
def quotient (n d : Int) : Except Fault Rat :=
  if d = 0 then .error .zeroDenominator else .ok (mkRat (if d < 0 then -n else n) d.natAbs)

/-- The number that stands alone as a rational: an integer, a finite float or a text. -/
def rationalOf : Tree → Except Fault Rat
  | .scalar (.float x) =>
    match Quantity.ofFloat x with
    | .exact q => .ok q
    | .infinite _ => .error .tooLarge
    | .undefined => .error .notANumber
  | .text s =>
    match RationalText.read s.toList with
    | .ok (n, d) => quotient n d
    | .error .malformed => .error (.notRational s)
    | .error (.notDigits cs) => .error (.notInteger (String.ofList cs))
  | tree => do return (← integer tree : Int)

/-- A rational literal. Without a denominator the numerator is the whole number. -/
def rational (n : Node) : Except Fault Value := do
  let numerator ← n.get .numerator
  let denominator ← n.get .denominator
  let q ← if denominator.isNull then rationalOf numerator
    else do quotient (← integer numerator) (← integer denominator)
  build n.location .lit [.rational q]

/-- The option bits of a regular expression. -/
def regexpOptions (n : Node) : Except Fault Nat := do
  let bit (field : Field) (value : Nat) : Except Fault Nat := do
    return if (← n.get field).truthy then value else 0
  let multiLine ← bit .multiLine 4
  let ignoreCase ← bit .ignoreCase 1
  let extended ← bit .extended 2
  let noEncoding ← bit .ascii8bit 32
  return multiLine + ignoreCase + extended + noEncoding

/-- A regular expression literal. -/
def regexp (n : Node) : Except Fault Value := do
  build n.location .lit [.regexp (← n.get .unescaped) (← regexpOptions n)]

variable (conv : Conversion) (scope : Scope) (n : Node)

/-- An imaginary literal: its number is the last item of the converted literal behind it. -/
def imaginary : Except Fault Value := do
  match (← convertField conv scope n .numeric).asSexp? with
  | some numeric => build n.location .lit [.imaginary (.int 0) numeric.value]
  | none => .error .noSuchPart

/-- The elements of a hash: keys and values in turn, and splats. -/
def pairs (field : Field) : Except Fault (List Value) := do
  let elements ← (← n.get field).elements
  let lists ← elements.mapM fun element => do (← conv scope element).items
  return lists.flatten

/-- The integer that a converted literal holds. -/
def integerLiteral? (v : Value) : Option Int :=
  match v.asSexp? with
  | some s =>
    match s.tag, s.value with
    | .lit, .int i => some i
    | _, _ => none
  | none => none

/-- A range. Between two integer literals it is a literal itself. -/
def range : Except Fault Value := do
  let left ← convertField conv scope n .left
  let right ← convertField conv scope n .right
  let excludeEnd ← n.get .excludeEnd
  match integerLiteral? left, integerLiteral? right with
  | some a, some b => build n.location .lit [.range (.int a) (.int b) excludeEnd.toValue]
  | _, _ => build n.location (if excludeEnd.truthy then .dot3 else .dot2) [left, right]

/-- The path of the source file: the scope's, else the tree's, else a stand-in. -/
def sourceFile : Except Fault Value := do
  let recorded ← n.get .filepath
  let path := match scope.filepath with
    | some path => if path == "" then none else some (Value.text path)
    | none => none
  let fallback := if recorded.truthy then recorded.toValue else .text "(string)"
  build n.location .str [path.getD fallback]

/-- The line on which the node stands. -/
def sourceLine : Except Fault Value :=
  match n.location with
  | some l => build n.location .lit [l.startLine.toValue]
  | none => .error .noSuchPart

/-- The encoding of the source is always the same constant. -/
def sourceEncoding : Except Fault Value := do
  let encoding ← build n.location .constant [.sym "Encoding"]
  build n.location .colon2 [encoding, .sym "UTF_8"]

/-- A `**` element of a hash. -/
def assocSplat : Except Fault Value := do
  let kids ← convertOptional conv scope n .value
  return .list [← build n.location .kwsplat kids]

/-- A key with its value. -/
def assoc : Except Fault Value := do
  let key ← convertField conv scope n .key
  let value ← convertField conv scope n .value
  return .list [key, value]

end RubySexp.Convert
