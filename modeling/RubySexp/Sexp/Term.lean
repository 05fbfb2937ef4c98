import RubySexp.Sexp.Atom
import RubySexp.Sexp.Basic

namespace RubySexp

/-!
# Terms

A printed expression as it is written: atoms, and items in brackets with line marks behind them.
The value of a term is built from the inside out and from left to right, and the first term
without a value decides why the whole has none.
-/

/-- Which line a mark states. -/
inductive LineKey where
  | line
  | maxLine
  deriving DecidableEq, Repr

/-- A printed value. -/
inductive Term where
  | atom (a : Atom)
  | sexp (items : List Term) (marks : List (LineKey × Int))

namespace Term

/-- Why a term has no value. -/
inductive Problem where
  | noTag
  | unknownTag (name : String)
  | zeroDenominator (numerator : Int)
  | notNumber (text : List Char)
  | noCharacter (code : Nat)
  deriving DecidableEq, Repr

def Problem.message : Problem → String
  | .noTag => "Sexp must start with a tag symbol"
  | .unknownTag name => (Fault.unknownTag name).message
  | .zeroDenominator n => "Fraction(" ++ String.ofList (intText n) ++ ", 0)"
  | .notNumber text => "could not convert string to float: " ++ String.ofList (Quoted.text text)
  | .noCharacter code =>
    if code ≤ 0x7fffffff then "chr() arg not in range(0x110000)"
    else "Python int too large to convert to C int"

end Term

namespace Numeral

/-- The power of ten that an exponent states. -/
def power : List Char → Int
  | 'e' :: '-' :: digits => -digitsValue digits
  | 'e' :: '+' :: digits => digitsValue digits
  | 'e' :: digits => digitsValue digits
  | _ => 0

/-- The value of a numeral: an integer unless it has a point or a power of ten. With more than one
point, or without a digit, it is no number. -/
def value (n : Numeral) : Except Term.Problem Value :=
  if n.exponent.isEmpty && !n.mantissa.contains '.' then
    .ok (.int (Atom.signed n.negative n.mantissa))
  else if n.mantissa.count '.' ≤ 1 && n.mantissa.any isDigit then
    let decimals := (n.mantissa.dropWhile (· != '.')).drop 1
    let coefficient := digitsValue (n.mantissa.filter (· != '.'))
    .ok (.scalar (.float (Binary64.ofDecimal n.negative coefficient
      (power n.exponent - decimals.length))))
  else .error (.notNumber (n.mantissa ++ n.exponent))

end Numeral

namespace Atom

/-- The value of a ratio. -/
def quotient (numerator : Int) (denominator : Nat) : Except Term.Problem Rat :=
  if denominator = 0 then .error (.zeroDenominator numerator)
  else .ok (mkRat numerator denominator)

/-- The text of a body with escapes. -/
def bodyText (body : List Char) : Except Term.Problem String :=
  match RubyQuoted.unescape body with
  | .ok cs => .ok (String.ofList cs)
  | .error code => .error (.noCharacter code)

/-- The source of a regular expression: slashes stand without a backslash. -/
def regexpSource : List Char → List Char
  | [] => []
  | '\\' :: '/' :: cs => '/' :: regexpSource cs
  | c :: cs => c :: regexpSource cs

/-- The option bits that letters stand for. -/
def regexpOptions (flags : List Char) : Nat :=
  (Value.regexpLetters.filter fun (c, _) => flags.contains c).foldr (·.2 + ·) 0

/-- The value of an imaginary part. -/
def imaginaryValue : ImaginarySpelling → Except Term.Problem Value
  | .numeral n => n.value
  | .ratio negative numerator denominator => do
    let q ← quotient numerator denominator
    return .rational (if negative then -q else q)

/-- The value of an atom. -/
def value : Atom → Except Term.Problem Value
  | .nothing => .ok .nil
  | .truth b => .ok (.bool b)
  | .symbol name => .ok (.sym (String.ofList name))
  | .quotedSymbol body => do return .sym (← bodyText body)
  | .string body => do return .text (← bodyText body)
  | .regexp body flags =>
    .ok (.regexp (.text (String.ofList (regexpSource body))) (regexpOptions flags))
  | .range first last excludeEnd => .ok (.range (.int first) (.int last) (.bool excludeEnd))
  | .number n => n.value
  | .ratio numerator denominator => do return .rational (← quotient numerator denominator)
  | .complex re im => do
    let im ← imaginaryValue im
    return .imaginary (← re.value) im

end Atom

namespace Term

/-- The line that the last mark with a key states. -/
def lineOf (key : LineKey) (marks : List (LineKey × Int)) : Json :=
  match marks.reverse.find? (·.1 == key) with
  | some (_, n) => .int n
  | none => .null

/-- The expression of the values of items: the first is the symbol of a tag. -/
def assemble (values : List Value) (marks : List (LineKey × Int)) : Except Problem Value :=
  match values with
  | .symbol (.text name) :: kids =>
    match Tag.ofName? name with
    | some tag => .ok (.sexp tag kids (lineOf .line marks) (lineOf .maxLine marks))
    | none => .error (.unknownTag name)
  | _ => .error .noTag

mutual

/-- The value of a term. -/
def value : Term → Except Problem Value
  | .atom a => a.value
  | .sexp items marks => do assemble (← values items) marks

def values : List Term → Except Problem (List Value)
  | [] => .ok []
  | item :: rest => do
    let v ← value item
    return v :: (← values rest)

end

end Term

end RubySexp
