import RubySexp.Number.Quantity
import RubySexp.Text.Blank
import RubySexp.Text.Digit

namespace RubySexp

/-!
# Rational Text

A rational number as a person writes it: digits with a denominator, or digits with decimals and a
power of ten, with a sign in front and white space around. An underscore may stand between two
digits.
-/

namespace RationalText

/-- The digits at the start of a text, without the underscores between them, and the rest;
`inside` tells whether a digit stands before the text. -/
def digitRun (inside : Bool) : List Char → List Char × List Char
  | [] => ([], [])
  | c :: cs =>
    if isDigit c then
      let (digits, rest) := digitRun true cs
      (c :: digits, rest)
    else if c == '_' && inside && cs.head?.any isDigit then digitRun false cs
    else ([], c :: cs)

/-- A sign at the start of a text: whether it is a minus sign, and the rest. -/
def sign : List Char → Bool × List Char
  | '-' :: cs => (true, cs)
  | '+' :: cs => (false, cs)
  | cs => (false, cs)

/-- The power of ten behind a number; none stands for `10 ^ 0`. -/
def power? : List Char → Option (Int × List Char)
  | c :: cs =>
    if c == 'e' || c == 'E' then
      let (negative, cs) := sign cs
      let (digits, rest) := digitRun false cs
      if digits.isEmpty then none
      else some (if negative then -digitsValue digits else digitsValue digits, rest)
    else some (0, c :: cs)
  | [] => some (0, [])

/-- The decimals behind a point: digits, or a row of the letter `d`, which keeps their place and
has no value. -/
def decimalRun (cs : List Char) : List Char × List Char :=
  let isMark (c : Char) : Bool := c == 'd' || c == 'D'
  match cs.takeWhile isMark with
  | [] => digitRun false cs
  | marks => (marks, cs.dropWhile isMark)

/-- What follows the first digits of a number. -/
inductive Tail where
  | denominator (digits : List Char)
  | decimals (digits : List Char) (power : Int)

/-- The part behind the first digits, and the rest. -/
def tail? : List Char → Option (Tail × List Char)
  | '/' :: cs =>
    let (digits, rest) := digitRun false cs
    if digits.isEmpty then none else some (.denominator digits, rest)
  | cs => do
    let (digits, rest) := match cs with
      | '.' :: cs => decimalRun cs
      | cs => ([], cs)
    let (power, rest) ← power? rest
    return (.decimals digits power, rest)

/-- Why a text states no rational number. -/
inductive Problem where
  | malformed
  /-- The decimals are not digits. -/
  | notDigits (text : List Char)
  deriving DecidableEq, Repr

/-- The numerator and denominator that the parts of a number state. -/
def ratio (whole : List Char) : Tail → Except Problem (Nat × Nat)
  | .denominator digits => .ok (digitsValue whole, digitsValue digits)
  | .decimals digits power =>
    if digits.all isDigit then
      .ok (digitsValue (whole ++ digits) * Nat.pow 10 power.toNat,
        Nat.pow 10 digits.length * Nat.pow 10 (-power).toNat)
    else .error (.notDigits digits)

/-- The parts of a number: its sign, its first digits and what follows them. -/
def parts? (cs : List Char) : Option (Bool × List Char × Tail) := do
  let (negative, cs) := sign (cs.dropWhile isBlank)
  let (whole, rest) := digitRun false cs
  guard (!whole.isEmpty || (rest.head? == some '.' && (rest.drop 1).head?.any isDigit))
  let (tail, rest) ← tail? rest
  guard (rest.all isBlank)
  return (negative, whole, tail)

/-- The numerator and denominator that a text states. -/
def read (cs : List Char) : Except Problem (Int × Nat) :=
  match parts? cs with
  | none => .error .malformed
  | some (negative, whole, tail) => do
    let (numerator, denominator) ← ratio whole tail
    return (if negative then -numerator else numerator, denominator)

end RationalText

end RubySexp
