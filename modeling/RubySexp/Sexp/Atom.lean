import RubySexp.Scalar
import RubySexp.Text.Blank
import RubySexp.Text.Digit

namespace RubySexp

/-!
# Atoms of Printed Expressions

The smallest values in a printed expression and how they are spelled. An atom keeps what its
spelling says; whether that makes a value, as it does not for a zero denominator, is decided later.

A scanner takes the start of a text that is an atom of its sort, and hands back the rest. Digits
are the decimal digits of any script.
-/

/-- A number as it is spelled: digits that may have points among them, and a power of ten. -/
structure Numeral where
  negative : Bool
  mantissa : List Char
  /-- The letter `e`, a sign if there is one, and digits; or nothing. -/
  exponent : List Char
  deriving DecidableEq, Repr

/-- The imaginary part of a number. -/
inductive ImaginarySpelling where
  | numeral (n : Numeral)
  | ratio (negative : Bool) (numerator denominator : Nat)
  deriving DecidableEq, Repr

/-- An atom as it is spelled. Bodies are without their delimiters and with their escapes. -/
inductive Atom where
  | nothing
  | truth (b : Bool)
  | symbol (name : List Char)
  | quotedSymbol (body : List Char)
  | string (body : List Char)
  | regexp (body flags : List Char)
  | range (first last : Int) (excludeEnd : Bool)
  | number (n : Numeral)
  | ratio (numerator : Int) (denominator : Nat)
  | complex (re : Numeral) (im : ImaginarySpelling)
  deriving DecidableEq, Repr

namespace Atom

/-! ### Numbers -/

/-- At least one digit. -/
def digits? (cs : List Char) : Option (List Char × List Char) :=
  let run := cs.takeWhile isDigit
  if run.isEmpty then none else some (run, cs.dropWhile isDigit)

/-- A minus sign that may be missing. -/
def minus : List Char → Bool × List Char
  | '-' :: cs => (true, cs)
  | cs => (false, cs)

/-- A plus or minus sign: whether it is a minus sign. -/
def sign? : List Char → Option (Bool × List Char)
  | '-' :: cs => some (true, cs)
  | '+' :: cs => some (false, cs)
  | _ => none

/-- A character that has to come next. -/
def exactly? (c : Char) : List Char → Option (List Char)
  | d :: cs => if d == c then some cs else none
  | [] => none

def signed (negative : Bool) (digits : List Char) : Int :=
  if negative then -digitsValue digits else digitsValue digits

/-- An integer with a minus sign that may be missing. -/
def integer? (cs : List Char) : Option (Int × List Char) := do
  let (negative, cs) := minus cs
  let (digits, rest) ← digits? cs
  return (signed negative digits, rest)

/-- A point and at least one digit. -/
def fraction? : List Char → Option (List Char × List Char)
  | '.' :: cs => (digits? cs).map fun (digits, rest) => ('.' :: digits, rest)
  | _ => none

/-- The letter `e`, a sign that may be missing, and at least one digit. -/
def exponent? : List Char → Option (List Char × List Char)
  | 'e' :: '+' :: cs => (digits? cs).map fun (digits, rest) => ('e' :: '+' :: digits, rest)
  | 'e' :: '-' :: cs => (digits? cs).map fun (digits, rest) => ('e' :: '-' :: digits, rest)
  | 'e' :: cs => (digits? cs).map fun (digits, rest) => ('e' :: digits, rest)
  | _ => none

/-- A part that may be missing. -/
def optional (part : List Char → Option (List Char × List Char)) (cs : List Char) :
    List Char × List Char :=
  (part cs).getD ([], cs)

/-- Two or three points and an integer, behind the first number of a range. -/
def rangeEnd? : List Char → Option (Bool × Int × List Char)
  | '.' :: '.' :: '.' :: cs => (integer? cs).map fun (last, rest) => (true, last, rest)
  | '.' :: '.' :: cs => (integer? cs).map fun (last, rest) => (false, last, rest)
  | _ => none

/-- A range, a number with decimals or an integer, whichever of them comes first. -/
def number? (cs : List Char) : Option (Atom × List Char) := do
  let (negative, cs) := minus cs
  let (whole, rest) ← digits? cs
  match rangeEnd? rest, fraction? rest with
  | some (excludeEnd, last, rest), _ =>
    return (.range (signed negative whole) last excludeEnd, rest)
  | none, some (decimals, rest) =>
    let (power, rest) := optional exponent? rest
    return (.number ⟨negative, whole ++ decimals, power⟩, rest)
  | none, none => return (.number ⟨negative, whole, []⟩, rest)

/-- The imaginary part of a complex number, up to the unit: digits and points with a power of
ten, or a ratio in brackets that is multiplied with the unit. -/
def imaginary? (negative : Bool) : List Char → Option (ImaginarySpelling × List Char)
  | '(' :: cs => do
    let (numerator, rest) ← digits? cs
    let (denominator, rest) ← digits? (← exactly? '/' rest)
    let rest ← exactly? '*' (← exactly? ')' rest)
    return (.ratio negative (digitsValue numerator) (digitsValue denominator), rest)
  | cs => do
    let inMantissa (c : Char) : Bool := isDigit c || c == '.'
    let mantissa := cs.takeWhile inMantissa
    guard !mantissa.isEmpty
    let (power, rest) := optional exponent? (cs.dropWhile inMantissa)
    return (.numeral ⟨negative, mantissa, power⟩, rest)

/-- A ratio or a complex number, behind its opening bracket. -/
def bracketed? (cs : List Char) : Option (Atom × List Char) := do
  let (negative, cs) := minus cs
  let (whole, rest) ← digits? cs
  match rest with
  | '/' :: cs =>
    let (denominator, rest) ← digits? cs
    return (.ratio (signed negative whole) (digitsValue denominator), ← exactly? ')' rest)
  | _ =>
    let (decimals, rest) := optional fraction? rest
    let (power, rest) := optional exponent? rest
    let (subtracted, rest) ← sign? rest
    let (im, rest) ← imaginary? subtracted rest
    let rest ← exactly? ')' (← exactly? 'i' rest)
    return (.complex ⟨negative, whole ++ decimals, power⟩ im, rest)

/-! ### Delimited texts and words -/

/-- The text up to a closing delimiter. A backslash takes the next character with it. -/
def delimited? (close : Char) : List Char → Option (List Char × List Char)
  | [] => none
  | '\\' :: c :: cs => (delimited? close cs).map fun (body, rest) => ('\\' :: c :: body, rest)
  | c :: cs =>
    if c == close then some ([], cs)
    else if c == '\\' then none
    else (delimited? close cs).map fun (body, rest) => (c :: body, rest)

/-- The letters behind a regular expression. -/
def isFlag (c : Char) : Bool := c == 'm' || c == 'i' || c == 'x' || c == 'n'

/-- Whether a character can be part of a symbol without quotes. -/
def isSymbolChar (c : Char) : Bool :=
  !(isBlank c || c == ',' || c == '(' || c == ')' || c == '"')

/-- A symbol, behind its colon. -/
def symbol? : List Char → Option (Atom × List Char)
  | '"' :: cs => (delimited? '"' cs).map fun (body, rest) => (.quotedSymbol body, rest)
  | cs =>
    let name := cs.takeWhile isSymbolChar
    if name.isEmpty then none else some (.symbol name, cs.dropWhile isSymbolChar)

/-- The atom at the start of a text. A word ends with its last letter, whatever follows. -/
def scan? : List Char → Option (Atom × List Char)
  | ':' :: cs => symbol? cs
  | '"' :: cs => (delimited? '"' cs).map fun (body, rest) => (.string body, rest)
  | '/' :: cs => (delimited? '/' cs).map fun (body, rest) =>
    (.regexp body (rest.takeWhile isFlag), rest.dropWhile isFlag)
  | '(' :: cs => bracketed? cs
  | 'n' :: 'i' :: 'l' :: rest => some (.nothing, rest)
  | 't' :: 'r' :: 'u' :: 'e' :: rest => some (.truth true, rest)
  | 'f' :: 'a' :: 'l' :: 's' :: 'e' :: rest => some (.truth false, rest)
  | cs => number? cs

end Atom

end RubySexp
