import RubySexp.Number.Shortest

namespace RubySexp

/-!
# Number Layout

How the digits of a number are written down. Integers are plain decimals. A float is written
positionally while its leading digit stands for `10 ^ k` with `-4 ≤ k < 16`, and with a signed
exponent of at least two digits beyond that. Two forms differ in the names of the values that
are no finite numbers and in whether a lone leading digit is followed by `.0`.
-/

/-- The decimal digits of a natural number. -/
def natText (n : Nat) : List Char := Nat.toDigits 10 n

/-- The decimal digits of an integer, with a sign in front of a negative one. -/
def intText : Int → List Char
  | .ofNat n => natText n
  | .negSucc n => '-' :: natText (n + 1)

/-- Hexadecimal digits in lower case, filled up with zeros on the left. -/
def hexText (width n : Nat) : List Char :=
  let digits := Nat.toDigits 16 n
  List.replicate (width - digits.length) '0' ++ digits

/-- The choices in which the two float forms differ. -/
structure FloatLayout where
  notANumber : String
  infinity : String
  /-- Whether the mantissa in front of an exponent always has a fraction. -/
  fullMantissa : Bool

namespace FloatLayout

/-- Floats the way Ruby writes them. -/
def ruby : FloatLayout := ⟨"NaN", "Infinity", true⟩

/-- Floats inside data that has no Ruby form. -/
def data : FloatLayout := ⟨"nan", "inf", false⟩

/-- A sign and at least two digits. -/
def exponentText (k : Int) : List Char :=
  let digits := natText k.natAbs
  (if k < 0 then '-' else '+') :: (List.replicate (2 - digits.length) '0' ++ digits)

/-- The text of a positive decimal without trailing zeros. -/
def decimalText (layout : FloatLayout) (d : Decimal) : List Char :=
  let digits := natText d.coefficient
  let top : Int := d.exponent + digits.length - 1
  if top < -4 ∨ 16 ≤ top then
    let fraction := digits.drop 1
    let mantissa := digits.take 1 ++
      (if fraction.isEmpty then if layout.fullMantissa then ['.', '0'] else [] else '.' :: fraction)
    mantissa ++ 'e' :: exponentText top
  else if top < 0 then
    ['0', '.'] ++ List.replicate (-top - 1).toNat '0' ++ digits
  else
    let whole := digits.take (top.toNat + 1)
    let fraction := digits.drop (top.toNat + 1)
    whole ++ List.replicate (top.toNat + 1 - whole.length) '0' ++ '.' ::
      (if fraction.isEmpty then ['0'] else fraction)

/-- The text of a float. -/
def text (layout : FloatLayout) (x : Float) : List Char :=
  let signed (negative : Bool) (cs : List Char) := if negative then '-' :: cs else cs
  match Binary64.ofFloat x with
  | .nan => layout.notANumber.toList
  | .infinity negative => signed negative layout.infinity.toList
  | .finite negative significand exponent =>
    signed negative <|
      if significand = 0 then ['0', '.', '0']
      else layout.decimalText (Shortest.ofFinite significand exponent)

end FloatLayout

end RubySexp
