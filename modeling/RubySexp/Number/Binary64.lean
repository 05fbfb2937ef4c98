namespace RubySexp

/-!
# Binary64: Floats in Exact Arithmetic

A float is taken apart into sign, significand and exponent, and put together again from a
ratio of natural numbers by rounding to nearest, ties to even. Everything in between is
arithmetic on `Nat` and `Int`: reading a decimal text and printing the shortest decimal
text both rest on these two directions.
-/

/-- A float taken apart. A finite one is `± significand · 2 ^ exponent`. -/
inductive Binary64 where
  | nan
  | infinity (negative : Bool)
  | finite (negative : Bool) (significand : Nat) (exponent : Int)
  deriving DecidableEq, Repr

namespace Binary64

/-- The parts written in the 64 bits: one sign bit, eleven exponent bits, 52 fraction bits. -/
def ofBits (bits : UInt64) : Binary64 :=
  let word := bits.toNat
  let negative := decide (Nat.pow 2 63 ≤ word)
  let biased : Nat := word / Nat.pow 2 52 % Nat.pow 2 11
  let fraction : Nat := word % Nat.pow 2 52
  if biased = 2047 then
    if fraction = 0 then .infinity negative else .nan
  else if biased = 0 then
    .finite negative fraction (-1074)
  else
    .finite negative (Nat.pow 2 52 + fraction) ((biased : Int) - 1075)

def ofFloat (x : Float) : Binary64 := ofBits x.toBits

/-- The sign bit, which negative zero has too. A value that is no number counts as positive. -/
def isNegative : Binary64 → Bool
  | .nan => false
  | .infinity negative => negative
  | .finite negative _ _ => negative

/-- The quotient rounded to the nearest natural number, a half to the even neighbour. -/
def roundHalfEven (num den : Nat) : Nat :=
  let quotient := num / den
  let rest := num % den
  if 2 * rest < den then quotient
  else if den < 2 * rest then quotient + 1
  else if quotient % 2 = 0 then quotient
  else quotient + 1

/-- `num / (den · 2 ^ shift)` rounded to a natural number. -/
def roundScaled (num den : Nat) (shift : Int) : Nat :=
  if 0 ≤ shift then roundHalfEven num (den * Nat.pow 2 shift.toNat)
  else roundHalfEven (num * Nat.pow 2 (-shift).toNat) den

/-- The exponent at which the quotient of two positive numbers has 53 significant bits. The
lengths of the two numbers give it up to one, and no finite float lies below `2 ^ (-1074)`. -/
def exponentOf (num den : Nat) : Int :=
  let guess : Int := (Nat.log2 num : Int) - Nat.log2 den - 52
  let low := if 0 ≤ guess then num < den * Nat.pow 2 (guess.toNat + 52)
    else num * Nat.pow 2 (-guess).toNat < den * Nat.pow 2 52
  max (if low then guess - 1 else guess) (-1074)

/-- The magnitude bits of `significand · 2 ^ exponent`, with infinity above the last float. -/
def magnitudeBits (significand : Nat) (exponent : Int) : Nat :=
  if significand < Nat.pow 2 52 then significand
  else if 971 < exponent then 2047 * Nat.pow 2 52
  else (exponent + 1075).toNat * Nat.pow 2 52 + (significand - Nat.pow 2 52)

/-- The float nearest to `num / den`, ties to even. -/
def nearest (negative : Bool) (num den : Nat) : Float :=
  let magnitude :=
    if num = 0 then 0
    else
      let exponent := exponentOf num den
      let significand := roundScaled num den exponent
      if significand = Nat.pow 2 53 then magnitudeBits (Nat.pow 2 52) (exponent + 1)
      else magnitudeBits significand exponent
  Float.ofBits (UInt64.ofNat (magnitude + if negative then Nat.pow 2 63 else 0))

/-- The float nearest to `± coefficient · 10 ^ exponent`. Far outside the range of floats the
answer is known from the size of the exponent alone. -/
def ofDecimal (negative : Bool) (coefficient : Nat) (exponent : Int) : Float :=
  if coefficient = 0 then nearest negative 0 1
  else if 400 < exponent then nearest negative (Nat.pow 10 400) 1
  else if exponent + (Nat.log2 coefficient / 3 + 1 : Nat) < -400 then nearest negative 0 1
  else if 0 ≤ exponent then nearest negative (coefficient * Nat.pow 10 exponent.toNat) 1
  else nearest negative coefficient (Nat.pow 10 (-exponent).toNat)

end Binary64

end RubySexp
