import RubySexp.Number.Binary64

namespace RubySexp

/-!
# Quantities

Integers, truth values, floats and rationals are compared by the quantity they stand for: an
exact rational, one of the two infinities, or no number at all, which differs from everything,
itself included.
-/

/-- What a number stands for. -/
inductive Quantity where
  | exact (q : Rat)
  | infinite (negative : Bool)
  | undefined

namespace Quantity

def ofInt (n : Int) : Quantity := .exact n

/-- A finite float stands for its exact value. -/
def ofFloat (x : Float) : Quantity :=
  match Binary64.ofFloat x with
  | .nan => .undefined
  | .infinity negative => .infinite negative
  | .finite negative significand exponent =>
    let signed : Int := if negative then -significand else significand
    if 0 ≤ exponent then .exact (signed * Int.pow 2 exponent.toNat)
    else .exact (mkRat signed (Nat.pow 2 (-exponent).toNat))

def same : Quantity → Quantity → Bool
  | .exact p, .exact q => p == q
  | .infinite a, .infinite b => a == b
  | _, _ => false

def isNegative : Quantity → Bool
  | .exact q => q.num < 0
  | .infinite negative => negative
  | .undefined => false

end Quantity

end RubySexp
