import RubySexp.Number.Binary64

namespace RubySexp

/-!
# Shortest Decimals

The decimal text of a float has the fewest digits that read back as that float. Every real
in an interval around `significand · 2 ^ exponent` rounds to it; the interval's ends belong to
it exactly when the significand is even. For one digit, then two, and so on, the two decimals
of that length around the value are tested; the first length with a hit wins, and of two hits
the nearer, or the even one when both are equally near. Seventeen digits always suffice.
-/

/-- A positive decimal `coefficient · 10 ^ exponent`. -/
structure Decimal where
  coefficient : Nat
  exponent : Int
  deriving DecidableEq, Repr

namespace Shortest

/-- Compares `a · 2 ^ i` with `b · 10 ^ j`. -/
def compareScaled (a : Nat) (i : Int) (b : Nat) (j : Int) : Ordering :=
  compare (a * Nat.pow 2 i.toNat * Nat.pow 10 (-j).toNat)
    (b * Nat.pow 10 j.toNat * Nat.pow 2 (-i).toNat)

/-- The largest `k` with `10 ^ k ≤ significand · 2 ^ exponent`. The binary length gives `k` up
to one. -/
def decimalExponent (significand : Nat) (exponent : Int) : Int :=
  let guess := (((Nat.log2 significand : Int) + exponent) * 30103).fdiv 100000
  if compareScaled significand exponent 1 (guess + 1) != .lt then guess + 1
  else if compareScaled significand exponent 1 guess == .lt then guess - 1
  else guess

/-- `significand · 2 ^ exponent / 10 ^ unit`, rounded down. -/
def scaleDown (significand : Nat) (exponent unit : Int) : Nat :=
  significand * Nat.pow 2 exponent.toNat * Nat.pow 10 (-unit).toNat /
    (Nat.pow 2 (-exponent).toNat * Nat.pow 10 unit.toNat)

/-- Whether `n · 10 ^ unit` rounds to `significand · 2 ^ exponent`. The ends of the interval
are half way to the two neighbouring floats; below a power of two the lower one is closer. -/
def roundsTo (significand : Nat) (exponent : Int) (n : Nat) (unit : Int) : Bool :=
  let closed := significand % 2 == 0
  let step := if significand = Nat.pow 2 52 ∧ exponent ≠ -1074 then 1 else 2
  let above := compareScaled (4 * significand - step) (exponent - 2) n unit
  let below := compareScaled (4 * significand + 2) (exponent - 2) n unit
  (above == .lt || closed && above == .eq) && (below == .gt || closed && below == .eq)

/-- Of the two neighbours `n` and `n + 1` the one nearer to the value, the even one on a tie. -/
def nearer (significand : Nat) (exponent : Int) (n : Nat) (unit : Int) : Nat :=
  match compareScaled (2 * significand) exponent (2 * n + 1) unit with
  | .lt => n
  | .gt => n + 1
  | .eq => if n % 2 = 0 then n else n + 1

/-- The decimal with `digits` digits that reads back, if there is one. -/
def withDigits? (significand : Nat) (exponent : Int) (top : Int) (digits : Nat) : Option Decimal :=
  let unit := top + 1 - digits
  let n := scaleDown significand exponent unit
  match roundsTo significand exponent n unit, roundsTo significand exponent (n + 1) unit with
  | true, true => some ⟨nearer significand exponent n unit, unit⟩
  | true, false => some ⟨n, unit⟩
  | false, true => some ⟨n + 1, unit⟩
  | false, false => none

/-- Moves the factors ten of the coefficient into the exponent, at most `fuel` of them. -/
def dropZeros : Nat → Decimal → Decimal
  | 0, d => d
  | fuel + 1, d =>
    if d.coefficient % 10 = 0 then dropZeros fuel ⟨d.coefficient / 10, d.exponent + 1⟩ else d

/-- The shortest decimal that reads back as `significand · 2 ^ exponent`, which is positive. -/
def ofFinite (significand : Nat) (exponent : Int) : Decimal :=
  let top := decimalExponent significand exponent
  let lengths := (List.range 17).map (· + 1)
  dropZeros 17 ((lengths.findSome? (withDigits? significand exponent top)).getD ⟨0, 0⟩)

end Shortest

end RubySexp
