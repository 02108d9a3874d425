/-!
# Rounding

A rational number is rounded to a neighbouring integer, or to a neighbouring
number with a given count of significant bits.  The second is what a binary
floating-point operation does to its exact result as long as no exponent bound
is met, so chains of such operations can be computed in exact arithmetic.
-/

namespace ConvSweep
namespace Rounding

/-- The nearest integer, the even one of two. -/
def nearestEven (x : Rat) : Int :=
  let below := x.floor
  let rest := x - below
  if rest < 1 / 2 then below
  else if 1 / 2 < rest then below + 1
  else if below % 2 = 0 then below
  else below + 1

/-- The nearest integer of a number that is not negative, the larger one of two. -/
def nearestUp (x : Rat) : Int :=
  (x + 1 / 2).floor

/-- The exponent `e` with `2 ^ e ≤ x < 2 ^ (e + 1)`, for a positive `x`. -/
def binade (x : Rat) : Int :=
  let guess : Int := (x.num.natAbs.log2 : Int) - (x.den.log2 : Int)
  if (2 : Rat) ^ guess ≤ x then guess else guess - 1

/-- The nearest multiple of `2 ^ exponent`, the even one of two. -/
def toMultiple (exponent : Int) (x : Rat) : Rat :=
  nearestEven (x / (2 : Rat) ^ exponent) * (2 : Rat) ^ exponent

/-- A number that is not negative, rounded to `bits` significant bits. -/
def significant (bits : Nat) (x : Rat) : Rat :=
  if x ≤ 0 then 0 else toMultiple (binade x - bits + 1) x

end Rounding
end ConvSweep
