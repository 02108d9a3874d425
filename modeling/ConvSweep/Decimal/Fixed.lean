import ConvSweep.Decimal.Binary

/-!
# Decimal text with fixed places

A finite number is written with a fixed count of digits after the point.  It is
the exact binary value that is rounded, to nearest, and a tie goes to the even
digit.
-/

namespace ConvSweep
namespace Decimal

/-- The quotient rounded to the nearest integer, the even one of two. -/
def roundQuotient (num den : Nat) : Nat :=
  let below := num / den
  let rest := 2 * (num % den)
  if rest < den then below
  else if den < rest then below + 1
  else if below % 2 = 0 then below
  else below + 1

/-- A count of units of the last place, with the point set. -/
def withPoint (places units : Nat) : String :=
  let last := toString (units % Nat.pow 10 places)
  toString (units / Nat.pow 10 places) ++ "." ++
    String.ofList (List.replicate (places - last.length) '0') ++ last

def Datum.fixedText (places : Nat) : Datum → String
  | .nan => "NaN"
  | .infinity negative => if negative then "-inf" else "inf"
  | .finite negative significand exponent =>
      let num := significand * Nat.pow 2 exponent.toNat * Nat.pow 10 places
      let magnitude := withPoint places (roundQuotient num (Nat.pow 2 (-exponent).toNat))
      if negative then "-" ++ magnitude else magnitude

/-- A double-precision number with `places` digits after the point. -/
def fixed (places : Nat) (x : Float) : String :=
  (BinaryFormat.binary64.decode x.toBits.toNat).fixedText places

end Decimal
end ConvSweep
