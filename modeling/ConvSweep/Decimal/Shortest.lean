import ConvSweep.Decimal.Binary
import ConvSweep.Binary32

/-!
# Shortest decimal text

A finite number is written with the fewest significant digits that read back as
the same number, and of the candidates with that many digits the one nearest to
it.  The text is always positional: no exponent, no point without digits after
it.  The zeros are `0` and `-0`.
-/

namespace ConvSweep
namespace Decimal

/-- A positive decimal number `digits * 10 ^ exponent`. -/
structure Digits where
  digits : Nat
  exponent : Int
deriving DecidableEq

/-! ## Choice of digits -/

/--
The rational numbers that round to a finite number, in quarters of its last
place, with the flag that says whether the ends belong to them.  Below a power of
two the neighbour is only half as far away.
-/
structure Neighbourhood where
  lower : Nat
  center : Nat
  upper : Nat
  closed : Bool

def neighbourhood (format : BinaryFormat) (significand : Nat) (exponent : Int) : Neighbourhood where
  lower :=
    if significand = Nat.pow 2 format.fractionBits ∧ format.minExponent < exponent then
      4 * significand - 1
    else
      4 * significand - 2
  center := 4 * significand
  upper := 4 * significand + 2
  closed := significand % 2 = 0

namespace Neighbourhood

def contains (area : Neighbourhood) (scaled num : Nat) : Bool :=
  if area.closed then
    area.lower * scaled ≤ num && num ≤ area.upper * scaled
  else
    area.lower * scaled < num && num < area.upper * scaled

/--
The multiple of `10 ^ place` nearest to the center among those that lie in the
area; the larger one of two that are equally near.  `exponent` is that of one
quarter of the last place.
-/
def onGrid (area : Neighbourhood) (exponent place : Int) : Option Nat :=
  let num := Nat.pow 2 exponent.toNat * Nat.pow 10 (-place).toNat
  let den := Nat.pow 2 (-exponent).toNat * Nat.pow 10 place.toNat
  let value := area.center * num
  let below := value / den
  let hitBelow := area.contains num (below * den)
  let hitAbove := area.contains num ((below + 1) * den)
  if hitBelow && hitAbove then
    if 2 * (value % den) < den then some below else some (below + 1)
  else if hitBelow then some below
  else if hitAbove then some (below + 1)
  else none

end Neighbourhood

/-- The shortest digits of a positive number, searched from the coarsest grid on. -/
def shortestDigits (format : BinaryFormat) (significand : Nat) (exponent : Int) : Digits :=
  let area := neighbourhood format significand exponent
  let top : Int := (exponent + significand.log2) * 30103 / 100000 + 1
  let search := (List.range 24).findSome? fun (i : Nat) =>
    (area.onGrid (exponent - 2) (top - i)).map fun digits => Digits.mk digits (top - i)
  search.getD ⟨significand, 0⟩

/-! ## Text -/

/-- The number without an exponent. -/
def Digits.text (d : Digits) : String :=
  let text := (toString d.digits).toList
  if 0 ≤ d.exponent then
    String.ofList (text ++ List.replicate d.exponent.toNat '0')
  else
    let places := (-d.exponent).toNat
    if places < text.length then
      let whole := text.length - places
      String.ofList (text.take whole ++ '.' :: text.drop whole)
    else
      String.ofList ('0' :: '.' :: List.replicate (places - text.length) '0' ++ text)

def Datum.text (format : BinaryFormat) : Datum → String
  | .nan => "NaN"
  | .infinity negative => if negative then "-inf" else "inf"
  | .finite negative significand exponent =>
      let magnitude :=
        if significand = 0 then "0" else (shortestDigits format significand exponent).text
      if negative then "-" ++ magnitude else magnitude

end Decimal

def Binary32.text (x : Binary32) : String :=
  (Decimal.BinaryFormat.binary32.decode x.bits.toNat).text Decimal.BinaryFormat.binary32

def Decimal.shortest (x : Float) : String :=
  (Decimal.BinaryFormat.binary64.decode x.toBits.toNat).text Decimal.BinaryFormat.binary64

end ConvSweep
