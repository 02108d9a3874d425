import ConvSweep.Rounding

/-!
# Binary interchange formats

The bits of a binary32 or binary64 number name a signed multiple of a power of
two, an infinity or no number.  `decode` reads them and `encode` rounds a
rational number to the nearest representable one.
-/

namespace ConvSweep
namespace Decimal

structure BinaryFormat where
  exponentBits : Nat
  fractionBits : Nat
deriving DecidableEq

/-- What the bits of a binary format stand for; a finite number is `significand * 2 ^ exponent`. -/
inductive Datum
  | nan
  | infinity (negative : Bool)
  | finite (negative : Bool) (significand : Nat) (exponent : Int)
deriving DecidableEq

namespace BinaryFormat

def binary32 : BinaryFormat := ⟨8, 23⟩

def binary64 : BinaryFormat := ⟨11, 52⟩

/-- The exponent of the smallest positive number. -/
def minExponent (format : BinaryFormat) : Int :=
  2 - (Nat.pow 2 (format.exponentBits - 1) : Int) - format.fractionBits

/-- The exponent field of the infinities and NaNs. -/
def lastField (format : BinaryFormat) : Nat :=
  Nat.pow 2 format.exponentBits - 1

def decode (format : BinaryFormat) (bits : Nat) : Datum :=
  let fraction := bits % Nat.pow 2 format.fractionBits
  let field := bits / Nat.pow 2 format.fractionBits % Nat.pow 2 format.exponentBits
  let negative := bits / Nat.pow 2 (format.fractionBits + format.exponentBits) % 2 == 1
  if field = format.lastField then
    if fraction = 0 then .infinity negative else .nan
  else if field = 0 then
    .finite negative fraction format.minExponent
  else
    .finite negative (Nat.pow 2 format.fractionBits + fraction) (format.minExponent + field - 1)

def infinityBits (format : BinaryFormat) : Nat :=
  format.lastField * Nat.pow 2 format.fractionBits

/--
The bits of the number nearest to a rational number that is not negative.  The
bits of consecutive numbers are consecutive, so a significand that rounds up to
the next power of two, and a number that rounds up to infinity, need no case of
their own.
-/
def encode (format : BinaryFormat) (x : Rat) : Nat :=
  if x ≤ 0 then
    0
  else
    let unit := max (Rounding.binade x - format.fractionBits) format.minExponent
    let significand := (Rounding.nearestEven (x / (2 : Rat) ^ unit)).toNat
    let steps := (unit - format.minExponent).toNat
    min (steps * Nat.pow 2 format.fractionBits + significand) format.infinityBits

end BinaryFormat
end Decimal
end ConvSweep
