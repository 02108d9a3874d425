import ConvSweep.Binary32
import ConvSweep.Decimal.Binary
import ConvSweep.Text.Word

/-!
# Reading decimal numbers

A number is an optional sign and either a word for an infinity or for no number,
or digits with at most one point and an optional decimal exponent; letters may be
of either case.  It stands for the single-precision number nearest to it.
-/

namespace ConvSweep
namespace Decimal

/-- An unsigned number: the digits without the point, and the power of ten they are scaled by. -/
structure Scientific where
  digits : Nat
  /-- How many digits were written, leading zeros included. -/
  count : Nat
  exponent : Int

/-- A signed whole number in decimal digits. -/
def integer? : List Char → Option Int
  | '+' :: rest => (Text.digits? rest).map Int.ofNat
  | '-' :: rest => (Text.digits? rest).map fun n => -Int.ofNat n
  | text => (Text.digits? text).map Int.ofNat

/-- Digits with at most one point among or beside them, one digit at least. -/
def mantissa? (text : List Char) : Option Scientific := do
  let whole := text.takeWhile (· ≠ '.')
  let places := (text.dropWhile (· ≠ '.')).drop 1
  let digits ← Text.digits? (whole ++ places)
  return ⟨digits, (whole ++ places).length, -places.length⟩

/-- A mantissa and an exponent, in lower case. -/
def scientific? (text : List Char) : Option Scientific := do
  let number ← mantissa? (text.takeWhile (· ≠ 'e'))
  match text.dropWhile (· ≠ 'e') with
  | [] => return number
  | _ :: exponent =>
      let shift ← integer? exponent
      return { number with exponent := number.exponent + shift }

/--
The bits of the nearest number of a format.  A number far outside the range of
every format is zero or infinite without being computed.
-/
def Scientific.bits (format : BinaryFormat) (number : Scientific) : Nat :=
  if number.digits = 0 ∨ number.exponent + number.count < -400 then
    0
  else if 400 < number.exponent then
    format.infinityBits
  else
    format.encode (number.digits * (10 : Rat) ^ number.exponent)

/-- The bits of an unsigned number in lower case. -/
def unsigned? (text : List Char) : Option Nat :=
  if text = ['i', 'n', 'f'] ∨ text = ['i', 'n', 'f', 'i', 'n', 'i', 't', 'y'] then
    some BinaryFormat.binary32.infinityBits
  else if text = ['n', 'a', 'n'] then
    some 0x7fc00000
  else
    (scientific? text).map (Scientific.bits .binary32)

def parseSingle? (text : List Char) : Option Binary32 :=
  match text.map Char.toLower with
  | '-' :: rest => (unsigned? rest).map fun bits => ⟨UInt32.ofNat (bits + 0x80000000)⟩
  | '+' :: rest => (unsigned? rest).map fun bits => ⟨UInt32.ofNat bits⟩
  | text => (unsigned? text).map fun bits => ⟨UInt32.ofNat bits⟩

end Decimal
end ConvSweep
