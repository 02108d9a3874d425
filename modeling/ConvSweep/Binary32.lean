/-!
# Single-precision numbers

The elements of tensors are IEEE binary32 numbers, kept as their 32 bits.  Sums,
products and comparisons are those of the standard, rounded to nearest.  Copying
keeps every bit, the sign and payload of a NaN included, and two orders tell
numbers apart: the numeric one, in which a NaN is unordered and the zeros are
equal, and the total order of bit patterns.
-/

namespace ConvSweep

structure Binary32 where
  bits : UInt32
deriving DecidableEq, Inhabited

namespace Binary32

def toFloat32 (x : Binary32) : Float32 := Float32.ofBits x.bits

def ofFloat32 (x : Float32) : Binary32 := ⟨x.toBits⟩

/-! ## Arithmetic -/

instance : Zero Binary32 := ⟨⟨0⟩⟩

instance : One Binary32 := ⟨⟨0x3f800000⟩⟩

instance : Add Binary32 := ⟨fun x y => ofFloat32 (x.toFloat32 + y.toFloat32)⟩

instance : Sub Binary32 := ⟨fun x y => ofFloat32 (x.toFloat32 - y.toFloat32)⟩

instance : Mul Binary32 := ⟨fun x y => ofFloat32 (x.toFloat32 * y.toFloat32)⟩

instance : Div Binary32 := ⟨fun x y => ofFloat32 (x.toFloat32 / y.toFloat32)⟩

/-- Numeric equality: the zeros are equal and a NaN differs from everything. -/
instance : BEq Binary32 := ⟨fun x y => x.toFloat32 == y.toFloat32⟩

/-- Numeric order: a NaN is not below and not above anything. -/
def lt (x y : Binary32) : Bool := decide (x.toFloat32 < y.toFloat32)

def le (x y : Binary32) : Bool := decide (x.toFloat32 ≤ y.toFloat32)

/-- A natural number below `2 ^ 32`, rounded to nearest. -/
def ofUInt32 (n : UInt32) : Binary32 := ofFloat32 n.toFloat32

/-! ## Bit patterns -/

def exponentField (x : Binary32) : UInt32 := (x.bits >>> 23) &&& 0xff

def fraction (x : Binary32) : UInt32 := x.bits &&& 0x7fffff

def isNegative (x : Binary32) : Bool := x.bits ≥ 0x80000000

def isNaN (x : Binary32) : Bool := x.exponentField == 0xff && x.fraction != 0

/--
Place of a number in the total order of bit patterns: negative NaNs first, then
the numbers from minus infinity to infinity with `-0` below `+0`, then positive
NaNs.
-/
def rank (x : Binary32) : Nat :=
  if x.isNegative then 0xffffffff - x.bits.toNat else 0x80000000 + x.bits.toNat

/--
The same number in double precision, which represents every single-precision
number.  A fraction without a leading one is shifted until it has one.
-/
def toFloat (x : Binary32) : Float :=
  let sign : UInt64 := if x.isNegative then 0x8000000000000000 else 0
  let fraction : UInt64 := x.fraction.toUInt64
  let exponent : UInt64 := x.exponentField.toUInt64
  let magnitude : UInt64 :=
    if exponent = 0xff then
      (0x7ff : UInt64) <<< 52 ||| fraction <<< 29
    else if exponent ≠ 0 then
      (exponent + 896) <<< 52 ||| fraction <<< 29
    else if fraction = 0 then
      0
    else
      let top := fraction.toNat.log2
      UInt64.ofNat (top + 874) <<< 52 |||
        (fraction - UInt64.ofNat (Nat.pow 2 top)) <<< UInt64.ofNat (52 - top)
  Float.ofBits (sign ||| magnitude)

end Binary32
end ConvSweep
