import ConvSweep.Fault

/-!
# Sizes

Extents, strides, offsets and leading dimensions are natural numbers.  A machine
holds them in 64-bit words, so an operation that would leave the word is a
fault.  Offsets into a buffer need no check of their own: an offset below the
length of a buffer fits the word, and so does every term it is a sum of.
-/

namespace ConvSweep
namespace Size

/-- Sizes are below `2 ^ 64`. -/
def limit : Nat := 0x10000000000000000

/-- Buffers hold fewer than `2 ^ 61` floats: their bytes fill at most half the word. -/
def bufferLimit : Nat := 0x2000000000000000

def Fits (n : Nat) : Prop := n < limit

instance (n : Nat) : Decidable (Fits n) := inferInstanceAs (Decidable (n < limit))

def mul? (a b : Nat) : Option Nat :=
  if Fits (a * b) then some (a * b) else none

/-- The size itself, or a fault when it is not representable. -/
def checked (n : Nat) : Except Fault Nat :=
  if Fits n then .ok n else .error .overflow

/-- The product taken from the left, each partial product being representable. -/
def product? (sizes : List Nat) : Option Nat :=
  sizes.foldlM mul? 1

def product (sizes : List Nat) : Except Fault Nat :=
  Fault.overflow.demand (product? sizes)

def reserve (n : Nat) : Except Fault Unit :=
  Fault.capacity.check (n < bufferLimit)

end Size
end ConvSweep
