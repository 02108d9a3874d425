import ConvSweep.Binary32
import ConvSweep.Random.ChaCha

/-!
# Synthetic data

Activations are whole numbers from 0 to 214 and weights are numbers from -1 up to
but not including 1, both drawn from the stream of a seed.  A word that does not
yield an admissible value is passed over.
-/

namespace ConvSweep
namespace Random

/-- The first value that the words of the stream yield, looked for in `fuel` words. -/
def drawFirst {α : Type} (value? : UInt32 → Option α) (s : Stream) : Nat → Option (α × Stream)
  | 0 => none
  | fuel + 1 =>
      let (word, s) := s.draw
      match value? word with
      | some x => some (x, s)
      | none => drawFirst value? s fuel

/-- The next `count` values; fewer if a whole period yields none. -/
def drawMany {α : Type} (value? : UInt32 → Option α) (s : Stream) (out : Array α) :
    Nat → Array α
  | 0 => out
  | count + 1 =>
      match drawFirst value? s Stream.period with
      | some (x, s) => drawMany value? s (out.push x) count
      | none => out

def activationCount : UInt64 := 215

/--
The high half of the word times the number of activations.  Words whose low half
lies above the largest multiple of that number are passed over.
-/
def activation? (word : UInt32) : Option Binary32 :=
  let product := word.toUInt64 * activationCount
  if product % 0x100000000 ≤ activationCount * 0x1000000 - 1 then
    some (Binary32.ofUInt32 (product >>> 32).toUInt32)
  else
    none

/-- The high bits of the word as the fraction of a number from one to two, moved to the range. -/
def weight? (word : UInt32) : Option Binary32 :=
  let unit : Binary32 := ⟨(word >>> 9) ||| 0x3f800000⟩ - 1
  let x := unit * ⟨0x40000000⟩ + ⟨0xbf800000⟩
  if x.lt 1 then some x else none

def activations (count : Nat) (seed : UInt64) : Array Binary32 :=
  drawMany activation? (.ofSeed seed) #[] count

def weights (count : Nat) (seed : UInt64) : Array Binary32 :=
  drawMany weight? (.ofSeed seed) #[] count

end Random
end ConvSweep
