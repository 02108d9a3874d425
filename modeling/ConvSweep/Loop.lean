/-!
# Counted loops

`forRange start count body` runs `body` at `start`, `start + 1`, … and
`foldRange` carries an accumulator along.  Both recurse on the count, so they
stop at the first failure of the monad they run in and never build the range as
a list.  `forStrided` visits the multiples of a stride below an extent.
-/

namespace ConvSweep
namespace Loop

variable {m : Type → Type} [Monad m] {β : Type}

@[specialize]
def forRange (start count : Nat) (body : Nat → m Unit) : m Unit :=
  match count with
  | 0 => pure ()
  | count + 1 => do
      body start
      forRange (start + 1) count body

@[specialize]
def foldRange (start count : Nat) (step : β → Nat → m β) (acc : β) : m β :=
  match count with
  | 0 => pure acc
  | count + 1 => do
      let next ← step acc start
      foldRange (start + 1) count step next

/-- The number of multiples of `stride` below `extent`. -/
def strideCount (extent stride : Nat) : Nat :=
  (extent + stride - 1) / stride

/-- Runs `body` at `0`, `stride`, `2 * stride`, … as long as they are below `extent`. -/
@[specialize]
def forStrided (extent stride : Nat) (body : Nat → m Unit) : m Unit :=
  forRange 0 (strideCount extent stride) fun i => body (i * stride)

/-- Runs `body` at `start` and after it, `stride` times at most, as long as it is below `extent`. -/
@[specialize]
def forTile (extent stride start : Nat) (body : Nat → m Unit) : m Unit :=
  forRange start (min (start + stride) extent - start) body

end Loop
end ConvSweep
