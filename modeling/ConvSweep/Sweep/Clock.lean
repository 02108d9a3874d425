import ConvSweep.Size

/-!
# Durations and clocks

A duration is a count of nanoseconds whose whole seconds fit the word.  A step
clock advances by a fixed duration on every reading; it works out the reading
that follows first, so a reading faults when the one after it would not fit.
-/

namespace ConvSweep

structure Duration where
  nanos : Nat
deriving DecidableEq, Inhabited

namespace Duration

def perSecond : Nat := 1000000000

/-- Durations are shorter than this many nanoseconds. -/
def limit : Nat := Size.limit * perSecond

def zero : Duration := ⟨0⟩

def ofParts (seconds subsecond : Nat) : Duration :=
  ⟨seconds * perSecond + subsecond⟩

def seconds (d : Duration) : Nat :=
  d.nanos / perSecond

def subsecond (d : Duration) : Nat :=
  d.nanos % perSecond

def add (d e : Duration) : Except Fault Duration :=
  if d.nanos + e.nanos < limit then .ok ⟨d.nanos + e.nanos⟩ else .error .overflow

/-- The difference, or zero when the second duration is longer. -/
def sub (d e : Duration) : Duration :=
  ⟨d.nanos - e.nanos⟩

/-- Milliseconds in double precision. -/
def millis (d : Duration) : Float :=
  ((UInt64.ofNat d.seconds).toFloat + (UInt64.ofNat d.subsecond).toFloat / 1000000000) * 1000

end Duration

structure StepClock where
  next : Duration
  step : Duration
deriving DecidableEq, Inhabited

namespace StepClock

/-- A clock whose first reading is zero. -/
def ofStep (step : Duration) : StepClock := ⟨.zero, step⟩

/-- The reading and the clock after it. -/
def read (clock : StepClock) : Except Fault (Duration × StepClock) := do
  let following ← clock.next.add clock.step
  return (clock.next, { clock with next := following })

end StepClock
end ConvSweep
