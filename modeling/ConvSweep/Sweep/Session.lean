import ConvSweep.Error
import ConvSweep.Sweep.Clock

/-!
# Sessions

A sweep reads a clock, writes lines and opens files.  `MonadSweep` names these
effects and `SessionM` provides them without a world: a step clock, the lines
written so far and a fixed set of files.  What was written before a failure stays
written.
-/

namespace ConvSweep

class MonadSweep (m : Type → Type) where
  now : m Duration
  writeLine : String → m Unit
  /-- The contents of a file; an error if there is none of that name. -/
  readFile : String → m ByteArray

structure Session where
  clock : StepClock
  files : List (String × ByteArray)
  lines : Array String

abbrev SessionM : Type → Type :=
  EStateM Failure Session

namespace Session

def start (step : Duration) (files : List (String × ByteArray)) : Session where
  clock := .ofStep step
  files := files
  lines := #[]

end Session

instance : MonadSweep SessionM where
  now := fun s =>
    match s.clock.read with
    | .ok (t, clock) => .ok t { s with clock }
    | .error f => .error (.fault f) s
  writeLine line := fun s => .ok () { s with lines := s.lines.push line }
  readFile name := fun s =>
    match s.files.lookup name with
    | some bytes => .ok bytes s
    | none => .error (.error (.stream .notFound)) s

end ConvSweep
