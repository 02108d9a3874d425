import ConvSweep.CommandLine.Options
import ConvSweep.Descriptor
import ConvSweep.Random.Synthesis
import ConvSweep.Weights

/-!
# Runs from the command line

The descriptor is read and checked first, then the input is synthesized, the
weights are opened, and the cases run in their order.  The lines of a case stay
written when a later one fails.
-/

namespace ConvSweep
namespace CommandLine

def versionText : String := "convbench 0.1.0"

section

variable {m : Type → Type} [Monad m] [MonadExceptOf Failure m] [MonadSweep m]

/-- Runs the cases with the weights that the reader yields. -/
def runCases (config : SweepConfig) (pool : Array Binary32) (reader : WeightReader) :
    List FilterShape → m Unit
  | [] => return
  | shape :: rest =>
      match reader.readCase shape with
      | .ok weight reader => do
          let _ ← Sweep.runCase config shape weight pool
          runCases config pool reader rest
      | .error e _ => throw (.error e)

def runSweep (options : Options) : m Unit := do
  let shapes ← MonadExcept.ofExcept
    (Descriptor.decode (← MonadSweep.readFile options.descriptor))
  let length ← MonadExcept.ofExcept
    ((options.sweep.inputLength shapes).mapError Failure.fault)
  MonadExcept.ofExcept ((Size.reserve length).mapError Failure.fault)
  let pool := Random.activations length options.seed
  let reader := WeightReader.ofFile options.weights (← MonadSweep.readFile options.weights)
  runCases options.sweep pool reader shapes

end

/-! ## Exit codes -/

def successCode : Nat := 0

def errorCode : Nat := 1

def misuseCode : Nat := 2

def faultCode : Nat := 101

structure Transcript where
  exitCode : Nat
  lines : Array String
  /-- The line on the error channel, for an error about the input. -/
  complaint : Option String

def Transcript.ofFailure (lines : Array String) : Failure → Transcript
  | .error e => ⟨errorCode, lines, some ("error: " ++ e.message)⟩
  | .fault f => ⟨faultCode, lines, f.message⟩

/-- A run on a fixed set of files, with a step clock. -/
def transcript (step : Duration) (files : List (String × ByteArray)) (args : List String) :
    Transcript :=
  match Request.ofArguments args with
  | .version => ⟨successCode, #[versionText], none⟩
  | .misuse => ⟨misuseCode, #[], none⟩
  | .run options =>
      match (runSweep options : SessionM Unit) (Session.start step files) with
      | .ok _ s => ⟨successCode, s.lines, none⟩
      | .error f s => .ofFailure s.lines f

end CommandLine
end ConvSweep
