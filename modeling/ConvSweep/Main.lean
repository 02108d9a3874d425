import ConvSweep.CommandLine.Run

/-!
# The program

Reads the arguments, runs the sweep with the system's clock and files, and turns
the outcome into an exit code.
-/

namespace ConvSweep

/-- An effect of the system, with its errors as failures. -/
def systemEffect {α : Type} (act : IO α) : ExceptT Failure IO α := do
  match ← act.toBaseIO with
  | .ok x => return x
  | .error (.noFileOrDirectory _ _ _) => throw (.error (.stream .notFound))
  | .error e => throw (.error (.stream (.system (toString e))))

instance : MonadSweep (ExceptT Failure IO) where
  now := do
    return ⟨← systemEffect IO.monoNanosNow⟩
  writeLine line := systemEffect (IO.println line)
  readFile name := systemEffect (IO.FS.readBinFile name)

open CommandLine in
/-- The sweep that the options describe, and its exit code. -/
def runProgram (options : Options) : IO Nat := do
  match ← (runSweep options : ExceptT Failure IO Unit).run with
  | .ok _ => return successCode
  | .error f =>
      let shown := Transcript.ofFailure #[] f
      if let some line := shown.complaint then
        IO.eprintln line
      return shown.exitCode

end ConvSweep

open ConvSweep CommandLine in
def main (args : List String) : IO UInt32 := do
  match Request.ofArguments args with
  | .version =>
      IO.println versionText
      return successCode.toUInt32
  | .misuse =>
      IO.eprintln "error: unusable arguments"
      return misuseCode.toUInt32
  | .run options => return (← runProgram options).toUInt32
