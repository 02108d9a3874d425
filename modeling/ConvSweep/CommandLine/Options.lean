import ConvSweep.Decimal.Parse
import ConvSweep.Sweep.Case

/-!
# Command-line options

Every option takes one value, written after it as an argument of its own or after
an equals sign; a short option may have its value attached.  An argument that
begins with a hyphen is not taken for the value of the option before it.  Only
the percentages may be given more than once.  Arguments are read from the left,
and the first one that is wrong or asks for the version decides.
-/

namespace ConvSweep
namespace CommandLine

structure Options where
  descriptor : String
  weights : String
  sweep : SweepConfig
  seed : UInt64

def Options.standard : Options where
  descriptor := "fmt.txt"
  weights := "dat.bin"
  sweep := .standard
  seed := 0

inductive Key
  | descriptor
  | weights
  | batch
  | spatialBudget
  | spatial
  | repeats
  | percentiles
  | padding
  | tileRows
  | tileCols
  | seed
deriving DecidableEq

namespace Key

def ofLong? : String → Option Key
  | "descriptor" => some descriptor
  | "weights" => some weights
  | "batch" => some batch
  | "spatial-budget" => some spatialBudget
  | "spatial" => some spatial
  | "repeat" => some repeats
  | "percentiles" => some percentiles
  | "padding" => some padding
  | "tile-rows" => some tileRows
  | "tile-cols" => some tileCols
  | "seed" => some seed
  | _ => none

def ofShort? : Char → Option Key
  | 'n' => some batch
  | 'r' => some repeats
  | _ => none

end Key

/-! ## Values -/

def size? (text : String) : Option Nat :=
  Text.natural? Size.limit text.toList

def path? (text : String) : Option String :=
  if text.isEmpty then none else some text

def padding? : String → Option Padding
  | "prepad" => some .prepad
  | "inline" => some .inline
  | "valid" => some .valid
  | _ => none

def pieces : List Char → List (List Char)
  | [] => [[]]
  | c :: rest =>
      if c = ',' then
        [] :: pieces rest
      else
        match pieces rest with
        | [] => [[c]]
        | piece :: more => (c :: piece) :: more

/-- The options read so far and the keys that were given. -/
structure Progress where
  options : Options
  given : List Key

/-- The options with one more value; none if it cannot be read or is one too many. -/
def Progress.put? (p : Progress) (key : Key) (value : String) : Option Progress := do
  if key ≠ .percentiles ∧ key ∈ p.given then
    none
  let o := p.options
  let sweep := o.sweep
  let options ← match key with
    | .descriptor => do pure { o with descriptor := (← path? value) }
    | .weights => do pure { o with weights := (← path? value) }
    | .batch => do pure { o with sweep := { sweep with batch := (← size? value) } }
    | .spatialBudget => do pure { o with sweep := { sweep with spatialBudget := (← size? value) } }
    | .spatial => do pure { o with sweep := { sweep with spatial := some (← size? value) } }
    | .repeats => do pure { o with sweep := { sweep with repeats := (← size? value) } }
    | .percentiles => do
        let more ← (pieces value.toList).mapM Decimal.parseSingle?
        let before := if .percentiles ∈ p.given then sweep.percentiles else []
        pure { o with sweep := { sweep with percentiles := before ++ more } }
    | .padding => do pure { o with sweep := { sweep with padding := (← padding? value) } }
    | .tileRows => do
        let rows ← size? value
        pure { o with sweep := { sweep with tile := { sweep.tile with rows } } }
    | .tileCols => do
        let cols ← size? value
        pure { o with sweep := { sweep with tile := { sweep.tile with cols } } }
    | .seed => do pure { o with seed := UInt64.ofNat (← size? value) }
  return ⟨options, key :: p.given⟩

/-! ## Arguments -/

inductive Argument
  /-- An option with its value. -/
  | setting (key : Key) (value : String)
  /-- An option whose value is the next argument. -/
  | awaiting (key : Key)
  | version
  /-- The end of the options. -/
  | separator
  | unknown

def longArgument (text : List Char) : Argument :=
  let name := String.ofList (text.takeWhile (· ≠ '='))
  match Key.ofLong? name, text.dropWhile (· ≠ '=') with
  | some key, [] => .awaiting key
  | some key, _ :: value => .setting key (String.ofList value)
  | none, [] => if name = "version" then .version else .unknown
  | none, _ => .unknown

def shortArgument (letter : Char) (rest : List Char) : Argument :=
  if letter = 'V' then
    .version
  else
    match Key.ofShort? letter, rest with
    | some key, [] => .awaiting key
    | some key, '=' :: value => .setting key (String.ofList value)
    | some key, value => .setting key (String.ofList value)
    | none, _ => .unknown

def Argument.ofText (text : String) : Argument :=
  match text.toList with
  | ['-', '-'] => .separator
  | '-' :: '-' :: rest => longArgument rest
  | '-' :: letter :: rest => shortArgument letter rest
  | _ => .unknown

/-- Whether an argument begins like an option; a single hyphen does not. -/
def looksLikeOption (text : String) : Bool :=
  match text.toList with
  | '-' :: _ :: _ => true
  | _ => false

inductive Request
  | run (options : Options)
  | version
  | misuse

def readArguments (p : Progress) : List String → Request
  | [] => .run p.options
  | text :: rest =>
      match Argument.ofText text with
      | .version => .version
      | .unknown => .misuse
      | .separator => if rest.isEmpty then .run p.options else .misuse
      | .setting key value =>
          match p.put? key value with
          | some p => readArguments p rest
          | none => .misuse
      | .awaiting key =>
          match rest with
          | [] => .misuse
          | value :: rest =>
              if looksLikeOption value then
                .misuse
              else
                match p.put? key value with
                | some p => readArguments p rest
                | none => .misuse

def Request.ofArguments (args : List String) : Request :=
  readArguments ⟨.standard, []⟩ args

end CommandLine
end ConvSweep
