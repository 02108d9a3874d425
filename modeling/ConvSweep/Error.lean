import ConvSweep.Decimal.Shortest
import ConvSweep.Filter
import ConvSweep.Text.Quoted
import ConvSweep.Variant

/-!
# Errors

An operation rejects its input with an `Error`, which says what is wrong; the
wording is fixed by `Error.message`.  Every error is final for the case at hand.
`Failure` joins errors with faults for computations that can end in either.
-/

namespace ConvSweep

/-! ## Causes -/

/-- Lengths or extents that should agree and do not. -/
inductive Mismatch
  /-- A buffer does not have the length of the shape it should fill. -/
  | bufferLength (length : Nat) (dims : List Nat)
  /-- A source has fewer elements than the shape that is cut out of it. -/
  | shortSource (length : Nat) (dims : List Nat)
  /-- Weights that are not `(F, C, K, K)` with the channels of the input. -/
  | weightExtents (weight input : List Nat) (channels : Nat)
  /-- Patches were asked of an input with the wrong extents. -/
  | patchInput (order : PatchOrder) (expected got : List Nat)
  /-- Row offsets are not one per row. -/
  | rowOffsets (starts ends rows : Nat)
  | columnCount (columns values : Nat)
  /-- A row does not start where the row before it ends, or ends outside the values. -/
  | rowSpan (row first last previous : Nat)
  /-- The columns of a row are not ascending or not below the column count. -/
  | rowColumns (row : Nat)
  | rowCover (covered values : Nat)
  | matrixSize (length rows cols : Nat)
  /-- Two tensors of different shapes are compared. -/
  | comparison (left right : List Nat)
deriving DecidableEq

/-- A combination that is not provided. -/
inductive Unsupported
  | noSparseWeights (algorithm : Algorithm)
  | sparseNhwc
deriving DecidableEq

/-- One of the four numbers of a case. -/
inductive FilterAxis
  | outChannels
  | inChannels
  | kernelRows
  | kernelCols
deriving DecidableEq, Inhabited

/-- A number that a descriptor has to supply. -/
inductive DescriptorField
  | caseCount
  | extent (index : Nat) (axis : FilterAxis)
deriving DecidableEq

inductive DescriptorError
  | missing (field : DescriptorField)
  | notNumber (field : DescriptorField) (word : List Char)
  | zeroExtent (index : Nat) (shape : FilterShape)
  | tooLarge (index : Nat) (shape : FilterShape)
  /-- The weights of a shape cannot be counted in bytes. -/
  | uncountable (shape : FilterShape)
deriving DecidableEq

/-- A failure to obtain bytes or text. -/
inductive StreamError
  | notFound
  | notText
  | gzipHeader
  | gzipFieldLength
  | unexpectedEnd
  | incompleteData
  | corruptData
  | checksum
  /-- Any other error of the system, in its words. -/
  | system (text : String)
deriving DecidableEq

inductive Error
  | invalidShape (dims : List Nat)
  | rankMismatch (expected got : Nat)
  | shapeMismatch (cause : Mismatch)
  | evenKernel (kernel : Nat)
  | kernelTooLarge (kernel height width : Nat)
  | invalidPercentile (percentile : Binary32)
  | unsupported (cause : Unsupported)
  | truncated (expected got : Nat)
  | descriptor (cause : DescriptorError)
  | stream (cause : StreamError)
deriving DecidableEq

/-! ## Wording -/

def bracketed (items : List String) : String :=
  "[" ++ ", ".intercalate items ++ "]"

def Mismatch.message : Mismatch → String
  | bufferLength length dims =>
      "buffer of " ++ toString length ++ " floats cannot back a " ++ extentsText dims ++ " tensor"
  | shortSource length dims =>
      "source of " ++ toString length ++ " floats is too short for a " ++ extentsText dims ++
        " tensor"
  | weightExtents weight input channels =>
      "weight " ++ extentsText weight ++ " does not match input " ++ extentsText input ++
        " (expected Fx" ++ toString channels ++ "xKxK, square kernel)"
  | patchInput order expected got =>
      "im2col " ++ order.text ++ " expects input " ++
        bracketed (expected.map fun n => "Is(" ++ toString n ++ ")") ++
        ", got " ++ extentsText got
  | rowOffsets starts ends rows =>
      "csr offsets " ++ toString starts ++ "/" ++ toString ends ++ " for " ++ toString rows ++
        " rows"
  | columnCount columns values =>
      "csr has " ++ toString columns ++ " column indices but " ++ toString values ++ " values"
  | rowSpan row first last previous =>
      "csr row " ++ toString row ++ " spans " ++ toString first ++ ".." ++ toString last ++
        " after " ++ toString previous
  | rowColumns row =>
      "csr row " ++ toString row ++ " has out-of-range or unsorted columns"
  | rowCover covered values =>
      "csr rows cover " ++ toString covered ++ " of " ++ toString values ++ " values"
  | matrixSize length rows cols =>
      toString length ++ " weights cannot form a " ++ toString rows ++ "x" ++ toString cols ++
        " matrix"
  | comparison left right =>
      "cannot compare " ++ extentsText left ++ " with " ++ extentsText right

def Unsupported.message : Unsupported → String
  | noSparseWeights algorithm => algorithm.text ++ " convolution has no sparse weights"
  | sparseNhwc => "sparse GEMM in NHWC layout"

def FilterAxis.text : FilterAxis → String
  | outChannels => "Cout"
  | inChannels => "Cin"
  | kernelRows => "Kh"
  | kernelCols => "Kw"

def DescriptorField.text : DescriptorField → String
  | caseCount => "case count"
  | extent index axis => "case " ++ toString index ++ " " ++ axis.text

def DescriptorError.message : DescriptorError → String
  | missing field => "unexpected end of input reading " ++ field.text
  | notNumber field word =>
      field.text ++ " is not a non-negative integer: " ++ Text.quoted word
  | zeroExtent index shape => "case " ++ toString index ++ " has a zero extent: " ++ shape.text
  | tooLarge index shape => "case " ++ toString index ++ " is too large: " ++ shape.text
  | uncountable shape => "case " ++ shape.text ++ " is too large"

def StreamError.message : StreamError → String
  | notFound => "No such file or directory (os error 2)"
  | notText => "stream did not contain valid UTF-8"
  | gzipHeader => "invalid gzip header"
  | gzipFieldLength => "gzip header field too long"
  | unexpectedEnd => "unexpected end of file"
  | incompleteData => "incomplete deflate stream"
  | corruptData => "corrupt deflate stream"
  | checksum => "corrupt gzip stream does not have a matching checksum"
  | system text => text

def Error.message : Error → String
  | invalidShape dims =>
      "invalid shape " ++ bracketed (dims.map toString) ++
        ": extents must be positive, non-empty and fit in usize"
  | rankMismatch expected got =>
      "rank mismatch: expected " ++ toString expected ++ " dimensions, got " ++ toString got
  | shapeMismatch cause => "shape mismatch: " ++ cause.message
  | evenKernel kernel =>
      "kernel size " ++ toString kernel ++ " is even; only odd square kernels are supported"
  | kernelTooLarge kernel height width =>
      "kernel size " ++ toString kernel ++ " does not fit a " ++ toString height ++ "x" ++
        toString width ++ " input"
  | invalidPercentile percentile =>
      "pruning percentile " ++ percentile.text ++ " is outside [0, 100]"
  | unsupported cause => "unsupported configuration: " ++ cause.message
  | truncated expected got =>
      "truncated weight blob: expected " ++ toString expected ++ " floats, got " ++ toString got
  | descriptor cause => "descriptor error: " ++ cause.message
  | stream cause => cause.message

/-! ## Failures -/

inductive Failure
  | error (e : Error)
  | fault (f : Fault)
deriving DecidableEq

/-- Computations that end in a value, an error or a fault. -/
abbrev Outcome : Type → Type := Except Failure

instance : MonadLift (Except Error) Outcome where
  monadLift
    | .ok x => .ok x
    | .error e => .error (.error e)

instance : MonadLift (Except Fault) Outcome where
  monadLift
    | .ok x => .ok x
    | .error f => .error (.fault f)

end ConvSweep
