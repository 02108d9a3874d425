import ConvSweep.Buffer
import ConvSweep.Tensor.Shape

/-!
# Tensors

A tensor owns one row-major buffer of exactly as many elements as its shape has.
The meaning of the axes is the caller's: activations, weights and patch buffers
are all tensors.
-/

namespace ConvSweep

structure Tensor (α : Type) where
  shape : Shape
  data : Array α
  size_eq : data.size = shape.total
deriving DecidableEq

namespace Tensor

variable {α : Type}

/-! ## Construction -/

def constant (shape : Shape) (x : α) : Tensor α where
  shape := shape
  data := Array.replicate shape.total x
  size_eq := Array.size_replicate

def filled (dims : List Nat) (x : α) : Outcome (Tensor α) := do
  let shape ← Shape.ofDims dims
  Size.reserve shape.total
  return constant shape x

def zeros [Zero α] (dims : List Nat) : Outcome (Tensor α) :=
  filled dims 0

/-- The buffer has to fill the shape exactly. -/
def ofArray (dims : List Nat) (data : Array α) : Except Error (Tensor α) := do
  let shape ← Shape.ofDims dims
  if h : data.size = shape.total then
    return ⟨shape, data, h⟩
  else
    throw (.shapeMismatch (.bufferLength data.size dims))

theorem size_leading {source : Array α} {n : Nat} (h : n ≤ source.size) :
    (source.extract 0 n).size = n := by
  rw [Array.size_extract, Nat.min_eq_left h, Nat.sub_zero]

/-- The leading elements of a source that may be longer than the shape. -/
def ofPrefix (dims : List Nat) (source : Array α) : Except Error (Tensor α) := do
  let shape ← Shape.ofDims dims
  if h : shape.total ≤ source.size then
    return ⟨shape, source.extract 0 shape.total, size_leading h⟩
  else
    throw (.shapeMismatch (.shortSource source.size dims))

/-! ## Elements -/

def dims (t : Tensor α) : List Nat :=
  t.shape.dims

def text (t : Tensor α) : String :=
  t.shape.text

def summary (t : Tensor α) : String :=
  "Tensor(" ++ t.text ++ ", " ++ toString t.data.size ++ " floats)"

def get (t : Tensor α) (coords : List Nat) : Except Fault α := do
  fetch t.data (← t.shape.flatIndex coords)

def toVector (t : Tensor α) : Vector α t.shape.total :=
  ⟨t.data, t.size_eq⟩

def ofVector (shape : Shape) (v : Vector α shape.total) : Tensor α :=
  ⟨shape, v.toArray, v.size_toArray⟩

/-- The tensor after an action on its buffer. -/
def update (t : Tensor α) (act : BufferM α t.shape.total Unit) : Except Fault (Tensor α) := do
  return ofVector t.shape (← act.run t.toVector)

def set (t : Tensor α) (coords : List Nat) (x : α) : Except Fault (Tensor α) := do
  t.update (BufferM.write (← t.shape.flatIndex coords) x)

def fill (t : Tensor α) (x : α) : Tensor α :=
  constant t.shape x

def reshape (t : Tensor α) (dims : List Nat) : Except Error (Tensor α) :=
  ofArray dims t.data

/-- A new tensor, zero wherever the action does not write. -/
def build [Zero α] (dims : List Nat) (act : (n : Nat) → BufferM α n Unit) :
    Outcome (Tensor α) := do
  let t ← zeros dims
  t.update (act _)

/-- Equal shapes and numerically equal elements. -/
def sameAs [BEq α] (s t : Tensor α) : Bool :=
  s.shape.dims == t.shape.dims && s.data == t.data

end Tensor

/-- Sum of the squares in double precision. -/
def Tensor.sumOfSquares (t : Tensor Binary32) : Float :=
  t.data.foldl (fun sum x => sum + x.toFloat * x.toFloat) 0

end ConvSweep
