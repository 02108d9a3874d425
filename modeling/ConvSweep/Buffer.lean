import ConvSweep.Fault
import ConvSweep.Loop

/-!
# Buffers

Operands are arrays that are only read; `fetch` and `slice` fault outside their
bounds.  A result is written by a `BufferM` action, whose state is a buffer of
fixed length.  A fault keeps what was written before it, so that the state of a
buffer after a failed run is a definite value.

`onSlice` runs an action on a stretch of the buffer and `onChunks` runs one task
per chunk of equal length.  A task sees its own chunk and nothing else of the
buffer, hence chunks may run in any order; `Schedule` fixes one.
-/

namespace ConvSweep

variable {α β : Type}

/-! ## Reading -/

def fetch (xs : Array α) (i : Nat) : Except Fault α :=
  Fault.outOfRange.demand xs[i]?

/-- The `length` elements from `start` on. -/
def slice (xs : Array α) (start length : Nat) : Except Fault (Array α) :=
  if start + length ≤ xs.size then .ok (xs.extract start (start + length)) else .error .outOfRange

/-! ## Writing -/

/-- Actions on a buffer of `n` elements. -/
abbrev BufferM (α : Type) (n : Nat) : Type → Type :=
  EStateM Fault (Vector α n)

namespace BufferM

variable {n : Nat}

/-- The final buffer of an action that ends without a fault. -/
def run (act : BufferM α n Unit) (v : Vector α n) : Except Fault (Vector α n) :=
  match act v with
  | .ok _ w => .ok w
  | .error f _ => .error f

/-- A result that does not depend on the buffer. -/
def lift (x : Except Fault β) : BufferM α n β := fun v =>
  match x with
  | .ok b => .ok b v
  | .error f => .error f v

instance : MonadLift (Except Fault) (BufferM α n) where
  monadLift := lift

def read (i : Nat) : BufferM α n α := fun v =>
  if h : i < n then .ok v[i] v else .error .outOfRange v

def write (i : Nat) (x : α) : BufferM α n Unit := fun v =>
  if h : i < n then .ok () (v.set i x h) else .error .outOfRange v

def fill (x : α) : BufferM α n Unit := fun _ =>
  .ok () (Vector.replicate n x)

def transform (f : α → α) : BufferM α n Unit := fun v =>
  .ok () (v.map f)

/-- The whole buffer is replaced by an array of the same length. -/
def copyFrom (xs : Array α) : BufferM α n Unit := fun v =>
  if h : xs.size = n then .ok () ⟨xs, h⟩ else .error .outOfRange v

end BufferM

/-! ## Slices -/

/-- `v` with the elements from `start` on replaced by those of `w`. -/
def splice {n len : Nat} (v : Vector α n) (start : Nat) (w : Vector α len)
    (h : start + len ≤ n) : Vector α n :=
  Nat.fold len (fun i hi acc => acc.set (start + i) w[i] (by omega)) v

/-- The elements of `v` from `start` on, `len` of them. -/
def window {n : Nat} (v : Vector α n) (start len : Nat) (h : start + len ≤ n) : Vector α len :=
  (v.extract start (start + len)).cast (by omega)

namespace BufferM

variable {n : Nat}

/-- Runs an action on the `len` elements from `start` on, also when it ends in a fault. -/
@[specialize]
def onSlice (start len : Nat) (act : BufferM α len β) : BufferM α n β := fun v =>
  if h : start + len ≤ n then
    match act (window v start len h) with
    | .ok b w => .ok b (splice v start w h)
    | .error f w => .error f (splice v start w h)
  else
    .error .outOfRange v

end BufferM

/-! ## Chunks -/

/-- An order in which `count` independent tasks run, for every `count`. -/
structure Schedule where
  order : Nat → List Nat
  order_perm : ∀ count, (order count).Perm (List.range count)

namespace Schedule

/-- From the first task to the last. -/
def serial : Schedule where
  order := List.range
  order_perm _ := List.Perm.refl _

instance : Inhabited Schedule := ⟨serial⟩

end Schedule

/-- A task is given the number of its chunk and acts on a buffer of the chunk's length. -/
abbrev ChunkTask (α : Type) : Type :=
  Nat → (len : Nat) → BufferM α len Unit

/-- The number of chunks of length `chunk` that cover `n` elements. -/
def chunkCount (n chunk : Nat) : Nat :=
  (n + chunk - 1) / chunk

namespace BufferM

variable {n : Nat}

/-- Runs the tasks of the listed chunks; the last chunk may be shorter than the others. -/
@[specialize]
def runChunks (chunk : Nat) (task : ChunkTask α) : List Nat → BufferM α n Unit
  | [] => pure ()
  | i :: rest => do
      onSlice (i * chunk) (min chunk (n - i * chunk)) (task i _)
      runChunks chunk task rest

/-- Runs one task per chunk, in the order of the schedule. -/
@[specialize]
def onChunks (schedule : Schedule) (chunk : Nat) (task : ChunkTask α) : BufferM α n Unit :=
  if chunk = 0 then
    pure ()
  else
    runChunks chunk task (schedule.order (chunkCount n chunk))

end BufferM

end ConvSweep
