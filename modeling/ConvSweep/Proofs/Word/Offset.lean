import Mathlib
import ConvSweep.Buffer
import ConvSweep.Conv.Problem
import ConvSweep.Proofs.Cellwise
import ConvSweep.Proofs.Conv.Taps
import ConvSweep.Proofs.Outcome

/-!
# Sizes in machine words

The kernels compute offsets as natural numbers.  A machine computes them in words,
one operation after the other, and each operation can leave the word.  An `Offset`
is an expression of such operations; its evaluation checks every one of them.  As
long as nothing is subtracted and no factor is zero, an expression only grows, so
its evaluation succeeds as soon as its value fits the word.

The modules that follow write every kernel down with all its size operations
checked, and show that this makes no difference for the executors that can be
built: the checked kernels are the kernels.
-/

namespace ConvSweep

open Loop

/-!
## Expressions
-/

inductive Offset
  | size (n : Nat)
  | add (x y : Offset)
  | mul (x y : Offset)
  | sub (x y : Offset)

namespace Offset

instance : Coe Nat Offset := ⟨size⟩

instance (n : Nat) : OfNat Offset n := ⟨size n⟩

instance : Add Offset := ⟨add⟩

instance : Mul Offset := ⟨mul⟩

instance : Sub Offset := ⟨sub⟩

/-- The value in unbounded numbers. -/
def value : Offset → Nat
  | size n => n
  | add x y => x.value + y.value
  | mul x y => x.value * y.value
  | sub x y => x.value - y.value

/-- The value, with every operation checked. -/
def eval : Offset → Except Fault Nat
  | size n => Size.checked n
  | add x y => do
      let a ← x.eval
      let b ← y.eval
      Size.checked (a + b)
  | mul x y => do
      let a ← x.eval
      let b ← y.eval
      Size.checked (a * b)
  | sub x y => do
      let a ← x.eval
      let b ← y.eval
      Fault.overflow.check (b ≤ a)
      return a - b

/-- A size that a product can be divided by again. -/
def Counts (n : Nat) : Prop :=
  0 < n ∧ n < Size.limit

/-- Every part of the expression is at most its value. -/
def Rises : Offset → Prop
  | size _ => True
  | add x y => x.Rises ∧ y.Rises
  | mul x y => x.Rises ∧ y.Rises ∧ Counts y.value
  | sub _ _ => False

@[simp] theorem rises_size (n : Nat) : (size n).Rises := trivial

@[simp] theorem rises_ofNat (n : Nat) : (no_index (OfNat.ofNat n) : Offset).Rises := trivial

@[simp] theorem rises_add (x y : Offset) : (x + y).Rises ↔ x.Rises ∧ y.Rises := Iff.rfl

@[simp] theorem rises_mul (x y : Offset) :
    (x * y).Rises ↔ x.Rises ∧ y.Rises ∧ Counts y.value := Iff.rfl

@[simp] theorem value_size (n : Nat) : (size n).value = n := rfl

@[simp] theorem value_ofNat (n : Nat) : (no_index (OfNat.ofNat n) : Offset).value = n := rfl

@[simp] theorem value_add (x y : Offset) : (x + y).value = x.value + y.value := rfl

@[simp] theorem value_mul (x y : Offset) : (x * y).value = x.value * y.value := rfl

theorem eval_size {n : Nat} (h : n < Size.limit) : (size n).eval = .ok n :=
  Size.checked_of_lt h

theorem eval_add {x y : Offset} {a b : Nat} (hx : x.eval = .ok a) (hy : y.eval = .ok b)
    (h : a + b < Size.limit) : (x + y).eval = .ok (a + b) := by
  show (add x y).eval = _
  rw [eval, hx, hy]
  exact Size.checked_of_lt h

theorem eval_product {x y : Offset} {a b : Nat} (hx : x.eval = .ok a) (hy : y.eval = .ok b) :
    (x * y).eval = Size.checked (a * b) := by
  show (mul x y).eval = _
  rw [eval, hx, hy]
  rfl

theorem eval_mul {x y : Offset} {a b : Nat} (hx : x.eval = .ok a) (hy : y.eval = .ok b)
    (h : a * b < Size.limit) : (x * y).eval = .ok (a * b) := by
  rw [eval_product hx hy]
  exact Size.checked_of_lt h

/-- A sum leaves the word if one of its terms does. -/
theorem eval_sum {x y : Offset} {a b : Nat} (hx : x.eval = Size.checked a)
    (hy : y.eval = Size.checked b) : (x + y).eval = Size.checked (a + b) := by
  show (add x y).eval = _
  rw [eval, hx, hy]
  by_cases ha : Size.Fits a
  · rw [Size.checked_bind ha]
    by_cases hb : Size.Fits b
    · rw [Size.checked_bind hb]
    · have hsum : ¬ Size.Fits (a + b) := fun h =>
        hb (Nat.lt_of_le_of_lt (Nat.le_add_left b a) h)
      rw [Size.checked_of_not_fits hb, Size.checked_of_not_fits hsum]
      rfl
  · have hsum : ¬ Size.Fits (a + b) := fun h =>
      ha (Nat.lt_of_le_of_lt (Nat.le_add_right a b) h)
    rw [Size.checked_of_not_fits ha, Size.checked_of_not_fits hsum]
    rfl

theorem eval_sub {x y : Offset} {a b : Nat} (hx : x.eval = .ok a) (hy : y.eval = .ok b)
    (h : b ≤ a) : (x - y).eval = .ok (a - b) := by
  show (sub x y).eval = _
  rw [eval, hx, hy]
  show (Fault.overflow.check (b ≤ a) >>= fun _ => _) = _
  rw [check_bind h]
  rfl

/-- An expression that rises can be evaluated when its value fits the word. -/
theorem eval_of_rises {e : Offset} (h : e.Rises) (hlt : e.value < Size.limit) :
    e.eval = .ok e.value := by
  induction e with
  | size n =>
      exact eval_size hlt
  | add x y ihx ihy =>
      have hsum : x.value + y.value < Size.limit := hlt
      exact eval_add (ihx h.1 (by omega)) (ihy h.2 (by omega)) hsum
  | mul x y ihx ihy =>
      have hproduct : x.value * y.value < Size.limit := hlt
      have hle : x.value ≤ x.value * y.value := Nat.le_mul_of_pos_right _ h.2.2.1
      exact eval_mul (ihx h.1 (by omega)) (ihy h.2.1 h.2.2.2) hproduct
  | sub x y _ _ =>
      exact h.elim

/-- The place of a column in a row, also where the rows lie on top of each other. -/
theorem eval_place {r stride c : Nat} (hr : r < Size.limit) (hstride : stride < Size.limit)
    (hlt : r * stride + c < Size.limit) :
    (r * stride + c : Offset).eval = .ok (r * stride + c) := by
  apply eval_add
  · exact eval_mul (eval_size hr) (eval_size hstride) (by omega)
  · exact eval_size (by omega)
  · exact hlt

/-- The end of the last row: its operations leave the word only if their result does. -/
theorem eval_last_row {rows stride width : Nat} (hpos : 0 < rows) (hrows : rows < Size.limit)
    (hstride : stride < Size.limit) :
    ((rows - 1) * stride + width : Offset).eval =
      Size.checked ((rows - 1) * stride + width) := by
  have hlast : (rows - 1 : Offset).eval = .ok (rows - 1) :=
    eval_sub (eval_size hrows) rfl hpos
  exact eval_sum (eval_product hlast (eval_size hstride)) rfl

end Offset

namespace Word

variable {α : Type}

/-- Quotient and remainder; a fault for a zero divisor. -/
def divide (a b : Nat) : Except Fault (Nat × Nat) := do
  Fault.overflow.check (b ≠ 0)
  return (a / b, a % b)

theorem divide_ok {a b : Nat} (h : 0 < b) : divide a b = .ok (a / b, a % b) := by
  rw [divide, check_bind (Nat.ne_of_gt h)]
  rfl

/-!
## Buffers
-/

def fetchAt (xs : Array α) (place : Offset) : Except Fault α := do
  let i ← place.eval
  fetch xs i

def writeAt {n : Nat} (place : Offset) (x : α) : BufferM α n Unit := do
  let i ← place.eval
  BufferM.write i x

/-- The elements from one offset up to another. -/
def span (xs : Array α) (start stop : Offset) : Except Fault (Array α) := do
  let first ← start.eval
  let last ← stop.eval
  Fault.outOfRange.check (first ≤ last)
  slice xs first (last - first)

/-- Runs an action on the elements from one offset up to another. -/
def onSpan {n : Nat} (start stop : Offset) (act : (length : Nat) → BufferM α length Unit) :
    BufferM α n Unit := do
  let first ← start.eval
  let last ← stop.eval
  Fault.outOfRange.check (first ≤ last)
  BufferM.onSlice first (last - first) (act _)

theorem fetchAt_of_eval {xs : Array α} {place : Offset} {i : Nat} (h : place.eval = .ok i) :
    fetchAt xs place = fetch xs i := by
  rw [fetchAt, h]
  rfl

theorem fetchAt_eq {xs : Array α} {place : Offset} (h : place.Rises)
    (hlt : place.value < Size.limit) : fetchAt xs place = fetch xs place.value :=
  fetchAt_of_eval (Offset.eval_of_rises h hlt)

theorem fetchAt_add {xs : Array α} {a b : Nat} (h : a + b < Size.limit) :
    fetchAt xs (a + b) = fetch xs (a + b) :=
  fetchAt_eq (by simp) h

theorem writeAt_eq {n : Nat} {place : Offset} {x : α} (h : place.Rises)
    (hlt : place.value < Size.limit) :
    (writeAt place x : BufferM α n Unit) = BufferM.write place.value x := by
  rw [writeAt, BufferM.lift_bind (Offset.eval_of_rises h hlt)]

section

variable {start stop : Offset} {first length : Nat} (hstart : start.eval = .ok first)
  (hstop : stop.eval = .ok (first + length))
include hstart hstop

theorem span_of_eval {xs : Array α} : span xs start stop = slice xs first length := by
  rw [span, hstart, ok_bind, hstop, ok_bind, check_bind (Nat.le_add_right _ _),
    Nat.add_sub_cancel_left]

theorem onSpan_of_eval {n : Nat} {act : (length : Nat) → BufferM α length Unit} :
    (onSpan start stop act : BufferM α n Unit) = BufferM.onSlice first length (act length) := by
  have hlength : first + length - first = length := Nat.add_sub_cancel_left first length
  rw [onSpan, BufferM.lift_bind hstart, BufferM.lift_bind hstop,
    BufferM.lift_bind (check_of _ (Nat.le_add_right _ _)), hlength]

end

section

variable {start stop : Offset} {length : Nat} (hstart : start.Rises) (hstop : stop.Rises)
  (hlength : start.value + length = stop.value) (hlt : stop.value < Size.limit)
include hstart hstop hlength hlt

theorem span_eq {xs : Array α} : span xs start stop = slice xs start.value length := by
  apply span_of_eval
  · exact Offset.eval_of_rises hstart (by omega)
  · rw [hlength]
    exact Offset.eval_of_rises hstop hlt

theorem onSpan_eq {n : Nat} {act : (length : Nat) → BufferM α length Unit} :
    (onSpan start stop act : BufferM α n Unit) =
      BufferM.onSlice start.value length (act length) := by
  apply onSpan_of_eval
  · exact Offset.eval_of_rises hstart (by omega)
  · rw [hlength]
    exact Offset.eval_of_rises hstop hlt

end

theorem span_from {xs : Array α} {start length : Nat} (hlt : start + length < Size.limit) :
    span xs start (start + length) = slice xs start length := by
  have hstop : (start + length : Offset).value < Size.limit := hlt
  exact span_eq (by simp) (by simp) rfl hstop

theorem onSpan_from {n start length : Nat} {act : (length : Nat) → BufferM α length Unit}
    (hlt : start + length < Size.limit) :
    (onSpan start (start + length) act : BufferM α n Unit) =
      BufferM.onSlice start length (act length) := by
  have hstop : (start + length : Offset).value < Size.limit := hlt
  exact onSpan_eq (by simp) (by simp) rfl hstop

theorem stretch_end_lt {i count length : Nat} (hi : i < count)
    (hlt : count * length < Size.limit) : (i + 1) * length < Size.limit :=
  Nat.lt_of_le_of_lt (Nat.mul_le_mul_right length hi) hlt

section

variable {i : Offset} {length count : Nat} (hi : i.Rises) (hcounts : Offset.Counts length)
  (hcount : i.value < count) (hlt : count * length < Size.limit)
include hi hcounts hcount hlt

/-- Stretch number `i` of a buffer of stretches of equal length. -/
theorem span_stretch {xs : Array α} :
    span xs (i * length) ((i + 1) * length) = slice xs (i.value * length) length := by
  have hend : ((i + 1) * length : Offset).value < Size.limit := stretch_end_lt hcount hlt
  exact span_eq (by simp [hi, hcounts]) (by simp [hi, hcounts]) (Nat.succ_mul _ _).symm hend

theorem onSpan_stretch {n : Nat} {act : (length : Nat) → BufferM α length Unit} :
    (onSpan (i * length) ((i + 1) * length) act : BufferM α n Unit) =
      BufferM.onSlice (i.value * length) length (act length) := by
  have hend : ((i + 1) * length : Offset).value < Size.limit := stretch_end_lt hcount hlt
  exact onSpan_eq (by simp [hi, hcounts]) (by simp [hi, hcounts]) (Nat.succ_mul _ _).symm hend

end

section

variable {i length width count : Nat} (hi : i < count) (hlength : Offset.Counts length)
  (hwidth : Offset.Counts width) (hlt : count * (length * width) < Size.limit)
include hi hlength hwidth hlt

/-- Block number `i` of a buffer of blocks, each of `length` rows. -/
theorem span_block {xs : Array α} :
    span xs (i * length * width) ((i + 1) * length * width) =
      slice xs (i * length * width) (length * width) := by
  have hnext : i * length * width + length * width = (i + 1) * length * width := by
    ring
  have hend : ((i + 1) * length * width : Offset).value < Size.limit := by
    show (i + 1) * length * width < Size.limit
    rw [Nat.mul_assoc]
    exact stretch_end_lt hi hlt
  exact span_eq (by simp [hlength, hwidth]) (by simp [hlength, hwidth]) hnext hend

theorem onSpan_block {n : Nat} {act : (length : Nat) → BufferM α length Unit} :
    (onSpan (i * length * width) ((i + 1) * length * width) act : BufferM α n Unit) =
      BufferM.onSlice (i * length * width) (length * width) (act _) := by
  have hnext : i * length * width + length * width = (i + 1) * length * width := by
    ring
  have hend : ((i + 1) * length * width : Offset).value < Size.limit := by
    show (i + 1) * length * width < Size.limit
    rw [Nat.mul_assoc]
    exact stretch_end_lt hi hlt
  exact onSpan_eq (by simp [hlength, hwidth]) (by simp [hlength, hwidth]) hnext hend

end

/-!
## Taps in signed words
-/

/-- The words below this bound are their own signed reading. -/
def signLimit : Nat := 0x8000000000000000

/-- The signed reading of a word. -/
def toSigned (n : Nat) : Int :=
  if n < signLimit then n else (n : Int) - Size.limit

/-- The word of a signed number. -/
def ofSigned (i : Int) : Nat :=
  (if 0 ≤ i then i else i + Size.limit).toNat

def signedSub (a b : Int) : Except Fault Int := do
  Fault.overflow.check (-(signLimit : Int) ≤ a - b ∧ a - b < signLimit)
  return a - b

/-- The place of a tap before the input begins is negative. -/
def signedPlace (halo o k : Nat) : Except Fault Int := do
  let s ← (o + k : Offset).eval
  signedSub (toSigned s) (toSigned halo)

def outside (extent : Nat) (i : Int) : Prop :=
  i < 0 ∨ toSigned extent ≤ i

instance (extent : Nat) (i : Int) : Decidable (outside extent i) := by
  unfold outside
  infer_instance

/-- A signed place is outside of the input exactly where the tap has no source. -/
theorem signedPlace_cases {halo extent o k : Nat} (hsum : o + k < signLimit)
    (hhalo : halo < signLimit) (hextent : extent < signLimit) :
    ∃ i, signedPlace halo o k = .ok i ∧
      (outside extent i ∧ Problem.source? halo extent o k = none ∨
        ¬ outside extent i ∧ Problem.source? halo extent o k = some (ofSigned i)) := by
  have hlimit : signLimit < Size.limit := by decide
  have heval : (o + k : Offset).eval = .ok (o + k) :=
    Offset.eval_of_rises (by simp) (Nat.lt_trans hsum hlimit)
  have hrange : -(signLimit : Int) ≤ (o + k : Nat) - (halo : Int) ∧
      ((o + k : Nat) : Int) - halo < signLimit := by omega
  refine ⟨((o + k : Nat) : Int) - halo, ?_, ?_⟩
  · rw [signedPlace, heval, ok_bind, signedSub, toSigned, toSigned, if_pos hsum, if_pos hhalo,
      check_bind hrange]
    rfl
  · rw [outside, toSigned, if_pos hextent, Problem.source?, ofSigned]
    by_cases hin : halo ≤ o + k ∧ o + k - halo < extent
    · right
      rw [if_pos hin, if_pos (by omega)]
      constructor
      · omega
      · congr 1
        omega
    · left
      rw [if_neg hin]
      constructor
      · omega
      · rfl

/-- The source of a tap by a subtraction that wraps around. -/
def wrappingSource? (halo extent o k : Nat) : Except Fault (Option Nat) := do
  let s ← (o + k : Offset).eval
  let s := (s + (Size.limit - halo)) % Size.limit
  return if s < extent then some s else none

/-- A wrapped place is far behind the end of the input. -/
theorem wrappingSource?_eq {halo extent o k : Nat} (hsum : o + k < signLimit)
    (hhalo : halo < signLimit) (hextent : extent < signLimit) :
    wrappingSource? halo extent o k = .ok (Problem.source? halo extent o k) := by
  have hlimit : Size.limit = 2 * signLimit := by decide
  have heval : (o + k : Offset).eval = .ok (o + k) :=
    Offset.eval_of_rises (by simp) (by show o + k < _; omega)
  rw [wrappingSource?, heval, ok_bind, Problem.source?]
  show Except.ok _ = Except.ok _
  congr 1
  by_cases hle : halo ≤ o + k
  · have hmod : (o + k + (Size.limit - halo)) % Size.limit = o + k - halo := by
      rw [show o + k + (Size.limit - halo) = o + k - halo + Size.limit by omega,
        Nat.add_mod_right, Nat.mod_eq_of_lt (by omega)]
    simp only [hmod, hle, true_and]
  · have hmod : (o + k + (Size.limit - halo)) % Size.limit = o + k + (Size.limit - halo) :=
      Nat.mod_eq_of_lt (by omega)
    simp only [hmod, hle, false_and, if_false]
    exact if_neg (by omega)

end Word

/-!
## Equal loops
-/

namespace Loop

variable {m : Type → Type} [Monad m] {β : Type}

theorem forRange_congr {start count : Nat} {f g : Nat → m Unit}
    (h : ∀ i, start ≤ i → i < start + count → f i = g i) :
    forRange start count f = forRange start count g := by
  induction count generalizing start with
  | zero =>
      rfl
  | succ count ih =>
      unfold forRange
      rw [h start (Nat.le_refl _) (by omega), ih fun i hi hi' => h i (by omega) (by omega)]

theorem forRange_zero_congr {count : Nat} {f g : Nat → m Unit} (h : ∀ i < count, f i = g i) :
    forRange 0 count f = forRange 0 count g :=
  forRange_congr fun i _ hi => h i (by omega)

theorem foldRange_zero_congr {count : Nat} {f g : β → Nat → m β} (acc : β)
    (h : ∀ i < count, ∀ b, f b i = g b i) : foldRange 0 count f acc = foldRange 0 count g acc := by
  have hfrom : ∀ start count acc, (∀ i, i < start + count → ∀ b, f b i = g b i) →
      foldRange start count f acc = foldRange start count g acc := by
    intro start count
    induction count generalizing start with
    | zero =>
        intro acc _
        rfl
    | succ count ih =>
        intro acc hfg
        unfold foldRange
        rw [hfg start (by omega)]
        congr 1
        funext next
        exact ih (start + 1) next fun i hi => hfg i (by omega)
  exact hfrom 0 count acc fun i hi => h i (by omega)

/-- The end of a tile fits the word, also where the tile is as large as a word. -/
theorem tile_end_lt {extent stride i : Nat} (hi : i < strideCount extent stride)
    (hextent : extent < Size.bufferLimit) (hstride : stride < Size.limit) :
    i * stride + stride < Size.limit := by
  have hlimit : 2 * Size.bufferLimit < Size.limit := by decide
  cases i with
  | zero =>
      omega
  | succ i =>
      have hpos : 0 < stride := by
        rcases Nat.eq_zero_or_pos stride with hzero | hpos
        · rw [hzero, strideCount, Nat.div_zero] at hi
          exact absurd hi (Nat.not_lt_zero _)
        · exact hpos
      rw [strideCount, Nat.lt_div_iff_mul_lt hpos, Nat.succ_mul] at hi
      rw [Nat.succ_mul]
      have hle : stride ≤ i * stride + stride := Nat.le_add_left _ _
      have hrest := Nat.mul_comm stride i
      omega

end Loop

namespace BufferM

variable {α β : Type} {n : Nat}

theorem forM_congr {entries : List β} {f g : β → BufferM α n Unit}
    (h : ∀ entry ∈ entries, f entry = g entry) : entries.forM f = entries.forM g := by
  induction entries with
  | nil =>
      rfl
  | cons entry rest ih =>
      unfold List.forM
      rw [h entry List.mem_cons_self,
        ih fun entry' hentry => h entry' (List.mem_cons_of_mem entry hentry)]

theorem onChunks_congr {chunk count : Nat} (schedule : Schedule) (hn : n = count * chunk)
    {f g : ChunkTask α} (h : ∀ i < count, f i chunk = g i chunk) :
    (onChunks schedule chunk f : BufferM α n Unit) = onChunks schedule chunk g := by
  rcases Nat.eq_zero_or_pos chunk with hzero | hpos
  · rw [onChunks, onChunks, if_pos hzero, if_pos hzero]
  · have hcount := chunkCount_eq hpos hn
    have hruns : ∀ order : List Nat, (∀ i ∈ order, i < count) →
        (runChunks chunk f order : BufferM α n Unit) = runChunks chunk g order := by
      intro order
      induction order with
      | nil =>
          intro _
          rfl
      | cons i rest ih =>
          intro horder
          have hi := horder i List.mem_cons_self
          have hend := Loop.mul_add_le chunk hi
          have hlen : min chunk (n - i * chunk) = chunk := by omega
          rw [runChunks, runChunks, hlen, h i hi,
            ih fun j hj => horder j (List.mem_cons_of_mem i hj)]
    rw [onChunks, onChunks, if_neg (by omega), if_neg (by omega), hcount]
    apply hruns
    intro i hi
    exact List.mem_range.mp ((schedule.order_perm count).mem_iff.mp hi)

end BufferM
end ConvSweep
