import Mathlib
import ConvSweep.Proofs.Matrix.Product

/-!
# The contract of the dense multiply

A multiply checks its strides and buffers before it writes.  Of an operand it asks
that the last stored row begins inside of the buffer, which does not say that the row
ends there.  So a call that fails a check has left `C` alone, while a call that passes
all of them runs to its end only if the operands are complete, and otherwise stops in
some row of `C` with the rows before it written.

Whether an action ends does not depend on what the buffers hold.  A run that ends is
taken apart at its loops: every round of it has ended as well, and among the rounds
are those that read the last entries of both operands.
-/

namespace ConvSweep

open Loop

variable {α : Type}

/-!
## Actions that end, and actions that stop
-/

namespace BufferM

section

variable {n : Nat} {β γ : Type}

/-- The action ends without a fault on some buffer. -/
def Ends (act : BufferM α n β) : Prop :=
  ∃ v b w, act v = .ok b w

theorem ends_of_bind {x : BufferM α n β} {f : β → BufferM α n γ} (h : Ends (x >>= f)) :
    Ends x ∧ ∃ b, Ends (f b) := by
  rcases h with ⟨v, c, w, h⟩
  cases hx : x v with
  | ok b u =>
      rw [bind_run hx] at h
      exact ⟨⟨v, b, u, hx⟩, b, u, c, w, h⟩
  | error fault u =>
      rw [bind_error hx] at h
      cases h

theorem ends_of_lift_bind {x : Except Fault β} {f : β → BufferM α n γ}
    (h : Ends ((liftM x : BufferM α n β) >>= f)) : ∃ b, x = .ok b ∧ Ends (f b) := by
  cases x with
  | ok b =>
      exact ⟨b, rfl, h⟩
  | error fault =>
      rcases h with ⟨_, _, _, h⟩
      cases h

/-- Every round of a loop that ends has ended. -/
theorem ends_of_forRange {start count : Nat} {body : Nat → BufferM α n Unit}
    (h : Ends (forRange start count body)) {i : Nat} (hlo : start ≤ i) (hhi : i < start + count) :
    Ends (body i) := by
  induction count generalizing start with
  | zero =>
      omega
  | succ count ih =>
      rcases ends_of_bind h with ⟨hfirst, _, hrest⟩
      rcases Nat.eq_or_lt_of_le hlo with rfl | hlt
      · exact hfirst
      · exact ih hrest hlt (by omega)

theorem ends_of_onSlice {start len : Nat} {act : BufferM α len β}
    (h : Ends (onSlice start len act : BufferM α n β)) : Ends act := by
  rcases h with ⟨v, b, w, h⟩
  rw [onSlice] at h
  split at h
  · split at h
    · rename_i hact
      exact ⟨_, _, _, hact⟩
    · cases h
  · cases h

theorem ends_of_runChunks {chunk : Nat} {task : ChunkTask α} {order : List Nat}
    (h : Ends (runChunks chunk task order : BufferM α n Unit)) {i : Nat} (hi : i ∈ order) :
    ∃ len, Ends (task i len) := by
  induction order with
  | nil =>
      cases hi
  | cons k rest ih =>
      rcases ends_of_bind h with ⟨hfirst, _, hrest⟩
      rcases List.mem_cons.mp hi with rfl | hmem
      · exact ⟨_, ends_of_onSlice hfirst⟩
      · exact ih hrest hmem

theorem ends_of_onChunks {schedule : Schedule} {chunk count : Nat} {task : ChunkTask α}
    (hchunk : 0 < chunk) (hn : n = count * chunk)
    (h : Ends (onChunks schedule chunk task : BufferM α n Unit)) {i : Nat} (hi : i < count) :
    ∃ len, Ends (task i len) := by
  rw [onChunks, if_neg (Nat.ne_of_gt hchunk), chunkCount_eq hchunk hn] at h
  exact ends_of_runChunks h ((schedule.order_perm count).mem_iff.mpr (List.mem_range.mpr hi))

/-- The action does not stop but at an index outside of a buffer. -/
def StopsAtIndex (act : BufferM α n β) : Prop :=
  ∀ v fault w, act v = .error fault w → fault = .outOfRange

theorem StopsAtIndex.of_ok {act : BufferM α n β} (h : ∀ v, ∃ b w, act v = .ok b w) :
    StopsAtIndex act := by
  intro v fault w hstop
  rcases h v with ⟨b, u, hrun⟩
  rw [hrun] at hstop
  cases hstop

theorem stopsAtIndex_pure (b : β) : StopsAtIndex (pure b : BufferM α n β) :=
  .of_ok fun v => ⟨b, v, rfl⟩

theorem StopsAtIndex.bind {x : BufferM α n β} {f : β → BufferM α n γ} (hx : StopsAtIndex x)
    (hf : ∀ b, StopsAtIndex (f b)) : StopsAtIndex (x >>= f) := by
  intro v fault w h
  cases hrun : x v with
  | ok b u =>
      rw [bind_run hrun] at h
      exact hf b u fault w h
  | error first u =>
      rw [bind_error hrun] at h
      cases h
      exact hx v _ _ hrun

theorem StopsAtIndex.lift_bind {x : Except Fault β} {f : β → BufferM α n γ}
    (hx : ∀ fault, x = .error fault → fault = .outOfRange) (hf : ∀ b, StopsAtIndex (f b)) :
    StopsAtIndex ((liftM x : BufferM α n β) >>= f) := by
  cases x with
  | ok b =>
      exact hf b
  | error fault =>
      intro v other w h
      cases h
      exact hx _ rfl

theorem stopsAtIndex_forRange {start count : Nat} {body : Nat → BufferM α n Unit}
    (h : ∀ i, StopsAtIndex (body i)) : StopsAtIndex (forRange start count body) := by
  induction count generalizing start with
  | zero =>
      exact stopsAtIndex_pure ()
  | succ count ih =>
      exact (h start).bind fun _ => ih

theorem stopsAtIndex_onSlice {start len : Nat} {act : BufferM α len β} (h : StopsAtIndex act) :
    StopsAtIndex (onSlice start len act : BufferM α n β) := by
  intro v fault w hrun
  rw [onSlice] at hrun
  split at hrun
  · split at hrun
    · cases hrun
    · rename_i hact
      cases hrun
      exact h _ _ _ hact
  · cases hrun
    rfl

theorem stopsAtIndex_onChunks (schedule : Schedule) (chunk : Nat) {task : ChunkTask α}
    (h : ∀ i len, StopsAtIndex (task i len)) :
    StopsAtIndex (onChunks schedule chunk task : BufferM α n Unit) := by
  have hrun : ∀ order, StopsAtIndex (runChunks chunk task order : BufferM α n Unit) := by
    intro order
    induction order with
    | nil =>
        exact stopsAtIndex_pure ()
    | cons i rest ih =>
        exact (stopsAtIndex_onSlice (h i _)).bind fun _ => ih
  rw [onChunks]
  split
  · exact stopsAtIndex_pure ()
  · exact hrun _

theorem stopsAtIndex_write (i : Nat) (x : α) : StopsAtIndex (write i x : BufferM α n Unit) := by
  intro v fault w h
  rw [write] at h
  split at h
  · cases h
  · cases h
    rfl

theorem stopsAtIndex_read (i : Nat) : StopsAtIndex (read i : BufferM α n α) := by
  intro v fault w h
  rw [read] at h
  split at h
  · cases h
  · cases h
    rfl

theorem stopsAtIndex_scale [Zero α] [One α] [Mul α] [BEq α] (beta : α) :
    StopsAtIndex (scale beta : BufferM α n Unit) := by
  rw [scale]
  split
  · exact .of_ok fun _ => ⟨(), _, rfl⟩
  · split
    · exact stopsAtIndex_pure ()
    · exact .of_ok fun _ => ⟨(), _, rfl⟩

theorem stopsAtIndex_addScaled [Add α] [Mul α] (a : α) (xs : Array α) :
    StopsAtIndex (addScaled a xs : BufferM α n Unit) :=
  .of_ok fun _ => ⟨(), _, rfl⟩

end

end BufferM

theorem fetch_eq_error {xs : Array α} {i : Nat} {fault : Fault} (h : fetch xs i = .error fault) :
    fault = .outOfRange := by
  rw [fetch] at h
  cases hx : xs[i]? with
  | none =>
      rw [hx] at h
      cases h
      rfl
  | some x =>
      rw [hx] at h
      cases h

theorem lt_of_fetch {xs : Array α} {i : Nat} {x : α} (h : fetch xs i = .ok x) : i < xs.size := by
  by_contra hle
  rw [fetch, Array.getElem?_eq_none (Nat.not_lt.mp hle)] at h
  cases h

theorem slice_eq_error {xs : Array α} {start length : Nat} {fault : Fault}
    (h : slice xs start length = .error fault) : fault = .outOfRange := by
  rw [slice] at h
  split at h
  · cases h
  · cases h
    rfl

theorem le_of_slice {xs ys : Array α} {start length : Nat} (h : slice xs start length = .ok ys) :
    start + length ≤ xs.size := by
  by_contra hle
  rw [slice, if_neg hle] at h
  cases h

/-- Every step of a fold that succeeds has succeeded. -/
theorem of_foldRange {β : Type} {start count : Nat} {step : β → Nat → Except Fault β}
    {acc result : β} (h : foldRange start count step acc = .ok result) {i : Nat} (hlo : start ≤ i)
    (hhi : i < start + count) : ∃ b c, step b i = .ok c := by
  induction count generalizing start acc with
  | zero =>
      omega
  | succ count ih =>
      rcases bind_eq_ok h with ⟨next, hfirst, hrest⟩
      rcases Nat.eq_or_lt_of_le hlo with rfl | hlt
      · exact ⟨acc, next, hfirst⟩
      · exact ih hrest hlt (by omega)

theorem foldRange_eq_error {β : Type} {start count : Nat} {step : β → Nat → Except Fault β}
    {acc : β} {fault : Fault} (hstep : ∀ b i, step b i = .error fault → fault = .outOfRange)
    (h : foldRange start count step acc = .error fault) : fault = .outOfRange := by
  induction count generalizing start acc with
  | zero =>
      cases h
  | succ count ih =>
      rcases bind_eq_error h with hfirst | ⟨next, _, hrest⟩
      · exact hstep acc start hfirst
      · exact ih hrest

namespace Operand

theorem place_lt_of_entry {x : Operand α} {i j : Nat} {y : α} (h : x.entry i j = .ok y) :
    x.place i j < x.data.size :=
  lt_of_fetch h

/-- The operand is complete when its last entry is there. -/
theorem extent_le_of_place_lt {x : Operand α} {rows cols bound : Nat} (hrows : 0 < rows)
    (hcols : 0 < cols) (h : x.place (rows - 1) (cols - 1) < bound) :
    x.extent rows cols ≤ bound := by
  rw [place] at h
  rw [extent, storedRows, storedCols]
  cases hcase : x.transposed with
  | false =>
      simp only [hcase, Bool.false_eq_true, if_false] at h ⊢
      omega
  | true =>
      simp only [hcase, if_true] at h ⊢
      omega

end Operand

namespace DenseMultiply

open BufferM

/-!
## Rows that end
-/

section

variable [Zero α] [One α] [Add α] [Mul α] [BEq α] {mul : DenseMultiply α} {tile i len : Nat}

/-- A row that is added up in tiles reads a row of `B` tile by tile. -/
theorem places_lt_of_addRows (hplain : mul.b.transposed = false) (htile : 0 < tile)
    (h : Ends (mul.addRows tile i : BufferM α len Unit)) {p j : Nat} (hp : p < mul.k)
    (hj : j < mul.n) : mul.a.place i p < mul.a.data.size ∧ mul.b.place p j < mul.b.data.size := by
  rcases mem_tile htile hp with ⟨hplo, hphi⟩
  rcases mem_tile htile hj with ⟨hjlo, hjhi⟩
  rcases (ends_of_bind h).2 with ⟨_, h⟩
  have hrows := ends_of_forRange h (Nat.zero_le _)
    (by rw [Nat.zero_add]; exact div_lt_strideCount htile hp)
  have hcols := ends_of_forRange hrows (Nat.zero_le _)
    (by rw [Nat.zero_add]; exact div_lt_strideCount htile hj)
  have hround := ends_of_forRange hcols hplo (by omega)
  rcases ends_of_lift_bind hround with ⟨x, hentry, hround⟩
  rcases ends_of_lift_bind hround with ⟨line, hline, _⟩
  have hfit := le_of_slice hline
  refine ⟨Operand.place_lt_of_entry hentry, ?_⟩
  rw [Operand.place, hplain, if_neg Bool.false_ne_true]
  omega

omit [One α] [BEq α] in
/-- A sum of products reads a row of `op(A)`. -/
theorem place_lt_of_rowSum {row : Array α} {sum : α} (h : mul.rowSum i row = .ok sum) {p : Nat}
    (hp : p < mul.k) : mul.a.place i p < mul.a.data.size := by
  rw [rowSum] at h
  cases hcase : mul.a.transposed with
  | false =>
      rw [hcase, if_neg Bool.false_ne_true] at h
      rcases bind_eq_ok h with ⟨xs, hxs, _⟩
      have hfit := le_of_slice hxs
      rw [Operand.place, hcase, if_neg Bool.false_ne_true]
      omega
  | true =>
      rw [hcase, if_pos rfl] at h
      rcases of_foldRange h (Nat.zero_le p) (by omega) with ⟨_, _, hstep⟩
      rcases bind_eq_ok hstep with ⟨x, hentry, _⟩
      exact Operand.place_lt_of_entry hentry

omit [One α] in
theorem places_lt_of_dotRows (hcols : mul.b.transposed = true)
    (h : Ends (mul.dotRows i : BufferM α len Unit)) {p j : Nat} (hp : p < mul.k)
    (hj : j < mul.n) : mul.a.place i p < mul.a.data.size ∧ mul.b.place p j < mul.b.data.size := by
  have hround := ends_of_forRange h (Nat.zero_le j) (by omega)
  rcases ends_of_lift_bind hround with ⟨row, hrow, hround⟩
  rcases ends_of_lift_bind hround with ⟨sum, hsum, _⟩
  have hfit := le_of_slice hrow
  refine ⟨place_lt_of_rowSum hsum hp, ?_⟩
  rw [Operand.place, hcols, if_pos rfl]
  omega

/-- A row that ends has read its entries of `op(A)` and all entries of `op(B)`. -/
theorem places_lt_of_row (htile : 0 < tile) (h : Ends (mul.row tile i : BufferM α len Unit))
    {p j : Nat} (hp : p < mul.k) (hj : j < mul.n) :
    mul.a.place i p < mul.a.data.size ∧ mul.b.place p j < mul.b.data.size := by
  rw [row] at h
  cases hcase : mul.b.transposed with
  | false =>
      rw [hcase, if_neg Bool.false_ne_true] at h
      exact places_lt_of_addRows hcase htile h hp hj
  | true =>
      rw [hcase, if_pos rfl] at h
      exact places_lt_of_dotRows hcase h hp hj

theorem stopsAtIndex_addRows : StopsAtIndex (mul.addRows tile i : BufferM α len Unit) := by
  apply (stopsAtIndex_scale mul.beta).bind
  intro _
  apply stopsAtIndex_forRange
  intro s
  apply stopsAtIndex_forRange
  intro t
  apply stopsAtIndex_forRange
  intro p
  apply StopsAtIndex.lift_bind fun _ => fetch_eq_error
  intro x
  apply StopsAtIndex.lift_bind fun _ => slice_eq_error
  intro line
  exact stopsAtIndex_onSlice (stopsAtIndex_addScaled _ line)

omit [One α] [BEq α] in
theorem rowSum_eq_error {row : Array α} {fault : Fault} (h : mul.rowSum i row = .error fault) :
    fault = .outOfRange := by
  rw [rowSum] at h
  split at h
  · apply foldRange_eq_error _ h
    intro acc p hstep
    rcases bind_eq_error hstep with hentry | ⟨x, _, hstep⟩
    · exact fetch_eq_error hentry
    · rcases bind_eq_error hstep with hfetch | ⟨y, _, hstep⟩
      · exact fetch_eq_error hfetch
      · cases hstep
  · rcases bind_eq_error h with hslice | ⟨xs, _, h⟩
    · exact slice_eq_error hslice
    · cases h

omit [One α] in
theorem stopsAtIndex_dotRows : StopsAtIndex (mul.dotRows i : BufferM α len Unit) := by
  apply stopsAtIndex_forRange
  intro j
  apply StopsAtIndex.lift_bind fun _ => slice_eq_error
  intro row
  apply StopsAtIndex.lift_bind fun _ => rowSum_eq_error
  intro sum
  split
  · exact stopsAtIndex_write _ _
  · exact (stopsAtIndex_read j).bind fun _ => stopsAtIndex_write _ _

theorem stopsAtIndex_row : StopsAtIndex (mul.row tile i : BufferM α len Unit) := by
  rw [row]
  split
  · exact stopsAtIndex_dotRows
  · exact stopsAtIndex_addRows

end

/-!
## Calls
-/

/-- What a caller can pass: extents below the length of any buffer, strides that are words, and
buffers that can be held in memory. -/
structure Passable (mul : DenseMultiply α) (len : Nat) : Prop where
  m_lt : mul.m < Size.bufferLimit
  n_lt : mul.n < Size.bufferLimit
  k_lt : mul.k < Size.bufferLimit
  left_stride_lt : mul.a.stride < Size.limit
  right_stride_lt : mul.b.stride < Size.limit
  ldc_lt : mul.ldc < Size.limit
  len_lt : len < Size.bufferLimit
  left_size_lt : mul.a.data.size < Size.bufferLimit
  right_size_lt : mul.b.data.size < Size.bufferLimit

/-- What the multiply asserts: the rows of `C` do not overlap and are complete, and the last stored
row of each operand begins inside of its buffer. -/
structure Asserted (mul : DenseMultiply α) (len : Nat) : Prop where
  gap : mul.n ≤ mul.ldc
  target : (mul.m - 1) * mul.ldc + mul.n ≤ len
  left : 0 < mul.k → (mul.a.storedRows mul.m mul.k - 1) * mul.a.stride + 1 ≤ mul.a.data.size
  right : 0 < mul.k → (mul.b.storedRows mul.k mul.n - 1) * mul.b.stride + 1 ≤ mul.b.data.size

end DenseMultiply

theorem Operand.checkLength_ok_iff {x : Operand α} {name : MatrixName} {rows cols : Nat}
    (hsize : x.data.size < Size.limit) : x.checkLength name rows cols = .ok () ↔
      (x.storedRows rows cols - 1) * x.stride + 1 ≤ x.data.size := by
  rw [checkLength]
  constructor
  · intro h
    rcases bind_eq_ok h with ⟨least, hleast, h⟩
    rw [← (Size.of_checked hleast).2]
    exact of_check h
  · intro h
    rw [Size.checked_bind (Nat.lt_of_le_of_lt h hsize)]
    exact check_of _ h

namespace DenseMultiply

open BufferM

section

variable {mul : DenseMultiply α} {len : Nat} (h : mul.Passable len)
include h

theorem Passable.check_ok_iff : mul.check len = .ok () ↔ mul.Asserted len := by
  have hlen := Nat.lt_trans h.len_lt Size.bufferLimit_lt_limit
  have hleft := Nat.lt_trans h.left_size_lt Size.bufferLimit_lt_limit
  have hright := Nat.lt_trans h.right_size_lt Size.bufferLimit_lt_limit
  rw [check]
  constructor
  · intro hcheck
    rcases bind_eq_ok hcheck with ⟨_, hgap, hcheck⟩
    rcases bind_eq_ok hcheck with ⟨least, hleast, hcheck⟩
    rcases bind_eq_ok hcheck with ⟨_, htarget, hcheck⟩
    have hoperands : 0 < mul.k → mul.a.checkLength .a mul.m mul.k = .ok () ∧
        mul.b.checkLength .b mul.k mul.n = .ok () := by
      intro hk
      rw [if_pos (Nat.ne_of_gt hk)] at hcheck
      rcases bind_eq_ok hcheck with ⟨_, ha, hb⟩
      exact ⟨ha, hb⟩
    exact
      { gap := of_check hgap
        target := (Size.of_checked hleast).2 ▸ of_check htarget
        left := fun hk => (Operand.checkLength_ok_iff hleft).mp (hoperands hk).1
        right := fun hk => (Operand.checkLength_ok_iff hright).mp (hoperands hk).2 }
  · intro hasserted
    rw [check_bind hasserted.gap, Size.checked_bind (Nat.lt_of_le_of_lt hasserted.target hlen),
      check_bind hasserted.target]
    rcases Nat.eq_zero_or_pos mul.k with hk | hk
    · rw [if_neg (not_not.mpr hk)]
      rfl
    · rw [if_pos (Nat.ne_of_gt hk), (Operand.checkLength_ok_iff hleft).mpr (hasserted.left hk),
        ok_bind]
      exact (Operand.checkLength_ok_iff hright).mpr (hasserted.right hk)

/-- A row more than what is asserted does not leave the word. -/
theorem Passable.bounded (hm : 0 < mul.m) (hasserted : mul.Asserted len) : mul.Bounded := by
  have hlimit : 2 * Size.bufferLimit < Size.limit := by decide
  have hextent : ∀ {x : Operand α} {rows cols : Nat}, rows < Size.bufferLimit →
      cols < Size.bufferLimit → x.data.size < Size.bufferLimit →
      (x.storedRows rows cols - 1) * x.stride + 1 ≤ x.data.size →
        x.extent rows cols < Size.limit := by
    intro x rows cols hrows hcols hsize hlast
    have hwidth : x.storedCols rows cols < Size.bufferLimit := by
      rw [Operand.storedCols]
      split
      · exact hrows
      · exact hcols
    rw [Operand.extent]
    omega
  exact
    { m_lt := Nat.lt_trans h.m_lt Size.bufferLimit_lt_limit
      n_lt := Nat.lt_trans h.n_lt Size.bufferLimit_lt_limit
      k_lt := Nat.lt_trans h.k_lt Size.bufferLimit_lt_limit
      gap := hasserted.gap
      ldc_lt := h.ldc_lt
      span_lt := span_lt hm hasserted.target h.len_lt h.ldc_lt
      left_stride_lt := h.left_stride_lt
      right_stride_lt := h.right_stride_lt
      left_lt := fun hk => hextent h.m_lt h.k_lt h.left_size_lt (hasserted.left hk)
      right_lt := fun hk => hextent h.k_lt h.n_lt h.right_size_lt (hasserted.right hk)
      tiles_lt := fun _ => ⟨h.k_lt, h.n_lt⟩ }

theorem Passable.fits (hasserted : mul.Asserted len) (hreaches : mul.Reaches len) :
    mul.Fits len where
  m_lt := h.m_lt
  n_lt := h.n_lt
  k_lt := h.k_lt
  left_stride_lt := h.left_stride_lt
  right_stride_lt := h.right_stride_lt
  ldc_lt := h.ldc_lt
  gap := hasserted.gap
  len_lt := h.len_lt
  left_size_lt := h.left_size_lt
  right_size_lt := h.right_size_lt
  reaches _ _ := hreaches

variable [Zero α] [One α] [Add α] [Mul α] [BEq α] {schedule : Schedule} {tile : Nat}

/-- What a call does once its assertions hold. -/
theorem Passable.run_eq (hm : 0 < mul.m) (hn : 0 < mul.n) (hasserted : mul.Asserted len) :
    (run schedule tile mul : BufferM α len Unit) =
      onSlice 0 ((mul.m - 1) * mul.ldc + mul.n) (
        if mul.k = 0 then
          forRange 0 mul.m fun i => onSlice (i * mul.ldc) mul.n (scale mul.beta)
        else if mul.ldc = mul.n then
          onChunks schedule mul.ldc fun i _ => onSlice 0 mul.n (mul.row (max tile 1) i)
        else
          forRange 0 mul.m fun i => onSlice (i * mul.ldc) mul.n (mul.row (max tile 1) i)) := by
  have hpos : ¬ (mul.m = 0 ∨ mul.n = 0) := by
    rintro (hzero | hzero)
    · exact Nat.ne_of_gt hm hzero
    · exact Nat.ne_of_gt hn hzero
  have hspan := span_lt hm hasserted.target h.len_lt h.ldc_lt
  unfold run
  rw [if_neg hpos, lift_bind (h.check_ok_iff.mpr hasserted), lift_bind (Size.checked_of_lt hspan),
    span_sub_gap hm hasserted.gap]

/-- A call that ends has read the last row of `op(A)` and the last column of `op(B)`. -/
theorem Passable.reaches_of_ends (hm : 0 < mul.m) (hn : 0 < mul.n) (hasserted : mul.Asserted len)
    (hends : Ends (run schedule tile mul : BufferM α len Unit)) : mul.Reaches len := by
  have hlast : 0 < mul.k →
      mul.a.place (mul.m - 1) (mul.k - 1) < mul.a.data.size ∧
        mul.b.place (mul.k - 1) (mul.n - 1) < mul.b.data.size := by
    intro hk
    rw [h.run_eq hm hn hasserted] at hends
    have hrows := ends_of_onSlice hends
    rw [if_neg (Nat.ne_of_gt hk)] at hrows
    have hrow : Ends (mul.row (max tile 1) (mul.m - 1) : BufferM α mul.n Unit) := by
      by_cases hclose : mul.ldc = mul.n
      · have hchunks : (mul.m - 1) * mul.ldc + mul.n = mul.m * mul.ldc := by
          rw [← span_sub_gap hm hasserted.gap, hclose, Nat.sub_self, Nat.sub_zero]
        rw [if_pos hclose] at hrows
        rcases ends_of_onChunks (hclose ▸ hn) hchunks hrows (Nat.sub_one_lt_of_lt hm) with
          ⟨_, hrow⟩
        exact ends_of_onSlice hrow
      · rw [if_neg hclose] at hrows
        exact ends_of_onSlice (ends_of_forRange hrows (Nat.zero_le _) (by omega))
    exact places_lt_of_row (Nat.le_max_right tile 1) hrow (Nat.sub_one_lt_of_lt hk)
      (Nat.sub_one_lt_of_lt hn)
  exact
    { target := hasserted.target
      left := fun hk => Operand.extent_le_of_place_lt hm hk (hlast hk).1
      right := fun hk => Operand.extent_le_of_place_lt hk hn (hlast hk).2 }

theorem Passable.stopsAtIndex_run (hm : 0 < mul.m) (hn : 0 < mul.n)
    (hasserted : mul.Asserted len) :
    StopsAtIndex (run schedule tile mul : BufferM α len Unit) := by
  rw [h.run_eq hm hn hasserted]
  apply stopsAtIndex_onSlice
  split
  · exact stopsAtIndex_forRange fun _ => stopsAtIndex_onSlice (stopsAtIndex_scale mul.beta)
  · split
    · exact stopsAtIndex_onChunks schedule _ fun _ _ => stopsAtIndex_onSlice stopsAtIndex_row
    · exact stopsAtIndex_forRange fun _ => stopsAtIndex_onSlice stopsAtIndex_row

omit h in
/-- A check that fails stops the call before anything is written. -/
theorem run_of_check (hm : 0 < mul.m) (hn : 0 < mul.n) {fault : Fault}
    (hcheck : mul.check len = .error fault) (v : Vector α len) :
    run schedule tile mul v = .error fault v := by
  have hpos : ¬ (mul.m = 0 ∨ mul.n = 0) := by
    rintro (hzero | hzero)
    · exact Nat.ne_of_gt hm hzero
    · exact Nat.ne_of_gt hn hzero
  rw [run, if_neg hpos, hcheck]
  rfl

/-- The size operations of a call do not show, whether it ends or not. -/
theorem Passable.runDense_eq (htile : tile < Size.limit) :
    (Word.runDense schedule tile mul : BufferM α len Unit) = run schedule tile mul := by
  by_cases hempty : mul.m = 0 ∨ mul.n = 0
  · rw [Word.runDense, run, if_pos hempty, if_pos hempty]
  · have hm : 0 < mul.m := Nat.pos_of_ne_zero fun hm => hempty (Or.inl hm)
    have hn : 0 < mul.n := Nat.pos_of_ne_zero fun hn => hempty (Or.inr hn)
    by_cases hasserted : mul.Asserted len
    · exact Word.runDense_eq (h.bounded hm hasserted) schedule fun _ => htile
    · have hsame := Word.checkDense_eq_of_lt hm hn
        (Nat.lt_trans h.m_lt Size.bufferLimit_lt_limit)
        (Nat.lt_trans h.n_lt Size.bufferLimit_lt_limit)
        (Nat.lt_trans h.k_lt Size.bufferLimit_lt_limit) h.ldc_lt h.left_stride_lt
        h.right_stride_lt len
      rw [Word.runDense, run, if_neg hempty, if_neg hempty, hsame]
      cases hcheck : mul.check len with
      | ok u =>
          exact absurd (h.check_ok_iff.mp hcheck) hasserted
      | error fault =>
          rfl

/-!
## What becomes of a call
-/

/-- The outcome of a call on `v`, for every tile and every order of the rows. -/
structure Settles (mul : DenseMultiply α) (v : Vector α len) : Prop where
  empty : mul.m = 0 ∨ mul.n = 0 → ∀ schedule tile, run schedule tile mul v = .ok () v
  /-- A check that fails has left `C` alone. -/
  refuses : 0 < mul.m → 0 < mul.n → ∀ fault, mul.check len = .error fault →
    ∀ schedule tile, run schedule tile mul v = .error fault v
  asserts : mul.check len = .ok () ↔ mul.Asserted len
  ends : 0 < mul.m → 0 < mul.n → mul.Asserted len →
    ∀ schedule tile, (∃ w, run schedule tile mul v = .ok () w) ↔ mul.Reaches len
  stops : 0 < mul.m → 0 < mul.n → mul.Asserted len → ¬ mul.Reaches len →
    ∀ schedule tile, ∃ w, run schedule tile mul v = .error .outOfRange w
  /-- No size operation stops the call, and those of the checks stop it with the same fault. -/
  checked : ∀ schedule tile, tile < Size.limit →
    Word.runDense schedule tile mul v = run schedule tile mul v

omit h in
/-- The checks are enough for a call to end if the buffers hold the whole last row of each stored
operand, and only then. -/
theorem call_settles (h : mul.Passable len) (v : Vector α len) : mul.Settles v where
  empty hempty schedule tile := run_empty schedule tile hempty v
  refuses hm hn _ hcheck _ _ := run_of_check hm hn hcheck v
  asserts := h.check_ok_iff
  ends hm hn hasserted schedule tile := by
    constructor
    · rintro ⟨w, hrun⟩
      exact h.reaches_of_ends hm hn hasserted ⟨v, (), w, hrun⟩
    · intro hreaches
      exact ⟨_, (h.fits hasserted hreaches).run_ok schedule v⟩
  stops hm hn hasserted hshort schedule tile := by
    cases hrun : (run schedule tile mul : BufferM α len Unit) v with
    | ok u w =>
        exact absurd (h.reaches_of_ends hm hn hasserted ⟨v, u, w, hrun⟩) hshort
    | error fault w =>
        rw [h.stopsAtIndex_run hm hn hasserted v fault w hrun]
        exact ⟨w, rfl⟩
  checked schedule tile htile := by
    rw [h.runDense_eq htile]

end

/-- A left operand with rows `1 2` and `3 4` whose last entry is missing, times a column of ones. -/
def shortLeft : DenseMultiply Binary32 where
  m := 2
  n := 1
  k := 2
  alpha := 1
  a := ⟨#[1, ⟨0x40000000⟩, ⟨0x40400000⟩], 2, false⟩
  b := ⟨#[1, 1], 1, false⟩
  beta := 0
  ldc := 1

theorem shortLeft_asserted : shortLeft.Asserted 2 where
  gap := by decide
  target := by decide
  left := by decide
  right := by decide

theorem shortLeft_stops :
    ∃ w, Word.runDense .serial standardTile shortLeft #v[⟨0x40e00000⟩, ⟨0x40e00000⟩] =
      .error .outOfRange w := by
  have hpassable : shortLeft.Passable 2 :=
    { m_lt := by decide
      n_lt := by decide
      k_lt := by decide
      left_stride_lt := by decide
      right_stride_lt := by decide
      ldc_lt := by decide
      len_lt := by decide
      left_size_lt := by decide
      right_size_lt := by decide }
  have hsettles := call_settles hpassable #v[⟨0x40e00000⟩, ⟨0x40e00000⟩]
  have hshort : ¬ shortLeft.Reaches 2 :=
    fun hreaches => absurd (hreaches.left (by decide)) (by decide)
  rcases hsettles.stops (by decide) (by decide) shortLeft_asserted hshort .serial standardTile with
    ⟨w, hstop⟩
  exact ⟨w, (hsettles.checked .serial standardTile (by decide)).trans hstop⟩

/-- The call passes its checks, and stops with the first element of `C` replaced and the second one
half added up. -/
theorem shortLeft_half_written :
    shortLeft.check 2 = .ok () ∧
      run .serial standardTile shortLeft #v[⟨0x40e00000⟩, ⟨0x40e00000⟩] =
        .error .outOfRange #v[⟨0x40400000⟩, ⟨0x40400000⟩] := by
  constructor
  · rfl
  · rfl

end DenseMultiply
end ConvSweep
