import Mathlib
import ConvSweep.Proofs.Tensor.Conversions

/-!
# Histories of tensors

A tensor is built, read, written and converted, one step after the other.  A step
works on the current tensor in place, and a conversion puts its result in the
place of the tensor.  A step that fails leaves the tensor as it was, and a step
that does not write keeps the elements: they change their places, and the border
of a padded copy adds zeros to them.
-/

namespace ConvSweep

open Loop

variable {α : Type}

/-! ## Steps -/

/-- The ways to build a tensor. -/
inductive TensorOrigin (α : Type)
  | zeros (dims : List Nat)
  | filled (dims : List Nat) (x : α)
  | ofArray (dims : List Nat) (data : Array α)
  | ofPrefix (dims : List Nat) (source : Array α)

inductive TensorStep (α : Type)
  | read (coords : List Nat)
  | write (coords : List Nat) (x : α)
  | fill (x : α)
  | reshape (dims : List Nat)
  | toNhwc
  | toNchw
  | toNhwcPadded (pad : Nat)
  | padNchw (pad : Nat)

/-- Computations on a current tensor; a failure keeps what was written before it. -/
abbrev TensorM (α : Type) : Type → Type :=
  EStateM Failure (Tensor α)

namespace TensorM

/-- An action on the buffer of the current tensor. -/
def onBuffer (act : (n : Nat) → BufferM α n Unit) : TensorM α Unit := fun t =>
  match act t.shape.total t.toVector with
  | .ok _ v => .ok () (.ofVector t.shape v)
  | .error f v => .error (.fault f) (.ofVector t.shape v)

/-- Puts the converted tensor in the place of the current one. -/
def replace (convert : Tensor α → Outcome (Tensor α)) : TensorM α Unit := do
  let t ← get
  let u ← MonadExcept.ofExcept (convert t)
  set u

end TensorM

namespace TensorOrigin

def dims : TensorOrigin α → List Nat
  | zeros dims | filled dims _ | ofArray dims _ | ofPrefix dims _ => dims

/-- The elements of the built tensor. -/
def elements [Zero α] : TensorOrigin α → Array α
  | zeros dims => Array.replicate dims.prod 0
  | filled dims x => Array.replicate dims.prod x
  | ofArray _ data => data
  | ofPrefix dims source => source.extract 0 dims.prod

def make [Zero α] : TensorOrigin α → Outcome (Tensor α)
  | zeros dims => Tensor.zeros dims
  | filled dims x => Tensor.filled dims x
  | ofArray dims data => liftM (Tensor.ofArray dims data)
  | ofPrefix dims source => liftM (Tensor.ofPrefix dims source)

end TensorOrigin

namespace TensorStep

variable [Zero α]

/-- The step on the current tensor. -/
def perform : TensorStep α → TensorM α Unit
  | read coords => do
      let t ← get
      let _ ← MonadExcept.ofExcept (liftM (t.get coords) : Outcome α)
  | write coords x => do
      let t ← get
      let i ← MonadExcept.ofExcept (liftM (t.shape.flatIndex coords) : Outcome Nat)
      TensorM.onBuffer fun _ => BufferM.write i x
  | fill x => TensorM.onBuffer fun _ => BufferM.fill x
  | reshape dims => TensorM.replace fun t => liftM (t.reshape dims)
  | toNhwc => TensorM.replace fun t => t.toNhwc
  | toNchw => TensorM.replace fun t => t.toNchw
  | toNhwcPadded pad => TensorM.replace fun t => t.toNhwcPadded pad
  | padNchw pad => TensorM.replace fun t => t.padNchw pad

/-- The tensor that the step makes of `t`. -/
def apply (t : Tensor α) : TensorStep α → Outcome (Tensor α)
  | read coords => do
      let _ ← (liftM (t.get coords) : Outcome α)
      return t
  | write coords x => liftM (t.set coords x)
  | fill x => return t.fill x
  | reshape dims => liftM (t.reshape dims)
  | toNhwc => t.toNhwc
  | toNchw => t.toNchw
  | toNhwcPadded pad => t.toNhwcPadded pad
  | padNchw pad => t.padNchw pad

/-- The step does not write elements. -/
def Keeps : TensorStep α → Prop
  | write _ _ | fill _ => False
  | read _ | reshape _ | toNhwc | toNchw | toNhwcPadded _ | padNchw _ => True

end TensorStep

/-!
## Steps in place
-/

theorem TensorM.replace_run (convert : Tensor α → Outcome (Tensor α)) (t : Tensor α) :
    replace convert t =
      match convert t with
      | .ok u => .ok () u
      | .error failure => .error failure t := by
  rw [replace, get_run]
  cases convert t with
  | error failure =>
      rfl
  | ok u =>
      rfl

namespace TensorStep

variable [Zero α]

theorem read_run (coords : List Nat) (t : Tensor α) :
    (read coords).perform t =
      match t.get coords with
      | .ok _ => .ok () t
      | .error fault => .error (.fault fault) t := by
  rw [perform, get_run]
  cases t.get coords with
  | error fault =>
      rfl
  | ok x =>
      rfl

theorem write_run (coords : List Nat) (x : α) (t : Tensor α) :
    (write coords x).perform t =
      match t.set coords x with
      | .ok u => .ok () u
      | .error fault => .error (.fault fault) t := by
  rw [perform, get_run, Tensor.set]
  cases t.shape.flatIndex coords with
  | error fault =>
      rfl
  | ok i =>
      show TensorM.onBuffer (fun _ => BufferM.write i x) t = _
      rw [TensorM.onBuffer, ok_bind, Tensor.update, BufferM.run, BufferM.write]
      by_cases hi : i < t.shape.total
      · rw [dif_pos hi]
        rfl
      · rw [dif_neg hi]
        rfl

/-- A step ends in the tensor that it makes of the current one, or leaves the current one. -/
theorem perform_run (step : TensorStep α) (t : Tensor α) :
    step.perform t =
      match step.apply t with
      | .ok u => .ok () u
      | .error failure => .error failure t := by
  cases step with
  | read coords =>
      rw [read_run, apply]
      cases t.get coords with
      | error fault =>
          rfl
      | ok x =>
          rfl
  | write coords x =>
      rw [write_run, apply]
      cases t.set coords x with
      | error fault =>
          rfl
      | ok u =>
          rfl
  | fill x =>
      rfl
  | reshape dims =>
      exact TensorM.replace_run _ t
  | toNhwc =>
      exact TensorM.replace_run _ t
  | toNchw =>
      exact TensorM.replace_run _ t
  | toNhwcPadded pad =>
      exact TensorM.replace_run _ t
  | padNchw pad =>
      exact TensorM.replace_run _ t

end TensorStep

namespace Tensor

variable [Zero α]

/-- The current tensor after a step, also if the step fails. -/
def after (t : Tensor α) (step : TensorStep α) : Tensor α :=
  match step.perform t with
  | .ok _ u => u
  | .error _ u => u

/-- The current tensor after some steps; a step that fails is followed by the next one. -/
def afterAll (t : Tensor α) (steps : List (TensorStep α)) : Tensor α :=
  steps.foldl after t

theorem after_cases (t : Tensor α) (step : TensorStep α) :
    step.apply t = .ok (t.after step) ∨ t.after step = t := by
  rw [after, TensorStep.perform_run]
  cases step.apply t with
  | error failure =>
      exact .inr rfl
  | ok u =>
      exact .inl rfl

/-!
## Elements
-/

/-- The elements of `u` are those of `t` and zeros. -/
structure Gains (t u : Tensor α) : Prop where
  size_le : t.data.size ≤ u.data.size
  elements : Multiset.ofList u.data.toList =
    Multiset.ofList t.data.toList + Multiset.replicate (u.data.size - t.data.size) 0

theorem gains_of_perm {t u : Tensor α} {count : Nat}
    (h : u.data.toList.Perm (t.data.toList ++ List.replicate count 0)) : t.Gains u := by
  have hlength : u.data.size = t.data.size + count := by
    simpa using h.length_eq
  constructor
  · omega
  · rw [hlength, Nat.add_sub_cancel_left, ← Multiset.coe_replicate, Multiset.coe_add]
    exact Multiset.coe_eq_coe.mpr h

theorem gains_of_data {t u : Tensor α} (h : u.data = t.data) : t.Gains u := by
  have hperm : u.data.toList.Perm (t.data.toList ++ List.replicate 0 0) := by
    rw [h, List.replicate_zero, List.append_nil]
  exact gains_of_perm hperm

namespace Gains

variable {t u v : Tensor α}

theorem trans (htu : t.Gains u) (huv : u.Gains v) : t.Gains v := by
  have hle := htu.size_le
  have hle' := huv.size_le
  constructor
  · omega
  · have hsizes : v.data.size - t.data.size =
        (u.data.size - t.data.size) + (v.data.size - u.data.size) := by
      omega
    rw [huv.elements, htu.elements, hsizes, Multiset.replicate_add, add_assoc]

/-- Without zeros to add the elements of both tensors are the same. -/
theorem symm (h : t.Gains u) (hsize : u.data.size = t.data.size) : u.Gains t := by
  constructor
  · exact Nat.le_of_eq hsize
  · rw [h.elements, hsize, Nat.sub_self, Multiset.replicate_zero, add_zero, add_zero]

end Gains

/-- Every element gets a place of its own among the channels of its pixel. -/
theorem gains_toNhwcPadded {t u : Tensor α} {pad : Nat} (hu : t.toNhwcPadded pad = .ok u) :
    t.Gains u := by
  rcases error_step hu with ⟨⟨n, c, h, w⟩, hquad, _⟩
  have hdims : t.dims = [n, c, h, w] := Shape.of_quad hquad
  have hcells := holds_cell hdims
  rcases of_toNhwcPadded hdims hcells hu with ⟨hdims', hholds⟩
  apply gains_of_perm
  rw [hcells.eq_tabulate, hholds.eq_tabulate]
  apply tabulate_perm_append (spread c h w fun a b y z =>
    rowMajor (h + 2 * pad) (w + 2 * pad) c a (y + pad) (z + pad) b)
  · intro i hi
    rcases exists_rowMajor hi with ⟨a, ha, b, hb, y, hy, z, hz, rfl⟩
    rw [spread_rowMajor hb hy hz]
    exact rowMajor_lt ha (by omega) (by omega) hb
  · intro i hi j hj hEq
    rcases exists_rowMajor hi with ⟨a, ha, b, hb, y, hy, z, hz, rfl⟩
    rcases exists_rowMajor hj with ⟨a', ha', b', hb', y', hy', z', hz', rfl⟩
    rw [spread_rowMajor hb hy hz, spread_rowMajor hb' hy' hz'] at hEq
    rcases rowMajor_inj (by omega) (by omega) hb (by omega) (by omega) hb' hEq with
      ⟨rfl, hyEq, hzEq, rfl⟩
    rw [Nat.add_right_cancel hyEq, Nat.add_right_cancel hzEq]
  · intro i hi
    rcases exists_rowMajor hi with ⟨a, ha, b, hb, y, hy, z, hz, rfl⟩
    rw [spread_rowMajor hb hy hz, spread_rowMajor hb hy hz,
      spread_rowMajor (by omega) (by omega) hb, bordering_of_mem hy hz]
  · intro i hi hout
    rcases exists_rowMajor hi with ⟨a, ha, y, hy, z, hz, b, hb, rfl⟩
    rw [spread_rowMajor hy hz hb, bordering_eq_zero]
    rintro y' hy' z' hz' ⟨rfl, rfl⟩
    apply hout _ (rowMajor_lt ha hb hy' hz')
    rw [spread_rowMajor hb hy' hz']

/-- The way back has all elements of the tensor that it ends in, and no others. -/
theorem gains_toNchw {t u : Tensor α} (hu : t.toNchw = .ok u) : t.Gains u := by
  rcases error_step hu with ⟨⟨n, h, w, c⟩, hquad, hbuild⟩
  have hdims : t.dims = [n, h, w, c] := Shape.of_quad hquad
  have hprod : n * h * w * c < Size.bufferLimit := by
    have hlist : [n, c, h, w].prod = n * h * w * c := by
      simp only [List.prod_cons, List.prod_nil]
      ring
    rw [← hlist]
    exact prod_lt_of_build hbuild
  rcases toNchw_ok hdims (holds_cell hdims) hprod with ⟨u', hu', hdims', _⟩
  rw [hu] at hu'
  cases hu'
  have hsize : t.data.size = u.data.size := by
    rw [size_quad hdims, size_quad hdims']
    ring
  have hback := toNchw_toNhwc hdims (by rw [size_quad hdims]; exact hprod)
  rw [hu, ok_bind] at hback
  have hgains : u.Gains t := gains_toNhwcPadded hback
  exact hgains.symm hsize

/-- A border adds the same zeros in both axis orders. -/
theorem gains_padNchw {t u : Tensor α} {pad : Nat} (hu : t.padNchw pad = .ok u) :
    t.Gains u := by
  by_cases hpad : pad = 0
  · rw [hpad, padNchw_zero] at hu
    cases hu
    exact gains_of_data rfl
  · have hquad := hu
    rw [padNchw, if_neg hpad] at hquad
    rcases error_step hquad with ⟨⟨n, c, h, w⟩, hquad, _⟩
    have hdims : t.dims = [n, c, h, w] := Shape.of_quad hquad
    have hudims := (withBorder_of_padNchw hdims hu).dims
    rcases exists_toNhwcPadded hdims hpad (prod_lt_of_padNchw hpad hdims hu) with
      ⟨s, hs, hcomposed⟩
    rw [hu, ok_bind] at hcomposed
    have hsdims := (channelsLast_of_toNhwc hudims hcomposed).dims
    have hsize : s.data.size = u.data.size := by
      rw [size_quad hudims, size_quad hsdims]
      ring
    have hgains : u.Gains s := gains_toNhwcPadded hcomposed
    exact (gains_toNhwcPadded hs).trans (hgains.symm hsize)

theorem gains_apply {step : TensorStep α} (hkeeps : step.Keeps) {t u : Tensor α}
    (hu : step.apply t = .ok u) : t.Gains u := by
  cases step with
  | read coords =>
      rcases fault_step hu with ⟨_, _, hu⟩
      cases hu
      exact gains_of_data rfl
  | write coords x =>
      cases hkeeps
  | fill x =>
      cases hkeeps
  | reshape dims =>
      exact gains_of_data (data_ofArray (of_error_lift hu)).2
  | toNhwc =>
      exact gains_toNhwcPadded hu
  | toNchw =>
      exact gains_toNchw hu
  | toNhwcPadded pad =>
      exact gains_toNhwcPadded hu
  | padNchw pad =>
      exact gains_padNchw hu

theorem gains_after {step : TensorStep α} (hkeeps : step.Keeps) (t : Tensor α) :
    t.Gains (t.after step) := by
  rcases after_cases t step with happly | hsame
  · exact gains_apply hkeeps happly
  · rw [hsame]
    exact gains_of_data rfl

theorem gains_afterAll {steps : List (TensorStep α)} (hkeeps : ∀ step ∈ steps, step.Keeps)
    (t : Tensor α) : t.Gains (t.afterAll steps) := by
  induction steps generalizing t with
  | nil =>
      exact gains_of_data rfl
  | cons step rest ih =>
      have hfirst := gains_after (hkeeps step List.mem_cons_self) t
      have hrest := ih (fun step' hstep' => hkeeps step' (List.mem_cons_of_mem step hstep'))
        (t.after step)
      exact hfirst.trans hrest

/-!
## Histories
-/

theorem data_make {origin : TensorOrigin α} {t : Tensor α} (h : origin.make = .ok t) :
    t.dims = origin.dims ∧ t.data = origin.elements := by
  cases origin with
  | zeros dims =>
      rcases data_filled h with ⟨hdims, hdata, _⟩
      exact ⟨hdims, hdata⟩
  | filled dims x =>
      rcases data_filled h with ⟨hdims, hdata, _⟩
      exact ⟨hdims, hdata⟩
  | ofArray dims data =>
      exact data_ofArray (of_error_lift h)
  | ofPrefix dims source =>
      exact data_ofPrefix (of_error_lift h)

/-- What holds of a current tensor and of all that may happen to it next. -/
structure Steady (t : Tensor α) : Prop where
  size_eq_prod : t.data.size = t.dims.prod
  size_eq_total : t.data.size = t.shape.total
  succeeds : ∀ step u, TensorStep.apply t step = .ok u →
    step.perform t = .ok () u ∧ t.after step = u
  fails : ∀ step failure, TensorStep.apply t step = .error failure →
    step.perform t = .error failure t ∧ t.after step = t
  gains : ∀ stretch, (∀ step ∈ stretch, TensorStep.Keeps step) → t.Gains (t.afterAll stretch)

theorem steady (t : Tensor α) : t.Steady where
  size_eq_prod := by
    rw [t.size_eq, Shape.total_eq_prod, dims]
  size_eq_total := t.size_eq
  succeeds step u hu := by
    rw [after, TensorStep.perform_run, hu]
    exact ⟨rfl, rfl⟩
  fails step failure hfailure := by
    rw [after, TensorStep.perform_run, hfailure]
    exact ⟨rfl, rfl⟩
  gains stretch hkeeps := gains_afterAll hkeeps t

/-- After any steps the buffer has the size of its shape, a step that fails leaves the tensor, and
as long as nothing is written the elements stay and zeros are added to them. -/
theorem history_keeps_elements {origin : TensorOrigin α} {built : Tensor α}
    (h : origin.make = .ok built) :
    built.dims = origin.dims ∧ built.data = origin.elements ∧
      ∀ earlier, (built.afterAll earlier).Steady := by
  rcases data_make h with ⟨hdims, hdata⟩
  exact ⟨hdims, hdata, fun earlier => steady (built.afterAll earlier)⟩

/-- A history in which the reading, the second transposition and the last border fail. -/
def paddedHistory : List (TensorStep Binary32) :=
  [.padNchw 1, .read [0, 0, 3], .toNhwc, .reshape [3, 8], .toNchw, .padNchw 2]

theorem history_keeps_signed :
    ∃ built, (TensorOrigin.ofArray [1, 2, 1, 2] signedPlanes.data).make = .ok built ∧
      built.Gains (built.afterAll paddedHistory) ∧
      (built.afterAll paddedHistory).dims = [3, 8] := by
  have hmake : (TensorOrigin.ofArray [1, 2, 1, 2] signedPlanes.data).make = .ok signedPlanes := by
    decide +kernel
  have hsteady := (history_keeps_elements hmake).2.2 []
  refine ⟨signedPlanes, hmake, hsteady.gains paddedHistory ?_, ?_⟩
  · intro step hstep
    simp only [paddedHistory, List.mem_cons, List.not_mem_nil, or_false] at hstep
    rcases hstep with rfl | rfl | rfl | rfl | rfl | rfl <;> trivial
  · decide +kernel

end Tensor
end ConvSweep
