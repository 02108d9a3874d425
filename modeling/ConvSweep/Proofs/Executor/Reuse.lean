import Mathlib
import ConvSweep.Proofs.Binary32
import ConvSweep.Proofs.Executor.Settled
import ConvSweep.Sweep.Record

/-!
# Reuse of buffers

An executor is used again and again: its phases are run, timed or not, and its
weights are pruned anew.  Whatever was done to it, after both phases it cannot be
told from an executor that was just built with the percentage accepted last.  The
invariant is that an executor stays built from its operands, and that its weights
are pruned at that percentage; every operation preserves it.
-/

namespace ConvSweep

open Loop

/-!
## Executors of the same operands
-/

section

variable {α : Type}

theorem PatchBuffer.Fits.filled_eq [Zero α] {buffer buffer' : PatchBuffer α} {order : PatchOrder}
    {p : Problem} (h : buffer.Fits order p) (h' : buffer'.Fits order p)
    (x : Nat → Nat → Nat → Nat → α) : buffer.filled x = buffer'.filled x := by
  have hshape : buffer.patches.shape = buffer'.patches.shape :=
    Shape.ext_dims (h.dims_eq.trans h'.dims_eq.symm)
  rcases buffer with ⟨order₁, p₁, patches⟩
  rcases buffer' with ⟨order₂, p₂, patches'⟩
  have horder : order₁ = order₂ := h.order_eq.trans h'.order_eq.symm
  have hproblem : p₁ = p₂ := h.problem_eq.trans h'.problem_eq.symm
  subst horder hproblem
  show PatchBuffer.mk _ _ (Tensor.ofCells patches.shape _) = ⟨_, _, .ofCells patches'.shape _⟩
  rw [show patches.shape = patches'.shape from hshape]

theorem Percentile.ext_value {level level' : Percentile} (h : level.value = level'.value) :
    level = level' := by
  cases level
  cases level'
  cases h
  rfl

variable [PruningOrder α]

/-- The plan belongs to the variant, whatever the percentage of the configuration. -/
theorem Plan.Fits.with_percentile {config : ExecutorConfig} {p : Problem} {w : Array α}
    {plan : Plan α} (h : plan.Fits config p w) (percentile : Binary32) :
    plan.Fits { config with percentile } p w := by
  cases plan with
  | direct =>
      exact h
  | dense buffer =>
      exact h
  | sparse buffer level csr =>
      exact h

/-- Filled plans of one variant differ in the percentage only. -/
theorem Plan.Fits.filled_eq [Zero α] {config : ExecutorConfig} {p : Problem} {w : Array α}
    {plan plan' : Plan α} (h : plan.Fits config p w) (h' : plan'.Fits config p w)
    (hpercentile : plan.percentile? = plan'.percentile?) (x : Nat → Nat → Nat → Nat → α) :
    plan.filled x = plan'.filled x := by
  cases plan with
  | direct =>
      cases plan' with
      | direct =>
          rfl
      | dense buffer' =>
          exact absurd (h.symm.trans h'.1) (by simp)
      | sparse buffer' level' csr' =>
          cases hpercentile
  | dense buffer =>
      cases plan' with
      | direct =>
          exact absurd (h'.symm.trans h.1) (by simp)
      | dense buffer' =>
          rw [Plan.filled, Plan.filled, h.2.filled_eq h'.2]
      | sparse buffer' level' csr' =>
          cases hpercentile
  | sparse buffer level csr =>
      cases plan' with
      | direct =>
          cases hpercentile
      | dense buffer' =>
          cases hpercentile
      | sparse buffer' level' csr' =>
          have hlevel : level = level' := Percentile.ext_value (Option.some.inj hpercentile)
          subst hlevel
          have hcsr := h.2.2.2
          rw [h'.2.2.2] at hcsr
          cases hcsr
          rw [Plan.filled, Plan.filled, h.2.2.1.filled_eq h'.2.2.1]

namespace Executor

variable [Zero α] [One α] [Add α] [Mul α] {config : ExecutorConfig} {denseTile : Nat}
  {input weight : Tensor α} {e e' : Executor α}

/-- Two executors of the same operands are settled alike if their weights are pruned alike. -/
theorem BuiltFrom.settled_eq {percentile : Binary32}
    (h : BuiltFrom config denseTile input weight e)
    (h' : BuiltFrom { config with percentile } denseTile input weight e')
    (hpercentile : e.plan.percentile? = e'.plan.percentile?) :
    e.settled input weight = { e'.settled input weight with config := config } := by
  -- neither the checks nor the preparation read the percentage of the configuration
  have hchecked : (Except.ok e.problem : Except Error Problem) = .ok e'.problem :=
    h.checked.symm.trans h'.checked
  have hproblem := Except.ok.inj hchecked
  have hprepared := h.prepared
  have hdims := h.output_dims
  have hfits := h.plan_fits
  rw [hproblem] at hprepared hdims hfits
  have hoperands := Except.ok.inj (hprepared.symm.trans h'.prepared)
  have hinput : e.input = e'.input := congrArg Prod.fst hoperands
  have hweight : e.weight = e'.weight := congrArg Prod.snd hoperands
  have hshape : e.output.shape = e'.output.shape := Shape.ext_dims (hdims.trans h'.output_dims.symm)
  rw [hweight] at hfits
  have hplan := (hfits.with_percentile percentile).filled_eq h'.plan_fits hpercentile
    (preparedView e'.problem input)
  have hlayout : e.config.layout = e'.config.layout := by
    rw [h.config_eq, h'.config_eq]
  have helements : e.elements input weight = e'.elements input weight := by
    funext b f oh ow
    rw [elements, elements, hlayout, hproblem]
    rw [← element_filled (preparedView e'.problem input), hplan, element_filled]
  rw [Executor.settled, Executor.settled, helements, hproblem, hplan, hlayout, hshape, hinput,
    hweight, h.config_eq, h.denseTile_eq, h'.denseTile_eq]

omit [One α] [Add α] [Mul α] in
/-- An executor of the same operands can be built with the percentage of the pruned weights. -/
theorem BuiltFrom.exists_renewed (h : BuiltFrom config denseTile input weight e)
    {percentile : Binary32} (hpercentile : e.plan.percentile? =
      if config.algorithm = .sparse then some percentile else none) :
    ∃ e', create { config with percentile } denseTile input weight = .ok e' ∧
      BuiltFrom { config with percentile } denseTile input weight e' ∧
      e.plan.percentile? = e'.plan.percentile? := by
  have hsame : ∀ x, e.plan.percentile? = some x → percentile = x := by
    intro x hx
    rw [hpercentile] at hx
    split at hx
    · exact Option.some.inj hx
    · cases hx
  have hplan : ∃ plan, createPlan { config with percentile } e.problem e.weight = .ok plan :=
    exists_createPlan h.accepts.admissible h.outputFits (h.plan_fits.with_percentile percentile)
      hsame
  rcases hplan with ⟨plan, hplan⟩
  have hcreate : ∃ e', create { config with percentile } denseTile input weight = .ok e' :=
    exists_create h.checked h.prepared h.output_lt hplan
  rcases hcreate with ⟨e', hcreate⟩
  rcases create_builtFrom hcreate with ⟨hbuilt, hpercentile'⟩
  exact ⟨e', hcreate, hbuilt, hpercentile.trans hpercentile'.symm⟩

end Executor
end

/-!
## Operations
-/

inductive Operation
  | expandPatches (schedule : Schedule)
  | multiply (schedule : Schedule)
  | compute
  | setSparsity (percentile : Binary32)

/-- How often an operation reads the clock. -/
def Operation.readings : Operation → Nat
  | compute => 3
  | _ => 0

/-- An executor and the percentage that it was given last, by its construction or later. -/
structure InUse where
  executor : Executor Binary32
  accepted : Binary32

section

variable {m : Type → Type} [Monad m] [MonadExceptOf Failure m] [MonadSweep m]

/-- Readings of the clock that nothing is done with. -/
def readClock : Nat → m Unit
  | 0 => return
  | n + 1 => do
      let _ ← MonadSweep.now
      readClock n

omit [MonadExceptOf Failure m] in
theorem readClock_add [LawfulMonad m] (n k : Nat) :
    (readClock (n + k) : m Unit) = readClock n >>= fun _ => readClock k := by
  induction n with
  | zero =>
      rw [Nat.zero_add, readClock, pure_bind]
  | succ n ih =>
      rw [Nat.succ_add, readClock, readClock, ih, bind_assoc]

namespace InUse

/-- One operation; a percentage that is refused with an error leaves everything as it was. -/
def perform (s : InUse) : Operation → m InUse
  | .expandPatches schedule => do
      let executor ← MonadExcept.ofExcept (s.executor.expandPatches schedule)
      return { s with executor }
  | .multiply schedule => do
      let executor ← MonadExcept.ofExcept (s.executor.multiply schedule)
      return { s with executor }
  | .compute => do
      let (executor, _) ← s.executor.compute
      return { s with executor }
  | .setSparsity percentile =>
      match s.executor.setSparsity percentile with
      | .ok executor => return ⟨executor, percentile⟩
      | .error (.error _) => return s
      | .error (.fault fault) => throw (.fault fault)

def performAll (s : InUse) (operations : List Operation) : m InUse :=
  operations.foldlM perform s

end InUse

/-!
## Steps and runs
-/

namespace Executor

variable {config : ExecutorConfig} {denseTile : Nat} {input weight : Tensor Binary32}

/-- The record of a timed run that reads the clock at these times. -/
def recordAt (e : Executor Binary32) (t₁ t₂ t₃ : Duration) : ConvRecord where
  layout := e.config.layout
  algorithm := e.config.algorithm
  implementation := e.config.algorithm.implementation
  sparse := e.sparseWeights.isSome
  sparsity := e.sparsity
  filters := e.problem.outChannels
  spatial := e.problem.height
  convert := t₂.sub t₁
  compute := t₃.sub t₂

/-- A timed run settles the executor between its readings of the clock. -/
theorem BuiltFrom.compute_eq [LawfulMonad m] {e : Executor Binary32}
    (h : BuiltFrom config denseTile input weight e) :
    (e.compute : m (Executor Binary32 × ConvRecord)) = do
      let t₁ ← MonadSweep.now
      let t₂ ← MonadSweep.now
      let t₃ ← MonadSweep.now
      return (e.settled input weight, (e.settled input weight).recordAt t₁ t₂ t₃) := by
  have hrun := h.runPhases_ok .serial .serial
  rw [runPhases, h.expandPatches_ok] at hrun
  have hmultiply :
      multiply .serial { e with plan := e.plan.filled (preparedView e.problem input) } =
        .ok (e.settled input weight) := hrun
  -- neither phase can fail, so only the readings of the clock remain
  rw [compute, h.expandPatches_ok]
  simp only [MonadExcept.ofExcept, pure_bind, hmultiply]
  rfl

end Executor

/-- The executor is built from its operands, and its weights are pruned as accepted last. -/
structure InUse.Consistent (config : ExecutorConfig) (denseTile : Nat)
    (input weight : Tensor Binary32) (s : InUse) : Prop where
  built : s.executor.BuiltFrom config denseTile input weight
  percentile_eq : s.executor.plan.percentile? =
    if config.algorithm = .sparse then some s.accepted else none

namespace InUse.Consistent

variable (m) [LawfulMonad m] {config : ExecutorConfig} {denseTile : Nat}
  {input weight : Tensor Binary32} {s : InUse}

/-- Every operation succeeds, unless the clock fails, and preserves the invariant. -/
theorem perform (h : s.Consistent config denseTile input weight) (operation : Operation) :
    ∃ s', s'.Consistent config denseTile input weight ∧
      (s.perform operation : m InUse) = do
        readClock operation.readings
        return s' := by
  have hbuilt := h.built
  have hpercentile := h.percentile_eq
  cases operation with
  | expandPatches schedule =>
      rcases hbuilt.expandPatches_step schedule with ⟨executor, hexpand, hbuilt', hsame⟩
      refine ⟨⟨executor, s.accepted⟩, ⟨hbuilt', hsame.trans hpercentile⟩, ?_⟩
      rw [InUse.perform, hexpand]
      simp only [MonadExcept.ofExcept, pure_bind, Operation.readings, readClock]
  | multiply schedule =>
      rcases hbuilt.multiply_step schedule with ⟨executor, hmultiply, hbuilt', hsame⟩
      refine ⟨⟨executor, s.accepted⟩, ⟨hbuilt', hsame.trans hpercentile⟩, ?_⟩
      rw [InUse.perform, hmultiply]
      simp only [MonadExcept.ofExcept, pure_bind, Operation.readings, readClock]
  | compute =>
      have hsame := Executor.percentile?_filled s.executor.plan
        (Executor.preparedView s.executor.problem input)
      refine ⟨⟨s.executor.settled input weight, s.accepted⟩,
        ⟨hbuilt.settled, hsame.trans hpercentile⟩, ?_⟩
      rw [InUse.perform, hbuilt.compute_eq]
      simp only [bind_assoc, pure_bind, Operation.readings, readClock]
  | setSparsity percentile =>
      rw [InUse.perform]
      cases hset : s.executor.setSparsity percentile with
      | ok executor =>
          rcases hbuilt.of_setSparsity hset with ⟨hbuilt', hpercentile'⟩
          refine ⟨⟨executor, percentile⟩, ⟨hbuilt', ?_⟩, ?_⟩
          · rw [hpercentile', if_pos (hbuilt'.plan_fits.algorithm_eq hpercentile')]
          · simp only [pure_bind, Operation.readings, readClock]
      | error failure =>
          rcases hbuilt.setSparsity_cases percentile with
            ⟨error, herror⟩ | ⟨_, _, _, _, _, _, _, _, hok⟩
          · rw [hset] at herror
            cases herror
            refine ⟨s, h, ?_⟩
            simp only [pure_bind, Operation.readings, readClock]
          · rw [hset] at hok
            cases hok

/-- Every sequence of operations succeeds, unless the clock fails, and preserves the invariant. -/
theorem performAll (h : s.Consistent config denseTile input weight)
    (operations : List Operation) :
    ∃ s', s'.Consistent config denseTile input weight ∧
      (s.performAll operations : m InUse) = do
        readClock (operations.map Operation.readings).sum
        return s' := by
  induction operations generalizing s with
  | nil =>
      refine ⟨s, h, ?_⟩
      rw [InUse.performAll, List.foldlM_nil]
      simp only [List.map_nil, List.sum_nil, readClock, pure_bind]
  | cons operation rest ih =>
      rcases h.perform m operation with ⟨s₁, h₁, hfirst⟩
      rcases ih h₁ with ⟨s₂, h₂, hrest⟩
      refine ⟨s₂, h₂, ?_⟩
      rw [InUse.performAll, List.foldlM_cons, hfirst]
      simp only [bind_assoc, pure_bind]
      rw [InUse.performAll] at hrest
      rw [hrest, List.map_cons, List.sum_cons, readClock_add, bind_assoc]

end InUse.Consistent

/-!
## Executors in use
-/

/-- What holds of an executor after any operations. -/
structure InUse.LikeNew (m : Type → Type) [Monad m] [MonadExceptOf Failure m] [MonadSweep m]
    (config : ExecutorConfig) (denseTile : Nat) (input weight : Tensor Binary32) (s : InUse) :
    Prop where
  /-- After both phases it equals a new executor with the percentage accepted last, in every field
  except for the percentage that it was configured with. -/
  renewed : ∃ fresh,
    Executor.create { config with percentile := s.accepted } denseTile input weight = .ok fresh ∧
      ∀ first second first' second' : Schedule, ∃ used fresh',
        s.executor.runPhases first second = .ok used ∧
          fresh.runPhases first' second' = .ok fresh' ∧ used = { fresh' with config := config }
  /-- The sparse variant stores the weights that are pruned at this percentage. -/
  pruned : config.algorithm = .sparse → ∃ csr, s.executor.sparseWeights = some csr ∧
    prune s.executor.weight.data s.executor.problem.outChannels s.executor.problem.patchSize
      s.accepted = .ok csr
  /-- The other variants store no pruned weights. -/
  unpruned : config.algorithm ≠ .sparse → s.executor.sparseWeights = none
  /-- The next record reports this percentage. -/
  recorded : ∃ (executor : Executor Binary32) (record : Duration → Duration → Duration → ConvRecord),
    (s.executor.compute : m (Executor Binary32 × ConvRecord)) = (do
      let t₁ ← MonadSweep.now
      let t₂ ← MonadSweep.now
      let t₃ ← MonadSweep.now
      return (executor, record t₁ t₂ t₃)) ∧
    (config.algorithm = .sparse →
      ∀ t₁ t₂ t₃, (record t₁ t₂ t₃).sparsity = s.accepted / ⟨0x42c80000⟩)
  /-- A percentage is accepted, or refused with an error that changes nothing. -/
  answered : ∀ percentile, (∃ executor, s.executor.setSparsity percentile = .ok executor) ∨
    ∃ error : Error, s.executor.setSparsity percentile = .error (.error error) ∧
      (s.perform (.setSparsity percentile) : m InUse) = pure s

namespace InUse.Consistent

variable [LawfulMonad m] {config : ExecutorConfig} {denseTile : Nat}
  {input weight : Tensor Binary32} {s : InUse}

theorem of_create {e : Executor Binary32}
    (h : Executor.create config denseTile input weight = .ok e) :
    Consistent config denseTile input weight ⟨e, config.percentile⟩ := by
  rcases Executor.create_builtFrom h with ⟨hbuilt, hpercentile⟩
  exact ⟨hbuilt, hpercentile⟩

theorem renewed (h : s.Consistent config denseTile input weight) : ∃ fresh,
    Executor.create { config with percentile := s.accepted } denseTile input weight = .ok fresh ∧
      ∀ first second first' second' : Schedule, ∃ used fresh',
        s.executor.runPhases first second = .ok used ∧
          fresh.runPhases first' second' = .ok fresh' ∧ used = { fresh' with config := config } := by
  rcases h.built.exists_renewed h.percentile_eq with ⟨fresh, hcreate, hfresh, hsame⟩
  refine ⟨fresh, hcreate, ?_⟩
  intro first second first' second'
  exact ⟨_, _, h.built.runPhases_ok first second, hfresh.runPhases_ok first' second',
    h.built.settled_eq hfresh hsame⟩

/-- The plan of the sparse variant, with the percentage accepted last. -/
theorem exists_sparse (h : s.Consistent config denseTile input weight)
    (halgorithm : config.algorithm = .sparse) :
    ∃ buffer level csr, s.executor.plan = .sparse buffer level csr ∧ level.value = s.accepted := by
  have hpercentile := h.percentile_eq
  rcases h.built.plan_fits.eq_sparse halgorithm with ⟨buffer, level, csr, hplan⟩
  rw [hplan, if_pos halgorithm] at hpercentile
  exact ⟨buffer, level, csr, hplan, Option.some.inj hpercentile⟩

theorem pruned (h : s.Consistent config denseTile input weight)
    (halgorithm : config.algorithm = .sparse) : ∃ csr, s.executor.sparseWeights = some csr ∧
      prune s.executor.weight.data s.executor.problem.outChannels s.executor.problem.patchSize
        s.accepted = .ok csr := by
  rcases h.exists_sparse halgorithm with ⟨buffer, level, csr, hplan, hlevel⟩
  have hfits := h.built.plan_fits
  rw [hplan] at hfits
  refine ⟨csr, ?_, ?_⟩
  · rw [Executor.sparseWeights, hplan]
  · rw [prune, ← hlevel, Percentile.ofNumber_value, error_ok_bind]
    exact hfits.2.2.2

theorem unpruned (h : s.Consistent config denseTile input weight)
    (halgorithm : config.algorithm ≠ .sparse) : s.executor.sparseWeights = none := by
  have hnone := h.built.plan_fits.percentile?_eq_none halgorithm
  rw [Executor.sparseWeights]
  cases hplan : s.executor.plan with
  | direct =>
      rfl
  | dense buffer =>
      rfl
  | sparse buffer level csr =>
      rw [hplan] at hnone
      cases hnone

theorem sparsity_settled (h : s.Consistent config denseTile input weight)
    (halgorithm : config.algorithm = .sparse) :
    (s.executor.settled input weight).sparsity = s.accepted / ⟨0x42c80000⟩ := by
  rcases h.exists_sparse halgorithm with ⟨buffer, level, csr, hplan, hlevel⟩
  rw [Executor.sparsity, Executor.settled, hplan]
  show level.fraction = _
  rw [Percentile.fraction, hlevel]

variable (m) in
theorem likeNew (h : s.Consistent config denseTile input weight) :
    s.LikeNew m config denseTile input weight where
  renewed := h.renewed
  pruned := h.pruned
  unpruned := h.unpruned
  recorded :=
    ⟨_, _, h.built.compute_eq, fun halgorithm _ _ _ => h.sparsity_settled halgorithm⟩
  answered percentile := by
    rcases h.built.setSparsity_cases percentile with
      ⟨error, herror⟩ | ⟨_, _, _, _, _, _, _, _, hok⟩
    · right
      refine ⟨error, herror, ?_⟩
      rw [InUse.perform, herror]
    · left
      exact ⟨_, hok⟩

end InUse.Consistent

/-- Buffer reuse is invisible: whatever operations were performed, in any order, the executor is
like new.  The operations themselves only depend on the clock for their records. -/
theorem likeNew_after_operations [LawfulMonad m] {config : ExecutorConfig} {denseTile : Nat}
    {input weight : Tensor Binary32} {e : Executor Binary32}
    (h : Executor.create config denseTile input weight = .ok e) (operations : List Operation) :
    ∃ s : InUse, (InUse.performAll ⟨e, config.percentile⟩ operations : m InUse) = (do
        readClock (operations.map Operation.readings).sum
        return s) ∧
      s.LikeNew m config denseTile input weight := by
  rcases (InUse.Consistent.of_create h).performAll m operations with ⟨s, hs, hrun⟩
  exact ⟨s, hrun, hs.likeNew m⟩

end

/-- Two channels of one pixel, with the values `1` and `2`. -/
def pairInput : Tensor Binary32 where
  shape := ⟨[1, 2, 1, 1], [2, 1, 1, 1], 2, by decide, by decide, by decide⟩
  data := #[1, ⟨0x40000000⟩]
  size_eq := rfl

/-- A filter of one tap per channel, with the weights `1` and `-1`. -/
def pairWeight : Tensor Binary32 where
  shape := ⟨[1, 2, 1, 1], [2, 1, 1, 1], 2, by decide, by decide, by decide⟩
  data := #[1, ⟨0xbf800000⟩]
  size_eq := rfl

/-- Pruned at one half, run, pruned at zero, refused a NaN, and half run again. -/
theorem likeNew_after_refusal :
    ∃ e s, Executor.create { ExecutorConfig.standard with
        algorithm := .sparse, percentile := ⟨0x42480000⟩ } 1 pairInput pairWeight = .ok e ∧
      (InUse.performAll ⟨e, ⟨0x42480000⟩⟩ [.compute, .setSparsity 0, .setSparsity ⟨0x7fc00000⟩,
        .expandPatches .serial] : SessionM InUse) = (do
          readClock 3
          return s) ∧
      s.LikeNew SessionM { ExecutorConfig.standard with
        algorithm := .sparse, percentile := ⟨0x42480000⟩ } 1 pairInput pairWeight := by
  have hok : (Executor.create { ExecutorConfig.standard with
      algorithm := .sparse, percentile := ⟨0x42480000⟩ } 1 pairInput pairWeight).isOk = true := by
    decide +kernel
  rcases exists_of_isOk hok with ⟨e, hcreate⟩
  rcases likeNew_after_operations (m := SessionM) hcreate [.compute, .setSparsity 0,
    .setSparsity ⟨0x7fc00000⟩, .expandPatches .serial] with ⟨s, hrun, hnew⟩
  exact ⟨e, s, hcreate, hrun, hnew⟩

end ConvSweep
