import Mathlib
import ConvSweep.Proofs.Executor.Agreement
import ConvSweep.Proofs.Executor.Reuse
import ConvSweep.Proofs.Word.Executor

/-!
# Calls never stop

A caller uses an executor through its two phases, its result, its timed runs and
new percentages, in any order.  No call stops in a fault, although every size
operation, every index and every contract of a multiply is checked.  All calls
succeed, apart from percentages: an executor without pruned weights refuses them
all, the sparse one those that are not from `0` to `100`.
-/

namespace ConvSweep

/-!
## Percentages
-/

namespace Percentile

def InRange (x : Binary32) : Prop :=
  Binary32.le 0 x = true ∧ x.le ⟨0x42c80000⟩ = true

instance (x : Binary32) : Decidable (InRange x) := by
  unfold InRange
  infer_instance

theorem ofNumber_of_inRange {x : Binary32} (h : InRange x) : ofNumber x = .ok ⟨x, h.1, h.2⟩ := by
  rw [ofNumber, dif_pos h.1, dif_pos h.2]

theorem ofNumber_of_not_inRange {x : Binary32} (h : ¬ InRange x) :
    ofNumber x = .error (.invalidPercentile x) := by
  rw [ofNumber]
  by_cases hzero : Binary32.le 0 x = true
  · rw [dif_pos hzero, dif_neg fun hhundred => h ⟨hzero, hhundred⟩]
  · rw [dif_neg hzero]

end Percentile

namespace Executor.BuiltFrom

variable {α : Type} [Zero α] [PruningOrder α] {config : ExecutorConfig} {denseTile : Nat}
  {input weight : Tensor α} {e : Executor α}

theorem setSparsity_unsupported (h : BuiltFrom config denseTile input weight e)
    (halgorithm : config.algorithm ≠ .sparse) (percentile : Binary32) :
    e.setSparsity percentile =
      .error (.error (.unsupported (.noSparseWeights config.algorithm))) := by
  have hfits := h.plan_fits
  rw [setSparsity, h.config_eq]
  cases hplan : e.plan with
  | direct =>
      rfl
  | dense buffer =>
      rfl
  | sparse buffer level csr =>
      rw [hplan] at hfits
      exact absurd hfits.1 halgorithm

theorem setSparsity_invalid (h : BuiltFrom config denseTile input weight e)
    (halgorithm : config.algorithm = .sparse) {percentile : Binary32}
    (hrange : ¬ Percentile.InRange percentile) :
    e.setSparsity percentile = .error (.error (.invalidPercentile percentile)) := by
  rcases h.plan_fits.eq_sparse halgorithm with ⟨buffer, level, csr, hplan⟩
  rw [setSparsity, hplan]
  dsimp only
  rw [pruneWeight, Percentile.ofNumber_of_not_inRange hrange]
  rfl

theorem setSparsity_accepted (h : BuiltFrom config denseTile input weight e)
    (halgorithm : config.algorithm = .sparse) {percentile : Binary32}
    (hrange : Percentile.InRange percentile) : ∃ e', e.setSparsity percentile = .ok e' := by
  rcases h.plan_fits.eq_sparse halgorithm with ⟨buffer, level, csr, hplan⟩
  have hfits := h.plan_fits
  have hw := h.holdsWeight
  rw [hplan] at hfits
  rw [hfits.2.1] at hw
  rcases Percentile.prune_again hw.rows hfits.2.2.2 ⟨percentile, hrange.1, hrange.2⟩ with
    ⟨csr', hprune⟩
  rw [setSparsity, hplan]
  dsimp only
  rw [pruneWeight, Percentile.ofNumber_of_inRange hrange, error_ok_bind, hprune]
  exact ⟨_, rfl⟩

/-- The result can be asked for at any time. -/
theorem exists_result (h : BuiltFrom config denseTile input weight e) :
    ∃ tensor, e.result = .ok tensor ∧ tensor.dims = outputDims .nchw e.problem := by
  have hdims := h.output_dims
  have hlt := h.output_lt
  rw [result, h.config_eq]
  cases hlayout : config.layout with
  | nchw =>
      rw [hlayout] at hdims
      exact ⟨e.output, rfl, hdims⟩
  | nhwc =>
      rw [hlayout] at hdims hlt
      have hprod : e.problem.batch * e.problem.outRows * e.problem.outCols *
          e.problem.outChannels < Size.bufferLimit := by
        simpa [outputDims, Nat.mul_assoc] using hlt
      rcases Tensor.toNchw_ok hdims (Tensor.holds_cell hdims) hprod with
        ⟨tensor, hresult, hturned, _⟩
      exact ⟨tensor, hresult, hturned⟩

end Executor.BuiltFrom

/-!
## Methods and calls
-/

/-- The operations of an executor. -/
structure Methods where
  expandPatches : Schedule → Executor Binary32 → Outcome (Executor Binary32)
  multiply : Schedule → Executor Binary32 → Outcome (Executor Binary32)
  result : Executor Binary32 → Outcome (Tensor Binary32)
  setSparsity : Executor Binary32 → Binary32 → Outcome (Executor Binary32)

inductive Call
  | expandPatches (schedule : Schedule)
  | multiply (schedule : Schedule)
  | compute (first second : Schedule)
  | result
  | setSparsity (percentile : Binary32)

inductive Answer
  | done
  | record (record : ConvRecord)
  | tensor (tensor : Tensor Binary32)
  | refused (error : Error)

/-- Pruned weights are refused to other variants, and a percentage has to be one. -/
def Answer.toPercentile (algorithm : Algorithm) (percentile : Binary32) : Answer :=
  if algorithm ≠ .sparse then
    .refused (.unsupported (.noSparseWeights algorithm))
  else if Percentile.InRange percentile then
    .done
  else
    .refused (.invalidPercentile percentile)

/-- The answers that a call of an executor with this algorithm may have. -/
def Call.Permits (algorithm : Algorithm) (call : Call) (answer : Answer) : Prop :=
  match call with
  | expandPatches _ => answer = .done
  | multiply _ => answer = .done
  | compute _ _ => ∃ record, answer = .record record
  | result => ∃ tensor, answer = .tensor tensor
  | setSparsity percentile => answer = .toPercentile algorithm percentile

namespace Methods

/-- The operations of the library. -/
def plain : Methods where
  expandPatches schedule e := e.expandPatches schedule
  multiply schedule e := e.multiply schedule
  result e := e.result
  setSparsity e percentile := e.setSparsity percentile

/-- The operations with every size operation checked. -/
def checked : Methods where
  expandPatches := Word.expandPatches
  multiply := Word.multiply
  result := Word.result
  setSparsity := Word.setSparsity

section

variable {m : Type → Type} [Monad m] [MonadExceptOf Failure m] [MonadSweep m]

def compute (methods : Methods) (first second : Schedule) (e : Executor Binary32) :
    m (Executor Binary32 × ConvRecord) := do
  let t₁ ← MonadSweep.now
  let e ← MonadExcept.ofExcept (methods.expandPatches first e)
  let t₂ ← MonadSweep.now
  let e ← MonadExcept.ofExcept (methods.multiply second e)
  let t₃ ← MonadSweep.now
  return (e, e.recordAt t₁ t₂ t₃)

/-- One call.  A refused percentage is an answer; any other failure stops the caller. -/
def perform (methods : Methods) (e : Executor Binary32) (call : Call) :
    m (Executor Binary32 × Answer) :=
  match call with
  | .expandPatches schedule => do
      let e ← MonadExcept.ofExcept (methods.expandPatches schedule e)
      return (e, .done)
  | .multiply schedule => do
      let e ← MonadExcept.ofExcept (methods.multiply schedule e)
      return (e, .done)
  | .compute first second => do
      let (e, record) ← methods.compute first second e
      return (e, .record record)
  | .result => do
      let tensor ← MonadExcept.ofExcept (methods.result e)
      return (e, .tensor tensor)
  | .setSparsity percentile =>
      match methods.setSparsity e percentile with
      | .ok e => return (e, .done)
      | .error (.error error) => return (e, .refused error)
      | .error (.fault fault) => throw (.fault fault)

def performAll (methods : Methods) (e : Executor Binary32) :
    List Call → m (Executor Binary32 × List Answer)
  | [] => return (e, [])
  | call :: rest => do
      let (e, answer) ← methods.perform e call
      let (e, answers) ← performAll methods e rest
      return (e, answer :: answers)

/-- A timed run as sweeps perform it. -/
theorem plain_compute (e : Executor Binary32) :
    (plain.compute .serial .serial e : m (Executor Binary32 × ConvRecord)) = e.compute := rfl

/-!
## Steps
-/

variable {config : ExecutorConfig} {denseTile : Nat} {input weight : Tensor Binary32}
  {e : Executor Binary32}

theorem checked_compute [LawfulMonad m] (h : e.BuiltFrom config denseTile input weight)
    (hsize : Executor.Sized config input weight) (first second : Schedule) :
    (checked.compute first second e : m (Executor Binary32 × ConvRecord)) =
      plain.compute first second e := by
  -- The second phase starts from the executor that the first one leaves.
  rcases h.expandPatches_step first with ⟨filled, hexpand, hfilled, _⟩
  have hfirst : checked.expandPatches first e = .ok filled :=
    (Word.expandPatches_eq h hsize first).trans hexpand
  have hfirst' : plain.expandPatches first e = .ok filled := hexpand
  have hsame : checked.multiply second filled = plain.multiply second filled :=
    Word.multiply_eq hfilled hsize second
  rw [compute, compute, hfirst, hfirst']
  simp only [MonadExcept.ofExcept, pure_bind, hsame]

theorem checked_perform [LawfulMonad m] (h : e.BuiltFrom config denseTile input weight)
    (hsize : Executor.Sized config input weight) (call : Call) :
    (checked.perform e call : m (Executor Binary32 × Answer)) = plain.perform e call := by
  cases call with
  | expandPatches schedule =>
      have hsame : checked.expandPatches schedule e = plain.expandPatches schedule e :=
        Word.expandPatches_eq h hsize schedule
      rw [perform, perform, hsame]
  | multiply schedule =>
      have hsame : checked.multiply schedule e = plain.multiply schedule e :=
        Word.multiply_eq h hsize schedule
      rw [perform, perform, hsame]
  | compute first second =>
      rw [perform, perform, checked_compute h hsize]
  | result =>
      have hsame : checked.result e = plain.result e := Word.result_eq h hsize
      rw [perform, perform, hsame]
  | setSparsity percentile =>
      have hsame : checked.setSparsity e percentile = plain.setSparsity e percentile :=
        Word.setSparsity_eq h hsize percentile
      rw [perform, perform, hsame]

end

/-!
## Callers with a clock
-/

/-- The clock can be read in every state. -/
def Ticks (σ : Type) [MonadSweep (EStateM Failure σ)] : Prop :=
  ∀ s : σ, ∃ t s', (MonadSweep.now : EStateM Failure σ Duration) s = .ok t s'

section

variable {σ : Type} [MonadSweep (EStateM Failure σ)] {config : ExecutorConfig}
  {denseTile : Nat} {input weight : Tensor Binary32} {e : Executor Binary32}

theorem compute_run (h : e.BuiltFrom config denseTile input weight) (hclock : Ticks σ)
    (first second : Schedule) (s : σ) : ∃ e' record s', e'.BuiltFrom config denseTile input weight ∧
      (plain.compute first second e : EStateM Failure σ (Executor Binary32 × ConvRecord)) s =
        .ok (e', record) s' := by
  rcases h.expandPatches_step first with ⟨filled, hexpand, hfilled, _⟩
  rcases hfilled.multiply_step second with ⟨e', hmultiply, hbuilt, _⟩
  have hfirst : plain.expandPatches first e = .ok filled := hexpand
  have hsecond : plain.multiply second filled = .ok e' := hmultiply
  rcases hclock s with ⟨t₁, s₁, h₁⟩
  rcases hclock s₁ with ⟨t₂, s₂, h₂⟩
  rcases hclock s₂ with ⟨t₃, s₃, h₃⟩
  refine ⟨e', e'.recordAt t₁ t₂ t₃, s₃, hbuilt, ?_⟩
  rw [compute, hfirst, bind_run h₁]
  simp only [MonadExcept.ofExcept, pure_bind, hsecond]
  rw [bind_run h₂, bind_run h₃]
  rfl

/-- A call ends with an answer that it may have, and the executor stays built. -/
theorem perform_run (h : e.BuiltFrom config denseTile input weight) (hclock : Ticks σ)
    (call : Call) (s : σ) : ∃ e' answer s', e'.BuiltFrom config denseTile input weight ∧
      call.Permits config.algorithm answer ∧
      (plain.perform e call : EStateM Failure σ (Executor Binary32 × Answer)) s =
        .ok (e', answer) s' := by
  cases call with
  | expandPatches schedule =>
      rcases h.expandPatches_step schedule with ⟨e', hexpand, hbuilt, _⟩
      have hstep : plain.expandPatches schedule e = .ok e' := hexpand
      refine ⟨e', .done, s, hbuilt, rfl, ?_⟩
      rw [perform, hstep]
      rfl
  | multiply schedule =>
      rcases h.multiply_step schedule with ⟨e', hmultiply, hbuilt, _⟩
      have hstep : plain.multiply schedule e = .ok e' := hmultiply
      refine ⟨e', .done, s, hbuilt, rfl, ?_⟩
      rw [perform, hstep]
      rfl
  | compute first second =>
      rcases compute_run h hclock first second s with ⟨e', record, s', hbuilt, hrun⟩
      refine ⟨e', .record record, s', hbuilt, ⟨record, rfl⟩, ?_⟩
      rw [perform, bind_run hrun]
      rfl
  | result =>
      rcases h.exists_result with ⟨tensor, hresult, _⟩
      have hstep : plain.result e = .ok tensor := hresult
      refine ⟨e, .tensor tensor, s, h, ⟨tensor, rfl⟩, ?_⟩
      rw [perform, hstep]
      rfl
  | setSparsity percentile =>
      by_cases halgorithm : config.algorithm ≠ .sparse
      · have hset : plain.setSparsity e percentile = _ :=
          h.setSparsity_unsupported halgorithm percentile
        refine ⟨e, .toPercentile config.algorithm percentile, s, h, rfl, ?_⟩
        rw [perform, hset, Answer.toPercentile, if_pos halgorithm]
        rfl
      · by_cases hrange : Percentile.InRange percentile
        · rcases h.setSparsity_accepted (not_not.mp halgorithm) hrange with ⟨e', haccepted⟩
          have hset : plain.setSparsity e percentile = .ok e' := haccepted
          refine ⟨e', .toPercentile config.algorithm percentile, s,
            (h.of_setSparsity haccepted).1, rfl, ?_⟩
          rw [perform, hset, Answer.toPercentile, if_neg halgorithm, if_pos hrange]
          rfl
        · have hset : plain.setSparsity e percentile = _ :=
            h.setSparsity_invalid (not_not.mp halgorithm) hrange
          refine ⟨e, .toPercentile config.algorithm percentile, s, h, rfl, ?_⟩
          rw [perform, hset, Answer.toPercentile, if_neg halgorithm, if_neg hrange]
          rfl

/-!
## Runs
-/

theorem performAll_run (h : e.BuiltFrom config denseTile input weight)
    (hsize : Executor.Sized config input weight) (hclock : Ticks σ) (calls : List Call) (s : σ) :
    ∃ e' answers s', List.Forall₂ (Call.Permits config.algorithm) calls answers ∧
      (plain.performAll e calls : EStateM Failure σ (Executor Binary32 × List Answer)) s =
        .ok (e', answers) s' ∧
      (checked.performAll e calls : EStateM Failure σ (Executor Binary32 × List Answer)) s =
        .ok (e', answers) s' := by
  -- Being built from the operands is what a call hands on to the next.
  induction calls generalizing e s with
  | nil =>
      exact ⟨e, [], s, .nil, rfl, rfl⟩
  | cons call rest ih =>
      rcases perform_run h hclock call s with ⟨e₁, answer, s₁, h₁, hanswer, hstep⟩
      rcases ih h₁ s₁ with ⟨e₂, answers, s₂, hanswers, hplain, hchecked⟩
      refine ⟨e₂, answer :: answers, s₂, .cons hanswer hanswers, ?_, ?_⟩
      · rw [performAll, bind_run hstep]
        exact bind_run hplain
      · rw [performAll, checked_perform h hsize, bind_run hstep]
        exact bind_run hchecked

/-- No sequence of calls of an accepted executor stops in a fault, with all size operations
checked, and every answer is a success or the refusal of a percentage. -/
theorem calls_never_stop (hcreate : Executor.create config denseTile input weight = .ok e)
    (hsize : Executor.Sized config input weight) (hclock : Ticks σ) (calls : List Call) (s : σ) :
    ∃ e' answers s', List.Forall₂ (Call.Permits config.algorithm) calls answers ∧
      (plain.performAll e calls : EStateM Failure σ (Executor Binary32 × List Answer)) s =
        .ok (e', answers) s' ∧
      (checked.performAll e calls : EStateM Failure σ (Executor Binary32 × List Answer)) s =
        .ok (e', answers) s' :=
  performAll_run (Executor.create_builtFrom hcreate).1 hsize hclock calls s

end

end Methods

/-- A clock that counts its own readings. -/
instance : MonadSweep (EStateM Failure Nat) where
  now n := .ok ⟨n⟩ (n + 1)
  writeLine _ := pure ()
  readFile _ := throw (.error (.stream .notFound))

theorem ticks_counting : Methods.Ticks Nat := fun n => ⟨⟨n⟩, n + 1, rfl⟩

/-- A tile without rows and with as many columns as a word can say. -/
def ExecutorConfig.wide : ExecutorConfig :=
  { standard with padding := .inline, tile := ⟨0, Size.limit - 1⟩ }

theorem calls_never_stop_wide :
    ∃ e e' answers s',
      Executor.create .wide 1 Executor.irregularInput Executor.mixedWeight = .ok e ∧
      List.Forall₂ (Call.Permits .direct) [.compute .serial .serial, .setSparsity 0, .result]
        answers ∧
      (Methods.plain.performAll e [.compute .serial .serial, .setSparsity 0, .result] :
        EStateM Failure Nat (Executor Binary32 × List Answer)) 0 = .ok (e', answers) s' ∧
      (Methods.checked.performAll e [.compute .serial .serial, .setSparsity 0, .result] :
        EStateM Failure Nat (Executor Binary32 × List Answer)) 0 = .ok (e', answers) s' := by
  have hok :
      (Executor.create .wide 1 Executor.irregularInput Executor.mixedWeight).isOk = true := by
    decide +kernel
  have hsize : Executor.Sized .wide Executor.irregularInput Executor.mixedWeight := by
    constructor <;> decide
  rcases exists_of_isOk hok with ⟨e, hcreate⟩
  rcases Methods.calls_never_stop hcreate hsize ticks_counting
    [.compute .serial .serial, .setSparsity 0, .result] 0 with
    ⟨e', answers, s', hanswers, hplain, hchecked⟩
  exact ⟨e, e', answers, s', hcreate, hanswers, hplain, hchecked⟩

end ConvSweep
