import Mathlib
import ConvSweep.Proofs.Sweep.Sequence

/-!
# Requests of a case

A case asks its session for the time and to write lines, and for nothing else.  If
these requests are granted, a case that can be built and whose percentages are good
runs to its end, and it does so in the same way with all size operations checked.
-/

namespace ConvSweep

variable {α β : Type}

/-!
## Cases with checked sizes
-/

namespace Word

section

variable {m : Type → Type} [Monad m] [MonadExceptOf Failure m] [MonadSweep m]

def runTimed (e : Executor Binary32) (report : CaseReport) :
    Nat → m (Executor Binary32 × CaseReport)
  | 0 => return (e, report)
  | count + 1 => do
      let (e, record) ← Methods.checked.compute .serial .serial e
      MonadSweep.writeLine record.text
      runTimed e { report with records := report.records.push record } count

def runCompared (base : ExecutorConfig) (repeats : Nat) (input weight reference : Tensor Binary32)
    (report : CaseReport) (variant : Layout × Algorithm) : m CaseReport := do
  let (layout, algorithm) := variant
  let config := { base with layout, algorithm }
  let e ← MonadExcept.ofExcept (create config DenseMultiply.standardTile input weight)
  let (e, report) ← runTimed e report repeats
  let result ← MonadExcept.ofExcept (result e)
  let squares ← MonadExcept.ofExcept ((reference.squareDiff result).mapError Failure.error)
  let maxRelative ← MonadExcept.ofExcept
    ((reference.maxRelativeError result).mapError Failure.error)
  let diff : DiffRecord := { layout, algorithm, squares, maxRelative }
  MonadSweep.writeLine diff.text
  return { report with diffs := report.diffs.push diff }

def runPercentiles (repeats : Nat) (e : Executor Binary32) (report : CaseReport) :
    List Binary32 → m CaseReport
  | [] => return report
  | percentile :: rest => do
      let e ← MonadExcept.ofExcept (setSparsity e percentile)
      let (e, report) ← runTimed e report repeats
      runPercentiles repeats e report rest

def runPruned (config : SweepConfig) (input weight : Tensor Binary32) (report : CaseReport) :
    m CaseReport :=
  match config.percentiles with
  | [] => return report
  | first :: _ => do
      let e ← MonadExcept.ofExcept
        (create (Sweep.sparse config first) DenseMultiply.standardTile input weight)
      runPercentiles (max config.repeats 1) e report config.percentiles

/-- One case with all size operations checked. -/
def runCase (config : SweepConfig) (shape : FilterShape) (weight : Tensor Binary32)
    (pool : Array Binary32) : m CaseReport := do
  let input ← MonadExcept.ofExcept
    ((Tensor.ofPrefix (config.inputDims shape) pool).mapError Failure.error)
  let base := Sweep.dense config (.nchw, .direct)
  let e ← MonadExcept.ofExcept (create base DenseMultiply.standardTile input weight)
  let (e, report) ← runTimed e .empty (max config.repeats 1)
  let reference ← MonadExcept.ofExcept (result e)
  let report ← Sweep.comparedVariants.foldlM
    (runCompared base (max config.repeats 1) input weight reference) report
  runPruned config input weight report

end

end Word

/-!
## Requests to a session
-/

section

variable {σ : Type} [MonadSweep (EStateM Failure σ)]

/-- The next readings of the clock and lines, so many together, are granted in any order. -/
def Serves : Nat → σ → Prop
  | 0, _ => True
  | count + 1, s =>
      (∃ t s', (MonadSweep.now : EStateM Failure σ Duration) s = .ok t s' ∧ Serves count s') ∧
        ∀ line, ∃ s', (MonadSweep.writeLine line : EStateM Failure σ Unit) s = .ok () s' ∧
          Serves count s'

/-- With so many requests granted both computations succeed in the same way, and they make no
others. -/
def Together (x y : EStateM Failure σ α) (count : Nat) (P : α → Prop) : Prop :=
  ∀ s rest, Serves (count + rest) s → ∃ a s', x s = .ok a s' ∧ y s = .ok a s' ∧ P a ∧
    Serves rest s'

theorem together_now :
    Together (MonadSweep.now : EStateM Failure σ Duration) MonadSweep.now 1 fun _ => True := by
  intro s rest hs
  rw [Nat.add_comm] at hs
  rcases hs.1 with ⟨t, s', hnow, hs'⟩
  exact ⟨t, s', hnow, hnow, trivial, hs'⟩

theorem together_writeLine (line : String) :
    Together (MonadSweep.writeLine line : EStateM Failure σ Unit) (MonadSweep.writeLine line) 1
      fun _ => True := by
  intro s rest hs
  rw [Nat.add_comm] at hs
  rcases hs.2 line with ⟨s', hwrite, hs'⟩
  exact ⟨(), s', hwrite, hwrite, trivial, hs'⟩

variable {P : α → Prop} {Q : β → Prop}

theorem together_pure {a : α} (ha : P a) :
    Together (pure a : EStateM Failure σ α) (pure a) 0 P := by
  intro s rest hs
  rw [Nat.zero_add] at hs
  exact ⟨a, s, rfl, rfl, ha, hs⟩

/-- A step that does not look at the session and cannot fail. -/
theorem together_bind_ok {x y : Outcome α} {a : α} {f g : α → EStateM Failure σ β} {n : Nat}
    (hx : x = .ok a) (hy : y = .ok a) (h : Together (f a) (g a) n Q) :
    Together (MonadExcept.ofExcept x >>= f) (MonadExcept.ofExcept y >>= g) n Q := by
  rw [hx, hy]
  exact h

theorem Together.bind {x y : EStateM Failure σ α} {f g : α → EStateM Failure σ β} {m n : Nat}
    (h : Together x y m P) (hrest : ∀ a, P a → Together (f a) (g a) n Q) :
    Together (x >>= f) (y >>= g) (m + n) Q := by
  intro s rest hs
  rw [Nat.add_assoc] at hs
  rcases h s (n + rest) hs with ⟨a, s₁, hx, hy, ha, hs₁⟩
  rcases hrest a ha s₁ rest hs₁ with ⟨b, s₂, hf, hg, hb, hs₂⟩
  exact ⟨b, s₂, (bind_run hx).trans hf, (bind_run hy).trans hg, hb, hs₂⟩

/-- Steps that keep a property can be made for all items in turn. -/
theorem together_foldlM {items : List β} {f g : α → β → EStateM Failure σ α} {n : Nat}
    (h : ∀ a item, item ∈ items → P a → Together (f a item) (g a item) n P) {a : α} (ha : P a) :
    Together (items.foldlM f a) (items.foldlM g a) (n * items.length) P := by
  induction items generalizing a with
  | nil =>
      exact together_pure ha
  | cons item rest ih =>
      rw [Sweep.mul_length_cons, List.foldlM_cons, List.foldlM_cons]
      exact (h a item List.mem_cons_self ha).bind fun a' ha' =>
        ih (fun b other hother => h b other (List.mem_cons_of_mem item hother)) ha'

end

/-- The clock of fixed steps grants as many requests as it has readings left. -/
theorem Session.Allows.serves {s : Session} {count : Nat} (h : s.Allows count) :
    Serves count s := by
  induction count generalizing s with
  | zero =>
      trivial
  | succ count ih =>
      have hfirst := now_first (h.mono (Nat.le_add_left 1 count))
      have hafter : (s.advance 1 []).Allows count := by
        rw [Nat.add_comm] at h
        exact h.advance
      have hsame : s.Allows (0 + count) := by
        rw [Nat.zero_add]
        exact h.mono (Nat.le_succ count)
      exact ⟨⟨_, s.advance 1 [], hfirst, ih hafter⟩, fun line =>
        ⟨s.advance 0 [line], writeLine_run, ih hsame.advance⟩⟩

/-!
## Parts of a case
-/

namespace Sweep

section

variable {σ : Type} [MonadSweep (EStateM Failure σ)] {cfg : ExecutorConfig} {denseTile : Nat}
  {config : SweepConfig} {input weight : Tensor Binary32} {e : Executor Binary32}
  {variant : Layout × Algorithm}

theorem together_compute (h : e.BuiltFrom cfg denseTile input weight)
    (hsize : Executor.Sized cfg input weight) :
    Together (e.compute : EStateM Failure σ (Executor Binary32 × ConvRecord))
      (Methods.checked.compute .serial .serial e) 3
      fun result => result.1.BuiltFrom cfg denseTile input weight := by
  have hreading := together_now (σ := σ)
  rw [Methods.checked_compute h hsize, Methods.plain_compute, h.compute_eq]
  show Together _ _ (1 + (1 + (1 + 0))) _
  exact hreading.bind fun _ _ => hreading.bind fun _ _ => hreading.bind fun _ _ =>
    together_pure h.settled

theorem together_runTimed (h : e.BuiltFrom cfg denseTile input weight)
    (hsize : Executor.Sized cfg input weight) (report : CaseReport) (count : Nat) :
    Together (runTimed e report count : EStateM Failure σ (Executor Binary32 × CaseReport))
      (Word.runTimed e report count) (4 * count)
      fun result => result.1.BuiltFrom cfg denseTile input weight := by
  induction count generalizing e report with
  | zero =>
      exact together_pure h
  | succ count ih =>
      have hsplit : 4 * (count + 1) = 3 + (1 + 4 * count) := by omega
      rw [hsplit, runTimed, Word.runTimed]
      exact (together_compute h hsize).bind fun _ hbuilt =>
        Together.bind (together_writeLine _) fun _ _ => ih hbuilt _

/-- A compared variant has a result of the extents of the reference. -/
theorem together_runCompared (repeats : Nat) {reference : Tensor Binary32}
    (h : Ready config input weight reference variant)
    (hsize : Executor.Sized (dense config variant) input weight) (report : CaseReport) :
    Together (runCompared (dense config (.nchw, .direct)) repeats input weight reference report
        variant : EStateM Failure σ CaseReport)
      (Word.runCompared (dense config (.nchw, .direct)) repeats input weight reference report
        variant) (4 * repeats + 1) fun _ => True := by
  rcases h with ⟨_, e, hcreate, hdims⟩
  have hbuilt := (Executor.create_builtFrom hcreate).1
  rw [runCompared, Word.runCompared]
  refine together_bind_ok hcreate ((Word.create_eq _ _ _ _).trans hcreate) ?_
  refine (together_runTimed hbuilt hsize report repeats).bind fun r hran => ?_
  rcases hran.exists_result with ⟨result, hresult, hresultDims⟩
  have hsame : reference.dims = result.dims := by
    rw [hdims, hresultDims, hbuilt.accepts.problem_eq hran.accepts rfl rfl]
  rcases exists_differences hsame with ⟨squares, maxRelative, hsquares, hmax⟩
  have hsquares' := congrArg (Except.mapError Failure.error) hsquares
  have hmax' := congrArg (Except.mapError Failure.error) hmax
  refine together_bind_ok hresult ((Word.result_eq hran hsize).trans hresult) ?_
  refine together_bind_ok hsquares' hsquares' (together_bind_ok hmax' hmax' ?_)
  exact Together.bind (together_writeLine _) fun _ _ => together_pure trivial

theorem together_runPercentiles (repeats : Nat) {percentiles : List Binary32}
    (hrange : ∀ x ∈ percentiles, Percentile.InRange x) (hsparse : cfg.algorithm = .sparse)
    (h : e.BuiltFrom cfg denseTile input weight) (hsize : Executor.Sized cfg input weight)
    (report : CaseReport) :
    Together (runPercentiles repeats e report percentiles : EStateM Failure σ CaseReport)
      (Word.runPercentiles repeats e report percentiles) (4 * repeats * percentiles.length)
      fun _ => True := by
  induction percentiles generalizing e report with
  | nil =>
      exact together_pure trivial
  | cons x rest ih =>
      rcases List.forall_mem_cons.mp hrange with ⟨hx, hothers⟩
      rcases h.setSparsity_accepted hsparse hx with ⟨e₁, hset⟩
      have hbuilt := (h.of_setSparsity hset).1
      rw [mul_length_cons, runPercentiles, Word.runPercentiles]
      refine together_bind_ok hset ((Word.setSparsity_eq h hsize x).trans hset) ?_
      exact (together_runTimed hbuilt hsize report repeats).bind fun r hran => ih hothers hran _

theorem together_runSparse (hdense : DenseBuilt config input weight)
    (hrange : ∀ x ∈ config.percentiles, Percentile.InRange x)
    (hsize : ∀ x, Executor.Sized (sparse config x) input weight) (report : CaseReport) :
    Together (runSparse config input weight report : EStateM Failure σ CaseReport)
      (Word.runPruned config input weight report)
      (4 * max config.repeats 1 * config.percentiles.length) fun _ => True := by
  rw [runSparse, Word.runPruned]
  cases hpercentiles : config.percentiles with
  | nil =>
      exact together_pure trivial
  | cons first rest =>
      rw [hpercentiles] at hrange
      rcases hdense.exists_sparse (hrange first List.mem_cons_self) with ⟨e, hcreate⟩
      have hbuilt := (Executor.create_builtFrom hcreate).1
      refine together_bind_ok hcreate ((Word.create_eq _ _ _ _).trans hcreate) ?_
      exact together_runPercentiles _ hrange rfl hbuilt (hsize first) report

/-- The readings and lines of a case: four for every timed run and one for every comparison. -/
def requests (config : SweepConfig) : Nat :=
  4 * max config.repeats 1 * (4 + config.percentiles.length) + 3

/-- The operands are held in memory, and the extents of the tile are words. -/
structure Sized (config : SweepConfig) (input weight : Tensor Binary32) : Prop where
  input_lt : input.data.size < Size.bufferLimit
  weight_lt : weight.data.size < Size.bufferLimit
  rows_lt : config.tile.rows < Size.limit
  cols_lt : config.tile.cols < Size.limit

theorem Sized.dense (h : Sized config input weight) (variant : Layout × Algorithm) :
    Executor.Sized (dense config variant) input weight :=
  ⟨h.input_lt, h.weight_lt, h.rows_lt, h.cols_lt⟩

theorem Sized.sparse (h : Sized config input weight) (x : Binary32) :
    Executor.Sized (sparse config x) input weight :=
  ⟨h.input_lt, h.weight_lt, show Tile.standard.rows < _ by decide,
    show Tile.standard.cols < _ by decide⟩

theorem together_runCase {shape : FilterShape} {pool : Array Binary32}
    (hinput : Tensor.ofPrefix (config.inputDims shape) pool = .ok input)
    (hdense : DenseBuilt config input weight) (hsize : Sized config input weight)
    (hrange : ∀ x ∈ config.percentiles, Percentile.InRange x) :
    Together (runCase config shape weight pool : EStateM Failure σ CaseReport)
      (Word.runCase config shape weight pool) (requests config) fun _ => True := by
  rcases hdense.created (.nchw, .direct) List.mem_cons_self with ⟨e, hcreate⟩
  have hbuilt := (Executor.create_builtFrom hcreate).1
  have hinput' := congrArg (Except.mapError Failure.error) hinput
  have hsplit : requests config = 4 * max config.repeats 1 +
      ((4 * max config.repeats 1 + 1) * comparedVariants.length +
        4 * max config.repeats 1 * config.percentiles.length) := by
    show _ = _ + (_ * 3 + _)
    rw [requests]
    ring
  rw [runCase_eq, Word.runCase, hsplit]
  refine together_bind_ok hinput' hinput' ?_
  refine together_bind_ok hcreate ((Word.create_eq _ _ _ _).trans hcreate) ?_
  refine (together_runTimed hbuilt (hsize.dense _) .empty _).bind fun r hran => ?_
  rcases hran.exists_result with ⟨reference, hresult, hdims⟩
  rw [hran.accepts.problem_eq hbuilt.accepts rfl rfl] at hdims
  refine together_bind_ok hresult ((Word.result_eq hran (hsize.dense _)).trans hresult) ?_
  have hready := hdense.ready hcreate hdims
  exact (together_foldlM (fun report variant hvariant _ =>
      together_runCompared _ (hready variant hvariant) (hsize.dense variant) report) trivial).bind
    fun report _ => together_runSparse hdense hrange hsize.sparse report

end

end Sweep
end ConvSweep
