import Mathlib
import ConvSweep.Proofs.Executor.Conditions
import ConvSweep.Proofs.Sweep.Sources

/-!
# The lines of a case

Under a clock of fixed steps a case writes the same lines however often it is run: the
records of the reference, the records and the line of every compared variant, and the
records of the sparse variant at each percentage in turn.  Nothing in between can fail
but a percentage, so a list with a bad percentage ends where its good ones end.
-/

namespace ConvSweep

/-!
## Sessions
-/

namespace Session

/-- The session after some readings of the clock and some lines. -/
def advance (s : Session) (count : Nat) (lines : List String) : Session :=
  { s with
    clock := ⟨⟨s.clock.next.nanos + count * s.clock.step.nanos⟩, s.clock.step⟩
    lines := s.lines ++ lines.toArray }

/-- The clock can be read so many times. -/
def Allows (s : Session) (count : Nat) : Prop :=
  s.clock.next.nanos + count * s.clock.step.nanos < Duration.limit

variable {s : Session} {m n : Nat} {lines lines' : List String} {line : String}

theorem step_advance : (s.advance n lines).clock.step = s.clock.step := rfl

theorem advance_zero : s.advance 0 [] = s := by
  simp [advance]

theorem advance_advance :
    (s.advance m lines).advance n lines' = s.advance (m + n) (lines ++ lines') := by
  simp [advance, Nat.add_mul, Nat.add_assoc]

theorem Allows.mono (h : s.Allows n) (hle : m ≤ n) : s.Allows m :=
  Nat.lt_of_le_of_lt (Nat.add_le_add_left (Nat.mul_le_mul_right _ hle) _) h

theorem Allows.advance (h : s.Allows (m + n)) : (s.advance m lines).Allows n := by
  rw [Allows, Nat.add_mul, ← Nat.add_assoc] at h
  exact h

/-- The reading after so many others. -/
theorem now_run (h : s.Allows (n + 1)) : (MonadSweep.now : SessionM Duration) (s.advance n lines) =
    .ok ⟨s.clock.next.nanos + n * s.clock.step.nanos⟩ (s.advance (n + 1) lines) := by
  have hfits : (s.advance n lines).clock.next.nanos + (s.advance n lines).clock.step.nanos <
      Duration.limit := by
    rw [Allows, Nat.succ_mul, ← Nat.add_assoc] at h
    exact h
  have hread : (s.advance n lines).clock.read =
      .ok ((s.advance n lines).clock.next, (s.advance (n + 1) lines).clock) := by
    rw [StepClock.read, Duration.add, if_pos hfits]
    simp [advance, Nat.succ_mul, Nat.add_assoc]
  simp only [MonadSweep.now, hread]
  rfl

/-- The first reading. -/
theorem now_first (h : s.Allows 1) :
    (MonadSweep.now : SessionM Duration) s = .ok s.clock.next (s.advance 1 []) := by
  have hfirst : (MonadSweep.now : SessionM Duration) (s.advance 0 []) = _ := now_run h
  rwa [advance_zero, Nat.zero_mul, Nat.add_zero] at hfirst

theorem writeLine_run :
    (MonadSweep.writeLine line : SessionM Unit) s = .ok () (s.advance 0 [line]) := by
  show EStateM.Result.ok () { s with lines := s.lines.push line } = _
  simp [advance]

end Session

open Session

/-!
## Timed runs
-/

namespace Executor

variable {config : ExecutorConfig} {denseTile : Nat} {input weight : Tensor Binary32}
  {e : Executor Binary32} {s : Session}

/-- The record of a run under a clock of this step. -/
def recordBy (e : Executor Binary32) (step : Duration) : ConvRecord :=
  { e.recordAt .zero .zero .zero with convert := step, compute := step }

theorem BuiltFrom.settled_settled (h : BuiltFrom config denseTile input weight e) :
    (e.settled input weight).settled input weight = e.settled input weight := by
  have h' : BuiltFrom { config with percentile := config.percentile } denseTile input weight e := h
  have hconfig : (e.settled input weight).config = config := h.config_eq
  rw [h.settled.settled_eq h' (percentile?_filled _ _)]
  rw [← hconfig]

theorem BuiltFrom.conv2d_eq (h : create config DenseMultiply.standardTile input weight = .ok e) :
    conv2d config input weight = (e.settled input weight).result := by
  have hrun : e.run .serial = .ok (e.settled input weight) :=
    (create_builtFrom h).1.runPhases_ok .serial .serial
  rw [conv2d, h, ok_bind, hrun, ok_bind]

theorem recordAt_steps (e : Executor Binary32) (t d : Nat) :
    e.recordAt ⟨t⟩ ⟨t + 1 * d⟩ ⟨t + 2 * d⟩ = e.recordBy ⟨d⟩ := by
  simp only [recordAt, recordBy, Duration.sub]
  congr 2 <;> omega

/-- A timed run settles the executor and takes one step per phase. -/
theorem BuiltFrom.compute_run (h : BuiltFrom config denseTile input weight e) (hs : s.Allows 3) :
    (e.compute : SessionM (Executor Binary32 × ConvRecord)) s =
      .ok (e.settled input weight, (e.settled input weight).recordBy s.clock.step)
        (s.advance 3 []) := by
  have h₁ := now_first (hs.mono (by decide))
  have h₂ : (MonadSweep.now : SessionM Duration) (s.advance 1 []) = _ :=
    now_run (hs.mono (by decide))
  have h₃ : (MonadSweep.now : SessionM Duration) (s.advance 2 []) = _ := now_run hs
  rw [h.compute_eq, bind_run h₁, bind_run h₂, bind_run h₃]
  rw [← recordAt_steps _ s.clock.next.nanos]
  rfl

end Executor

namespace CaseReport

/-- The report with further records and comparisons. -/
def append (report : CaseReport) (records : List ConvRecord) (diffs : List DiffRecord) :
    CaseReport :=
  ⟨report.records ++ records.toArray, report.diffs ++ diffs.toArray⟩

variable {report : CaseReport} {records records' : List ConvRecord} {diffs diffs' : List DiffRecord}

theorem append_nil : report.append [] [] = report := by
  simp [append]

theorem append_append : (report.append records diffs).append records' diffs' =
    report.append (records ++ records') (diffs ++ diffs') := by
  simp [append]

end CaseReport

namespace Sweep

section

variable {config : ExecutorConfig} {denseTile : Nat} {input weight : Tensor Binary32}
  {e : Executor Binary32} {s : Session} {report : CaseReport} {record : ConvRecord}

/-- The first of several timed runs. -/
theorem runTimed_succ (h : e.BuiltFrom config denseTile input weight) {count : Nat}
    (hrecord : (e.settled input weight).recordBy s.clock.step = record) (hs : s.Allows 3) :
    (runTimed e report (count + 1) : SessionM (Executor Binary32 × CaseReport)) s =
      (runTimed (e.settled input weight) (report.append [record] []) count :
        SessionM (Executor Binary32 × CaseReport)) (s.advance 3 [record.text]) := by
  have hcompute := h.compute_run hs
  rw [hrecord] at hcompute
  have hwrite : (MonadSweep.writeLine record.text : SessionM Unit) (s.advance 3 []) =
      .ok () (s.advance 3 [record.text]) := by
    rw [writeLine_run, advance_advance]
    rfl
  rw [runTimed, bind_run hcompute]
  dsimp only
  rw [bind_run hwrite]
  simp [CaseReport.append]

/-- Further runs leave a settled executor as it is. -/
theorem runTimed_settled (h : e.BuiltFrom config denseTile input weight)
    (hsettled : e.settled input weight = e) (hrecord : e.recordBy s.clock.step = record)
    {count : Nat} (hs : s.Allows (3 * count)) :
    (runTimed e report count : SessionM (Executor Binary32 × CaseReport)) s =
      .ok (e, report.append (List.replicate count record) [])
        (s.advance (3 * count) (List.replicate count record.text)) := by
  induction count generalizing s report with
  | zero =>
      rw [Nat.mul_zero, List.replicate_zero, List.replicate_zero, advance_zero,
        CaseReport.append_nil]
      rfl
  | succ count ih =>
      have hsplit : 3 * (count + 1) = 3 + 3 * count := by omega
      have hfirst : (e.settled input weight).recordBy s.clock.step = record := by
        rw [hsettled, hrecord]
      rw [hsplit] at hs ⊢
      rw [runTimed_succ h hfirst (hs.mono (Nat.le_add_right _ _)), hsettled,
        ih (s := s.advance 3 [record.text]) hrecord hs.advance, CaseReport.append_append,
        advance_advance, List.replicate_succ, List.replicate_succ]
      rfl

/-- Timed runs settle the executor and write one record over and over. -/
theorem runTimed_run (h : e.BuiltFrom config denseTile input weight)
    (hrecord : (e.settled input weight).recordBy s.clock.step = record) {count : Nat}
    (hcount : 0 < count) (hs : s.Allows (3 * count)) :
    (runTimed e report count : SessionM (Executor Binary32 × CaseReport)) s =
      .ok (e.settled input weight, report.append (List.replicate count record) [])
        (s.advance (3 * count) (List.replicate count record.text)) := by
  cases count with
  | zero =>
      exact absurd hcount (Nat.lt_irrefl 0)
  | succ count =>
      have hsplit : 3 * (count + 1) = 3 + 3 * count := by omega
      rw [hsplit] at hs ⊢
      rw [runTimed_succ h hrecord (hs.mono (Nat.le_add_right _ _)),
        runTimed_settled (s := s.advance 3 [record.text]) h.settled h.settled_settled hrecord
          hs.advance,
        CaseReport.append_append, advance_advance]
      rfl

end

/-!
## Records
-/

/-- The record of a variant under a clock of this step, at a percentage if it is sparse. -/
def recordOf (config : SweepConfig) (shape : FilterShape) (weight : Tensor Binary32)
    (step : Duration) (variant : Layout × Algorithm) (percentile? : Option Binary32) :
    ConvRecord where
  layout := variant.1
  algorithm := variant.2
  implementation := variant.2.implementation
  sparse := percentile?.isSome
  sparsity := percentile?.elim 0 fun x => x / ⟨0x42c80000⟩
  filters := weight.dims.headD 0
  spatial := config.spatialFor shape
  convert := step
  compute := step

/-- The records of one variant. -/
def timed (config : SweepConfig) (shape : FilterShape) (weight : Tensor Binary32) (step : Duration)
    (variant : Layout × Algorithm) (percentile? : Option Binary32) : List ConvRecord :=
  List.replicate (max config.repeats 1) (recordOf config shape weight step variant percentile?)

section

variable {config : SweepConfig} {shape : FilterShape} {cfg : ExecutorConfig} {denseTile : Nat}
  {input weight : Tensor Binary32} {e : Executor Binary32} {s : Session}
  {variant : Layout × Algorithm}

theorem recordBy_eq (h : e.BuiltFrom cfg denseTile input weight)
    (hinput : input.dims = config.inputDims shape) (step : Duration) :
    e.recordBy step = recordOf config shape weight step (cfg.layout, cfg.algorithm)
      e.plan.percentile? := by
  have hheight : e.problem.height = config.spatialFor shape := by
    rw [h.accepts.input_dims] at hinput
    simp only [SweepConfig.inputDims, List.cons.injEq] at hinput
    exact hinput.2.2.1
  have hfilters : e.problem.outChannels = weight.dims.headD 0 := by
    rw [h.accepts.weight_dims]
    rfl
  have hsparse : e.sparseWeights.isSome = e.plan.percentile?.isSome := by
    rw [Executor.sparseWeights]
    cases e.plan <;> rfl
  have hsparsity : e.sparsity = e.plan.percentile?.elim 0 fun x => x / ⟨0x42c80000⟩ := by
    rw [Executor.sparsity]
    cases e.plan <;> rfl
  rw [Executor.recordBy, Executor.recordAt, hheight, hfilters, hsparse, hsparsity, h.config_eq]
  rfl

/-- The timed runs of one variant. -/
theorem runTimed_timed (report : CaseReport) (h : e.BuiltFrom cfg denseTile input weight)
    (hinput : input.dims = config.inputDims shape)
    (hs : s.Allows (3 * max config.repeats 1)) :
    (runTimed e report (max config.repeats 1) : SessionM (Executor Binary32 × CaseReport)) s =
      .ok (e.settled input weight, report.append
          (timed config shape weight s.clock.step (cfg.layout, cfg.algorithm)
            e.plan.percentile?) [])
        (s.advance (3 * max config.repeats 1)
          ((timed config shape weight s.clock.step (cfg.layout, cfg.algorithm)
            e.plan.percentile?).map ConvRecord.text)) := by
  have hrecord := recordBy_eq h.settled hinput s.clock.step
  have hsame : (e.settled input weight).plan.percentile? = e.plan.percentile? :=
    Executor.percentile?_filled _ _
  rw [hsame] at hrecord
  rw [runTimed_run h hrecord (by omega) hs, timed, List.map_replicate]

/-!
## Compared variants
-/

/-- The executor of a dense variant. -/
def dense (config : SweepConfig) (variant : Layout × Algorithm) : ExecutorConfig :=
  { ExecutorConfig.standard with
    layout := variant.1, algorithm := variant.2, padding := config.padding, tile := config.tile }

/-- A line compares the result of a variant with the reference. -/
structure Compares (config : SweepConfig) (input weight reference : Tensor Binary32)
    (variant : Layout × Algorithm) (diff : DiffRecord) : Prop where
  variant_eq : (diff.layout, diff.algorithm) = variant
  result : ∃ result, conv2d (dense config variant) input weight = .ok result ∧
    reference.squareDiff result = .ok diff.squares ∧
    reference.maxRelativeError result = .ok diff.maxRelative

theorem exists_differences {t t' : Tensor Binary32} (h : t.dims = t'.dims) :
    ∃ squares maxRelative, t.squareDiff t' = .ok squares ∧
      t.maxRelativeError t' = .ok maxRelative := by
  rw [Tensor.squareDiff, Tensor.maxRelativeError, Tensor.elementPairs, if_pos h]
  exact ⟨_, _, rfl, rfl⟩

theorem exists_conv2d
    (h : Executor.create cfg DenseMultiply.standardTile input weight = .ok e) :
    ∃ result, (e.settled input weight).result = .ok result ∧
      conv2d cfg input weight = .ok result ∧
      result.dims = Executor.outputDims .nchw e.problem := by
  rcases (Executor.create_builtFrom h).1.settled.exists_result with ⟨result, hresult, hdims⟩
  exact ⟨result, hresult, (Executor.BuiltFrom.conv2d_eq h).trans hresult, hdims⟩

theorem runCompared_run (report : CaseReport) {reference : Tensor Binary32}
    (h : Executor.create (dense config variant) DenseMultiply.standardTile input weight = .ok e)
    (hdense : variant.2 ≠ .sparse) (hinput : input.dims = config.inputDims shape)
    (hdims : reference.dims = Executor.outputDims .nchw e.problem)
    (hs : s.Allows (3 * max config.repeats 1)) :
    ∃ diff, Compares config input weight reference variant diff ∧
      (runCompared (dense config (.nchw, .direct)) (max config.repeats 1) input weight reference
        report variant : SessionM CaseReport) s =
        .ok (report.append (timed config shape weight s.clock.step variant none) [diff])
          (s.advance (3 * max config.repeats 1)
            ((timed config shape weight s.clock.step variant none).map ConvRecord.text ++
              [diff.text])) := by
  rcases Executor.create_builtFrom h with ⟨hbuilt, hpercentile⟩
  rw [if_neg (show ¬ (dense config variant).algorithm = .sparse from hdense)] at hpercentile
  have htimed := runTimed_timed report hbuilt hinput hs
  rw [hpercentile] at htimed
  rcases exists_conv2d h with ⟨result, hresult, hconv, hresultDims⟩
  rcases exists_differences (hdims.trans hresultDims.symm) with
    ⟨squares, maxRelative, hsquares, hmax⟩
  have hwrite (line : String) (t : Session) :
      (MonadSweep.writeLine line : SessionM Unit) t = .ok () (t.advance 0 [line]) := writeLine_run
  refine ⟨⟨variant.1, variant.2, squares, maxRelative⟩, ⟨rfl, result, hconv, hsquares, hmax⟩, ?_⟩
  rw [runCompared]
  refine (bind_run (ofExcept_run h s)).trans ((bind_run htimed).trans ?_)
  refine (bind_run (ofExcept_run hresult _)).trans ?_
  refine (bind_run (ofExcept_run (congrArg (Except.mapError Failure.error) hsquares) _)).trans ?_
  refine (bind_run (ofExcept_run (congrArg (Except.mapError Failure.error) hmax) _)).trans ?_
  refine (bind_run (hwrite _ _)).trans ?_
  rw [advance_advance, Nat.add_zero]
  simp [CaseReport.append, dense]
  rfl

/-- The lines of compared variants, each with its records before it. -/
def comparedLines (config : SweepConfig) (shape : FilterShape) (weight : Tensor Binary32)
    (step : Duration) (diffs : List DiffRecord) : List String :=
  diffs.flatMap fun diff =>
    (timed config shape weight step (diff.layout, diff.algorithm) none).map ConvRecord.text ++
      [diff.text]

/-- What is known of a dense variant before it runs. -/
structure Ready (config : SweepConfig) (input weight reference : Tensor Binary32)
    (variant : Layout × Algorithm) : Prop where
  algorithm_ne : variant.2 ≠ .sparse
  created : ∃ e, Executor.create (dense config variant) DenseMultiply.standardTile input weight =
    .ok e ∧ reference.dims = Executor.outputDims .nchw e.problem

theorem mul_length_cons {β : Type} (count : Nat) (x : β) (rest : List β) :
    count * (x :: rest).length = count + count * rest.length := by
  rw [List.length_cons, Nat.mul_succ, Nat.add_comm]

theorem foldlM_runCompared (report : CaseReport) {reference : Tensor Binary32}
    {variants : List (Layout × Algorithm)}
    (hinput : input.dims = config.inputDims shape)
    (hready : ∀ variant ∈ variants, Ready config input weight reference variant)
    (hs : s.Allows (3 * max config.repeats 1 * variants.length)) :
    ∃ diffs, List.Forall₂ (Compares config input weight reference) variants diffs ∧
      (variants.foldlM (runCompared (dense config (.nchw, .direct)) (max config.repeats 1) input
        weight reference) report : SessionM CaseReport) s =
        .ok (report.append
            (variants.flatMap fun variant => timed config shape weight s.clock.step variant none)
            diffs)
          (s.advance (3 * max config.repeats 1 * variants.length)
            (comparedLines config shape weight s.clock.step diffs)) := by
  induction variants generalizing s report with
  | nil =>
      refine ⟨[], .nil, ?_⟩
      rw [List.foldlM_nil, List.length_nil, Nat.mul_zero, List.flatMap_nil,
        CaseReport.append_nil]
      exact congrArg _ advance_zero.symm
  | cons variant rest ih =>
      rcases List.forall_mem_cons.mp hready with ⟨⟨hdense, e, hcreate, hdims⟩, hrest⟩
      rw [mul_length_cons] at hs ⊢
      rcases runCompared_run report hcreate hdense hinput hdims
        (hs.mono (Nat.le_add_right _ _)) with ⟨diff, hdiff, hfirst⟩
      rcases ih (s := s.advance (3 * max config.repeats 1) _)
        (report.append _ _) hrest hs.advance with
        ⟨diffs, hdiffs, hmore⟩
      refine ⟨diff :: diffs, .cons hdiff hdiffs, ?_⟩
      rw [List.foldlM_cons]
      refine (bind_run hfirst).trans (hmore.trans ?_)
      rw [CaseReport.append_append, advance_advance]
      cases hdiff.variant_eq
      rfl

/-!
## Percentages
-/

/-- The records of the sparse variant at each percentage in turn. -/
def sparseRecords (config : SweepConfig) (shape : FilterShape) (weight : Tensor Binary32)
    (step : Duration) (percentiles : List Binary32) : List ConvRecord :=
  percentiles.flatMap fun x => timed config shape weight step (.nchw, .sparse) (some x)

/-- Good percentages run one after the other; what follows them starts from a built executor. -/
theorem runPercentiles_valid (report : CaseReport)
    (h : e.BuiltFrom cfg denseTile input weight)
    (hvariant : (cfg.layout, cfg.algorithm) = (.nchw, .sparse))
    (hinput : input.dims = config.inputDims shape) {valid : List Binary32}
    (hvalid : ∀ x ∈ valid, Percentile.InRange x)
    (hs : s.Allows (3 * max config.repeats 1 * valid.length)) :
    ∃ e' : Executor Binary32, e'.BuiltFrom cfg denseTile input weight ∧ ∀ rest,
      (runPercentiles (max config.repeats 1) e report (valid ++ rest) : SessionM CaseReport) s =
        (runPercentiles (max config.repeats 1) e'
          (report.append (sparseRecords config shape weight s.clock.step valid) []) rest :
            SessionM CaseReport)
          (s.advance (3 * max config.repeats 1 * valid.length)
            ((sparseRecords config shape weight s.clock.step valid).map ConvRecord.text)) := by
  induction valid generalizing e s report with
  | nil =>
      refine ⟨e, h, fun rest => ?_⟩
      rw [List.length_nil, Nat.mul_zero, sparseRecords, List.flatMap_nil, List.map_nil,
        advance_zero, CaseReport.append_nil]
      rfl
  | cons x valid ih =>
      rcases List.forall_mem_cons.mp hvalid with ⟨hx, hothers⟩
      have hsparse : cfg.algorithm = .sparse := congrArg Prod.snd hvariant
      rw [mul_length_cons] at hs ⊢
      rcases h.setSparsity_accepted hsparse hx with ⟨e₁, hset⟩
      rcases h.of_setSparsity hset with ⟨h₁, hpercentile⟩
      have htimed := runTimed_timed report h₁ hinput (hs.mono (Nat.le_add_right _ _))
      rw [hvariant, hpercentile] at htimed
      rcases ih (s := s.advance (3 * max config.repeats 1) _) (report.append _ _) h₁.settled hothers
        hs.advance with ⟨e', h', hrest⟩
      refine ⟨e', h', fun rest => ?_⟩
      rw [List.cons_append, runPercentiles]
      refine (bind_run (ofExcept_run hset s)).trans ((bind_run htimed).trans ?_)
      refine (hrest rest).trans ?_
      rw [CaseReport.append_append, advance_advance]
      simp [sparseRecords, step_advance]

/-- The executor of the sparse variant, built with a percentage. -/
def sparse (config : SweepConfig) (percentile : Binary32) : ExecutorConfig :=
  { ExecutorConfig.standard with algorithm := .sparse, padding := config.padding, percentile }

/--
The dense variants can be built.  While the second one runs, memory holds the weight, its copy in
the other axis order, the reference and the output.
-/
structure DenseBuilt (config : SweepConfig) (input weight : Tensor Binary32) : Prop where
  created : ∀ variant ∈ (.nchw, .direct) :: comparedVariants, ∃ e,
    Executor.create (dense config variant) DenseMultiply.standardTile input weight = .ok e
  held : ∀ e, Executor.create (dense config (.nhwc, .direct)) DenseMultiply.standardTile input
      weight = .ok e →
    4 * (weight.data.size + e.weight.data.size + 2 * e.output.data.size) < Size.limit

/-- A weight of too many rows would leave no room for its copy and for two results. -/
theorem DenseBuilt.rows_lt (h : DenseBuilt config input weight) {filters : Nat}
    (hfilters : weight.dims.headD 0 = filters) : filters < offsetLimit := by
  rcases h.created (.nhwc, .direct) (by decide) with ⟨e, hcreate⟩
  have hbuilt := (Executor.create_builtFrom hcreate).1
  have hp := hbuilt.accepts.admissible
  have hheld := h.held e hcreate
  rw [hbuilt.accepts.weight_dims, List.headD_cons] at hfilters
  have hpatch : 0 < e.problem.patchSize :=
    Nat.mul_pos (Nat.mul_pos hp.inChannels_pos hp.expandable.kernel_pos) hp.expandable.kernel_pos
  have hpixels : 0 < e.problem.outPixels :=
    Nat.mul_pos hp.expandable.outRows_pos hp.expandable.outCols_pos
  rcases hbuilt.sizes with ⟨hweight, hturned, houtput⟩
  have hle : e.problem.outChannels ≤ e.problem.outChannels * e.problem.patchSize :=
    Nat.le_mul_of_pos_right _ hpatch
  have hle' : e.problem.outChannels ≤
      e.problem.batch * e.problem.outChannels * e.problem.outPixels :=
    Nat.le_trans (Nat.le_mul_of_pos_left _ hp.batch_pos) (Nat.le_mul_of_pos_right _ hpixels)
  have hlimit : Size.limit = 16 * offsetLimit := by decide
  omega

/-- The sparse variant takes no more memory than the dense one, but for its row offsets. -/
theorem DenseBuilt.sparse_fits (h : DenseBuilt config input weight) (percentile : Binary32) :
    ∃ p : Problem, Executor.Accepts (sparse config percentile) input weight p ∧
      p.FitsMemory (sparse config percentile) := by
  rcases h.created (.nchw, .dense) (by decide) with ⟨e, hcreate⟩
  have hbuilt := (Executor.create_builtFrom hcreate).1
  have haccepts := hbuilt.accepts
  have hfits := hbuilt.fitsMemory
  have hdense : (dense config (.nchw, .dense)).algorithm ≠ .direct := nofun
  refine ⟨e.problem, ⟨haccepts.admissible, haccepts.padding_eq, haccepts.input_dims,
    haccepts.weight_dims⟩, ⟨hfits.input_lt, ?_, hfits.output_lt,
    fun _ => hfits.patches_lt hdense, fun _ => h.rows_lt ?_⟩⟩
  · intro hlayout
    cases hlayout
  · rw [haccepts.weight_dims]
    rfl

theorem DenseBuilt.exists_sparse (h : DenseBuilt config input weight) {percentile : Binary32}
    (hrange : Percentile.InRange percentile) :
    ∃ e, Executor.create (sparse config percentile) DenseMultiply.standardTile input weight =
      .ok e := by
  rcases h.sparse_fits percentile with ⟨p, haccepts, hfits⟩
  refine haccepts.exists_create (fun hboth => by cases hboth.2) hfits ?_ _
  exact fun _ => ⟨_, Percentile.ofNumber_of_inRange hrange⟩

/-- Nothing but the percentage keeps the sparse variant from being built. -/
theorem DenseBuilt.create_invalid (h : DenseBuilt config input weight) {percentile : Binary32}
    (hrange : ¬ Percentile.InRange percentile) :
    Executor.create (sparse config percentile) DenseMultiply.standardTile input weight =
      .error (.error (.invalidPercentile percentile)) := by
  rcases h.sparse_fits percentile with ⟨p, haccepts, hfits⟩
  exact haccepts.create_invalid (fun hboth => by cases hboth.2) hfits rfl hrange _

/-- The sparse variant at the percentages of a case, after the dense ones. -/
def runSparse {m : Type → Type} [Monad m] [MonadExceptOf Failure m] [MonadSweep m]
    (config : SweepConfig) (input weight : Tensor Binary32) (report : CaseReport) :
    m CaseReport :=
  match config.percentiles with
  | [] => return report
  | first :: _ => do
      let e ← MonadExcept.ofExcept
        (Executor.create (sparse config first) DenseMultiply.standardTile input weight)
      runPercentiles (max config.repeats 1) e report config.percentiles

/-- Good percentages are run to the end. -/
theorem runSparse_valid (report : CaseReport) (h : DenseBuilt config input weight)
    (hinput : input.dims = config.inputDims shape) {valid : List Binary32}
    (hvalid : ∀ x ∈ valid, Percentile.InRange x)
    (hs : s.Allows (3 * max config.repeats 1 * valid.length)) :
    (runSparse { config with percentiles := valid } input weight report : SessionM CaseReport) s =
      .ok (report.append (sparseRecords config shape weight s.clock.step valid) [])
        (s.advance (3 * max config.repeats 1 * valid.length)
          ((sparseRecords config shape weight s.clock.step valid).map ConvRecord.text)) := by
  cases valid with
  | nil =>
      rw [List.length_nil, Nat.mul_zero, sparseRecords, List.flatMap_nil, List.map_nil,
        advance_zero, CaseReport.append_nil]
      rfl
  | cons first rest =>
      rcases h.exists_sparse (hvalid first List.mem_cons_self) with ⟨e, hcreate⟩
      have hbuilt := (Executor.create_builtFrom hcreate).1
      rcases runPercentiles_valid report hbuilt rfl hinput hvalid hs with
        ⟨e', _, hrun⟩
      have hall := hrun []
      rw [List.append_nil] at hall
      refine (bind_run (ofExcept_run hcreate s)).trans (hall.trans ?_)
      rfl

/-- A bad percentage ends the case where the good ones before it end. -/
theorem runSparse_invalid (report : CaseReport) (h : DenseBuilt config input weight)
    (hinput : input.dims = config.inputDims shape) {valid rest : List Binary32} {bad : Binary32}
    (hvalid : ∀ x ∈ valid, Percentile.InRange x) (hbad : ¬ Percentile.InRange bad)
    (hs : s.Allows (3 * max config.repeats 1 * valid.length)) :
    (runSparse { config with percentiles := valid ++ bad :: rest } input weight report :
        SessionM CaseReport) s =
      .error (.error (.invalidPercentile bad))
        (s.advance (3 * max config.repeats 1 * valid.length)
          ((sparseRecords config shape weight s.clock.step valid).map ConvRecord.text)) := by
  cases valid with
  | nil =>
      rw [List.length_nil, Nat.mul_zero, sparseRecords, List.flatMap_nil, List.map_nil,
        advance_zero]
      exact bind_error (ofExcept_error (h.create_invalid hbad) s)
  | cons first others =>
      rcases h.exists_sparse (hvalid first List.mem_cons_self) with ⟨e, hcreate⟩
      have hbuilt := (Executor.create_builtFrom hcreate).1
      rcases runPercentiles_valid report hbuilt rfl hinput hvalid hs with
        ⟨e', hbuilt', hrun⟩
      refine (bind_run (ofExcept_run hcreate s)).trans ((hrun (bad :: rest)).trans ?_)
      rw [runPercentiles]
      exact bind_error (ofExcept_error (hbuilt'.setSparsity_invalid rfl hbad) _)

/-!
## Cases
-/

/-- The records of a case in their order. -/
def caseRecords (config : SweepConfig) (shape : FilterShape) (weight : Tensor Binary32)
    (step : Duration) (percentiles : List Binary32) : List ConvRecord :=
  timed config shape weight step (.nchw, .direct) none ++
    comparedVariants.flatMap (fun variant => timed config shape weight step variant none) ++
    sparseRecords config shape weight step percentiles

/-- The lines of a case in their order. -/
def caseLines (config : SweepConfig) (shape : FilterShape) (weight : Tensor Binary32)
    (step : Duration) (diffs : List DiffRecord) (percentiles : List Binary32) : List String :=
  (timed config shape weight step (.nchw, .direct) none).map ConvRecord.text ++
    comparedLines config shape weight step diffs ++
    (sparseRecords config shape weight step percentiles).map ConvRecord.text

theorem caseRecords_append (step : Duration) (percentiles : List Binary32) :
    caseRecords config shape weight step [] ++
      sparseRecords config shape weight step percentiles =
        caseRecords config shape weight step percentiles := by
  simp [caseRecords, sparseRecords]

theorem caseLines_append (step : Duration) (diffs : List DiffRecord)
    (percentiles : List Binary32) :
    caseLines config shape weight step diffs [] ++
      (sparseRecords config shape weight step percentiles).map ConvRecord.text =
        caseLines config shape weight step diffs percentiles := by
  simp [caseLines, sparseRecords]

theorem length_comparedLines (step : Duration) (diffs : List DiffRecord) :
    (comparedLines config shape weight step diffs).length =
      (max config.repeats 1 + 1) * diffs.length := by
  rw [comparedLines, List.length_flatMap]
  simp [timed, Nat.mul_comm]

theorem length_sparseRecords (step : Duration) (percentiles : List Binary32) :
    (sparseRecords config shape weight step percentiles).length =
      max config.repeats 1 * percentiles.length := by
  rw [sparseRecords, List.length_flatMap]
  simp [timed, Nat.mul_comm]

theorem length_caseLines (step : Duration) {diffs : List DiffRecord} (h : diffs.length = 3)
    (percentiles : List Binary32) :
    (caseLines config shape weight step diffs percentiles).length =
      max config.repeats 1 * (4 + percentiles.length) + 3 := by
  rw [caseLines, List.length_append, List.length_append, List.length_map, List.length_map,
    length_comparedLines, length_sparseRecords, h, timed, List.length_replicate]
  ring

theorem runCase_eq {m : Type → Type} [Monad m] [MonadExceptOf Failure m] [MonadSweep m]
    (config : SweepConfig) (shape : FilterShape) (weight : Tensor Binary32)
    (pool : Array Binary32) :
    (runCase config shape weight pool : m CaseReport) = (do
      let input ← MonadExcept.ofExcept
        ((Tensor.ofPrefix (config.inputDims shape) pool).mapError Failure.error)
      let e ← MonadExcept.ofExcept
        (Executor.create (dense config (.nchw, .direct)) DenseMultiply.standardTile input weight)
      let (e, report) ← runTimed e .empty (max config.repeats 1)
      let reference ← MonadExcept.ofExcept e.result
      let report ← comparedVariants.foldlM
        (runCompared (dense config (.nchw, .direct)) (max config.repeats 1) input weight reference)
        report
      runSparse config input weight report) := rfl

theorem DenseBuilt.ready (h : DenseBuilt config input weight) {reference : Tensor Binary32}
    (hcreate : Executor.create (dense config (.nchw, .direct)) DenseMultiply.standardTile input
      weight = .ok e) (hdims : reference.dims = Executor.outputDims .nchw e.problem) :
    ∀ variant ∈ comparedVariants, Ready config input weight reference variant := by
  intro variant hvariant
  have hdense : ∀ variant ∈ comparedVariants, variant.2 ≠ .sparse := by
    decide
  rcases h.created variant (List.mem_cons_of_mem _ hvariant) with ⟨e', hcreate'⟩
  have haccepts := (Executor.create_builtFrom hcreate).1.accepts
  have haccepts' := (Executor.create_builtFrom hcreate').1.accepts
  refine ⟨hdense variant hvariant, e', hcreate', ?_⟩
  rw [hdims, haccepts.problem_eq haccepts' rfl rfl]

/-- The dense variants run to the end, whatever the percentages are. -/
theorem runCase_dense {pool : Array Binary32}
    (hinput : Tensor.ofPrefix (config.inputDims shape) pool = .ok input)
    (hdense : DenseBuilt config input weight) (hs : s.Allows (3 * max config.repeats 1 * 4)) :
    ∃ reference diffs, conv2d (dense config (.nchw, .direct)) input weight = .ok reference ∧
      List.Forall₂ (Compares config input weight reference) comparedVariants diffs ∧
      ∀ percentiles,
        (runCase { config with percentiles } shape weight pool : SessionM CaseReport) s =
          (runSparse { config with percentiles } input weight
            ⟨(caseRecords config shape weight s.clock.step []).toArray, diffs.toArray⟩ :
              SessionM CaseReport)
            (s.advance (3 * max config.repeats 1 * 4)
              (caseLines config shape weight s.clock.step diffs [])) := by
  rcases hdense.created (.nchw, .direct) List.mem_cons_self with ⟨e, hcreate⟩
  rcases Executor.create_builtFrom hcreate with ⟨hbuilt, hpercentile⟩
  rcases exists_conv2d hcreate with ⟨reference, hresult, hconv, hdims⟩
  have hinputDims := (Tensor.data_ofPrefix hinput).1
  have hsplit : 3 * max config.repeats 1 * 4 =
      3 * max config.repeats 1 + 3 * max config.repeats 1 * comparedVariants.length := by
    show _ = _ + _ * 3
    ring
  rw [hsplit] at hs ⊢
  have htimed := runTimed_timed .empty hbuilt hinputDims (hs.mono (Nat.le_add_right _ _))
  have hdirect : ¬ (dense config (.nchw, .direct)).algorithm = .sparse := nofun
  rw [hpercentile, if_neg hdirect] at htimed
  rcases foldlM_runCompared (s := s.advance (3 * max config.repeats 1) _) (.append .empty _ _)
    hinputDims (hdense.ready hcreate hdims) hs.advance with ⟨diffs, hdiffs, hfold⟩
  refine ⟨reference, diffs, hconv, hdiffs, fun percentiles => ?_⟩
  rw [runCase_eq]
  refine (bind_run (ofExcept_run (congrArg (Except.mapError Failure.error) hinput) s)).trans ?_
  refine (bind_run (ofExcept_run hcreate s)).trans ((bind_run htimed).trans ?_)
  refine (bind_run (ofExcept_run hresult _)).trans ((bind_run hfold).trans ?_)
  rw [CaseReport.append_append, advance_advance]
  simp [caseRecords, caseLines, sparseRecords, CaseReport.append, CaseReport.empty, step_advance]
  rfl

/--
A case that can be built writes the records of the reference, the records and the line of every
compared variant, and the records of the sparse variant at each percentage.  At the first bad
percentage it ends with the same lines as if the list ended there.
-/
theorem runCase_sequence {pool : Array Binary32} {valid : List Binary32}
    (hinput : Tensor.ofPrefix (config.inputDims shape) pool = .ok input)
    (hdense : DenseBuilt config input weight) (hvalid : ∀ x ∈ valid, Percentile.InRange x)
    (hs : s.Allows (3 * max config.repeats 1 * (4 + valid.length))) :
    ∃ reference diffs, conv2d (dense config (.nchw, .direct)) input weight = .ok reference ∧
      List.Forall₂ (Compares config input weight reference) comparedVariants diffs ∧
      (caseLines config shape weight s.clock.step diffs valid).length =
        max config.repeats 1 * (4 + valid.length) + 3 ∧
      (runCase { config with percentiles := valid } shape weight pool : SessionM CaseReport) s =
        .ok ⟨(caseRecords config shape weight s.clock.step valid).toArray, diffs.toArray⟩
          (s.advance (3 * max config.repeats 1 * (4 + valid.length))
            (caseLines config shape weight s.clock.step diffs valid)) ∧
      ∀ bad rest, ¬ Percentile.InRange bad →
        (runCase { config with percentiles := valid ++ bad :: rest } shape weight pool :
          SessionM CaseReport) s =
          .error (.error (.invalidPercentile bad))
            (s.advance (3 * max config.repeats 1 * (4 + valid.length))
              (caseLines config shape weight s.clock.step diffs valid)) := by
  have hsplit := Nat.mul_add (3 * max config.repeats 1) 4 valid.length
  rw [hsplit] at hs
  rcases runCase_dense hinput hdense (hs.mono (Nat.le_add_right _ _)) with
    ⟨reference, diffs, hconv, hdiffs, hrun⟩
  have hinputDims := (Tensor.data_ofPrefix hinput).1
  have hlength : diffs.length = 3 := hdiffs.length_eq.symm
  refine ⟨reference, diffs, hconv, hdiffs, length_caseLines _ hlength _, ?_, ?_⟩
  · rw [hrun, runSparse_valid _ hdense hinputDims hvalid hs.advance, advance_advance, hsplit]
    rw [CaseReport.append, step_advance, caseLines_append, List.append_toArray,
      caseRecords_append, Array.append_empty]
  · intro bad rest hbad
    rw [hrun, runSparse_invalid _ hdense hinputDims hvalid hbad hs.advance, advance_advance,
      hsplit]
    rw [step_advance, caseLines_append]

/-- A tensor of one element. -/
def point (x : Binary32) : Tensor Binary32 where
  shape := ⟨[1, 1, 1, 1], [1, 1, 1, 1], 1, by decide, by decide, by decide⟩
  data := #[x]
  size_eq := rfl

/-- One run per variant, although none is asked for. -/
def hasty : SweepConfig :=
  { SweepConfig.standard with batch := 1, spatial := some 1, repeats := 0 }

theorem denseBuilt_point : DenseBuilt hasty (point 1) (point 1) where
  created := by
    have hok : ∀ variant ∈ (.nchw, .direct) :: comparedVariants,
        (Executor.create (dense hasty variant) DenseMultiply.standardTile (point 1)
          (point 1)).isOk = true := by
      decide +kernel
    exact fun variant hvariant => exists_of_isOk (hok variant hvariant)
  held := by
    intro e he
    have hsizes : (Executor.create (dense hasty (.nhwc, .direct)) DenseMultiply.standardTile
        (point 1) (point 1)).toOption.map (fun e => e.weight.data.size + 2 * e.output.data.size) =
          some 3 := by
      decide +kernel
    rw [he] at hsizes
    have hsum : e.weight.data.size + 2 * e.output.data.size = 3 := Option.some.inj hsizes
    have hpoint : (point 1).data.size = 1 := rfl
    have hlimit : 16 < Size.limit := by decide
    omega

/-- One good percentage gives five records and three comparisons; a bad one after it ends there. -/
theorem runCase_sequence_point :
    ∃ (report : CaseReport) (after : Session),
      (runCase { hasty with percentiles := [⟨0x42480000⟩] } ⟨1, 1, 1, 1⟩ (point 1) #[1] :
        SessionM CaseReport) (.start ⟨1000⟩ []) = .ok report after ∧
      report.records.size = 5 ∧ report.diffs.size = 3 ∧ after.lines.size = 8 ∧
      after.clock.next = ⟨15000⟩ ∧
      (runCase { hasty with percentiles := [⟨0x42480000⟩, ⟨0x42ca0000⟩, 0] } ⟨1, 1, 1, 1⟩
        (point 1) #[1] : SessionM CaseReport) (.start ⟨1000⟩ []) =
        .error (.error (.invalidPercentile ⟨0x42ca0000⟩)) after := by
  have hinput : Tensor.ofPrefix (hasty.inputDims ⟨1, 1, 1, 1⟩) #[1] = .ok (point 1) := by
    rfl
  have hvalid : ∀ x ∈ [(⟨0x42480000⟩ : Binary32)], Percentile.InRange x := by
    decide
  have hs : (Session.start ⟨1000⟩ []).Allows
      (3 * max hasty.repeats 1 * (4 + [(⟨0x42480000⟩ : Binary32)].length)) := by
    unfold Allows
    decide
  rcases runCase_sequence hinput denseBuilt_point hvalid hs with
    ⟨reference, diffs, _, hdiffs, hlength, hrun, hbad⟩
  refine ⟨_, _, hrun, rfl, hdiffs.length_eq.symm, ?_, rfl, hbad _ [0] (by decide)⟩
  show (#[] ++ _ : Array String).size = _
  rw [Array.empty_append, List.size_toArray]
  exact hlength

end

end Sweep
end ConvSweep
