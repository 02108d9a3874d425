import Mathlib
import ConvSweep.Proofs.Sweep.Divergence
import ConvSweep.Proofs.Sweep.Sequence

/-!
# What the comparisons of a case tell

Whatever the clock shows and however lines are written, a case that runs to its end has
compared the result of every dense variant with the reference.  Its report therefore
tells how far these results are from each other where both are finite.  An infinity or a
NaN is not seen: a sum that overflows in one order of its terms and not in another is
reported without an error.
-/

namespace ConvSweep

variable {α β σ : Type}

/-!
## Computations that end well
-/

/-- Whatever session it starts from, a computation that ends well gives such a value. -/
def Yields (x : EStateM Failure σ α) (P : α → Prop) : Prop :=
  ∀ s a s', x s = .ok a s' → P a

variable {P : α → Prop} {Q : β → Prop}

theorem yields_true (x : EStateM Failure σ α) : Yields x fun _ => True :=
  fun _ _ _ _ => trivial

theorem yields_pure {a : α} (h : P a) : Yields (pure a : EStateM Failure σ α) P := by
  intro s b s' hrun
  cases hrun
  exact h

theorem Yields.bind {x : EStateM Failure σ α} {f : α → EStateM Failure σ β} (h : Yields x P)
    (hrest : ∀ a, P a → Yields (f a) Q) : Yields (x >>= f) Q := by
  intro s b s' hrun
  change EStateM.bind x f s = .ok b s' at hrun
  unfold EStateM.bind at hrun
  cases hx : x s with
  | ok a t =>
      rw [hx] at hrun
      exact hrest a (h s a t hx) t b s' hrun
  | error e t =>
      rw [hx] at hrun
      cases hrun

theorem yields_ofExcept (x : Outcome α) :
    Yields (MonadExcept.ofExcept x : EStateM Failure σ α) fun a => x = .ok a := by
  cases x with
  | ok a =>
      exact yields_pure rfl
  | error e =>
      intro s a s' hrun
      cases hrun

/-- A step that does not look at the session. -/
theorem yields_bind_ok {x : Outcome α} {f : α → EStateM Failure σ β}
    (h : ∀ a, x = .ok a → Yields (f a) Q) : Yields (MonadExcept.ofExcept x >>= f) Q :=
  (yields_ofExcept x).bind h

namespace Sweep

section

variable [MonadSweep (EStateM Failure σ)] {cfg : ExecutorConfig} {denseTile : Nat}
  {config : SweepConfig} {input weight reference : Tensor Binary32} {e : Executor Binary32}
  {variant : Layout × Algorithm}

/-!
## Runs of an executor
-/

/-- Timed runs add records and no comparisons. -/
theorem yields_diffs_of_runTimed (e : Executor Binary32) (report : CaseReport) (count : Nat) :
    Yields (runTimed e report count : EStateM Failure σ (Executor Binary32 × CaseReport))
      fun r => r.2.diffs = report.diffs := by
  induction count generalizing e report with
  | zero =>
      exact yields_pure rfl
  | succ count ih =>
      rw [runTimed]
      exact (yields_true _).bind fun _ _ => (yields_true _).bind fun _ _ => ih _ _

theorem yields_compute (h : e.BuiltFrom cfg denseTile input weight) :
    Yields (e.compute : EStateM Failure σ (Executor Binary32 × ConvRecord))
      fun r => r.1 = e.settled input weight := by
  rw [h.compute_eq]
  exact (yields_true _).bind fun _ _ => (yields_true _).bind fun _ _ =>
    (yields_true _).bind fun _ _ => yields_pure rfl

/-- Further runs leave a settled executor as it is. -/
theorem yields_settled_of_runTimed (h : e.BuiltFrom cfg denseTile input weight)
    (hsettled : e.settled input weight = e) (report : CaseReport) (count : Nat) :
    Yields (runTimed e report count : EStateM Failure σ (Executor Binary32 × CaseReport))
      fun r => r.1 = e := by
  induction count generalizing report with
  | zero =>
      exact yields_pure rfl
  | succ count ih =>
      rw [runTimed]
      refine (yields_compute h).bind fun r hr => (yields_true _).bind fun _ _ => ?_
      rw [hr, hsettled]
      exact ih _

/-- One run or more settle the executor. -/
theorem yields_runTimed (h : e.BuiltFrom cfg denseTile input weight) (report : CaseReport)
    {count : Nat} (hcount : 0 < count) :
    Yields (runTimed e report count : EStateM Failure σ (Executor Binary32 × CaseReport))
      fun r => r.1 = e.settled input weight ∧ r.2.diffs = report.diffs := by
  have hsettled : Yields (runTimed e report count : EStateM Failure σ _)
      fun r => r.1 = e.settled input weight := by
    cases count with
    | zero =>
        exact absurd hcount (Nat.lt_irrefl 0)
    | succ count =>
        rw [runTimed]
        refine (yields_compute h).bind fun r hr => (yields_true _).bind fun _ _ => ?_
        rw [hr]
        exact yields_settled_of_runTimed h.settled h.settled_settled _ count
  exact fun s r s' hrun =>
    ⟨hsettled s r s' hrun, yields_diffs_of_runTimed e report count s r s' hrun⟩

/-!
## Comparisons
-/

/-- A compared variant adds the comparison of its result with the reference. -/
theorem yields_runCompared {repeats : Nat} (hrepeats : 0 < repeats) (report : CaseReport) :
    Yields (runCompared (dense config (.nchw, .direct)) repeats input weight reference report
        variant : EStateM Failure σ CaseReport)
      fun report' => ∃ diff, Compares config input weight reference variant diff ∧
        report'.diffs = report.diffs.push diff := by
  rcases variant with ⟨layout, algorithm⟩
  rw [runCompared]
  refine yields_bind_ok fun e hcreate => ?_
  have hconv := Executor.BuiltFrom.conv2d_eq hcreate
  refine (yields_runTimed (Executor.create_builtFrom hcreate).1 report hrepeats).bind
    fun r hr => ?_
  refine yields_bind_ok fun result hresult => ?_
  refine yields_bind_ok fun squares hsquares => yields_bind_ok fun maxRelative hmax => ?_
  refine (yields_true _).bind fun _ _ => yields_pure
    ⟨⟨layout, algorithm, squares, maxRelative⟩, ⟨rfl, result, ?_, ?_, ?_⟩, ?_⟩
  · rw [hr.1] at hresult
    exact hconv.trans hresult
  · exact of_mapError hsquares
  · exact of_mapError hmax
  · rw [hr.2]

theorem yields_foldlM_runCompared {repeats : Nat} (hrepeats : 0 < repeats)
    (variants : List (Layout × Algorithm)) (report : CaseReport) :
    Yields (variants.foldlM (runCompared (dense config (.nchw, .direct)) repeats input weight
        reference) report : EStateM Failure σ CaseReport)
      fun report' => ∃ diffs,
        List.Forall₂ (Compares config input weight reference) variants diffs ∧
          report'.diffs = report.diffs ++ diffs.toArray := by
  induction variants generalizing report with
  | nil =>
      exact yields_pure ⟨[], .nil, (Array.append_empty).symm⟩
  | cons variant rest ih =>
      rw [List.foldlM_cons]
      refine (yields_runCompared hrepeats report).bind fun report₁ h => ?_
      rcases h with ⟨diff, hdiff, hpush⟩
      intro s report' s' hrun
      rcases ih report₁ s report' s' hrun with ⟨diffs, hdiffs, happend⟩
      refine ⟨diff :: diffs, .cons hdiff hdiffs, ?_⟩
      rw [happend, hpush]
      simp

theorem yields_runPercentiles (repeats : Nat) (percentiles : List Binary32)
    (e : Executor Binary32) (report : CaseReport) :
    Yields (runPercentiles repeats e report percentiles : EStateM Failure σ CaseReport)
      fun report' => report'.diffs = report.diffs := by
  induction percentiles generalizing e report with
  | nil =>
      exact yields_pure rfl
  | cons percentile rest ih =>
      rw [runPercentiles]
      refine (yields_true _).bind fun e₁ _ => ?_
      refine (yields_diffs_of_runTimed e₁ report repeats).bind fun r hr => ?_
      rw [← hr]
      exact ih r.1 r.2

theorem yields_runSparse (report : CaseReport) :
    Yields (runSparse config input weight report : EStateM Failure σ CaseReport)
      fun report' => report'.diffs = report.diffs := by
  rw [runSparse]
  cases config.percentiles with
  | nil =>
      exact yields_pure rfl
  | cons first rest =>
      exact (yields_true _).bind fun e _ => yields_runPercentiles _ _ e report

/-- A case that runs to its end has compared every dense variant with the reference. -/
theorem yields_runCase (shape : FilterShape) (pool : Array Binary32) :
    Yields (runCase config shape weight pool : EStateM Failure σ CaseReport)
      fun report => ∃ input reference,
        Tensor.ofPrefix (config.inputDims shape) pool = .ok input ∧
        conv2d (dense config (.nchw, .direct)) input weight = .ok reference ∧
        List.Forall₂ (Compares config input weight reference) comparedVariants
          report.diffs.toList := by
  have hrepeats : 0 < max config.repeats 1 := by omega
  rw [runCase_eq]
  refine yields_bind_ok fun input hinput => yields_bind_ok fun e hcreate => ?_
  refine (yields_runTimed (Executor.create_builtFrom hcreate).1 .empty hrepeats).bind
    fun r hr => ?_
  refine yields_bind_ok fun reference hreference => ?_
  refine (yields_foldlM_runCompared hrepeats comparedVariants r.2).bind fun report h => ?_
  rcases h with ⟨diffs, hdiffs, happend⟩
  intro s report' s' hrun
  have hsame := yields_runSparse report s report' s' hrun
  refine ⟨input, reference, of_mapError hinput, ?_, ?_⟩
  · rw [hr.1] at hreference
    exact (Executor.BuiltFrom.conv2d_eq hcreate).trans hreference
  · rw [hsame, happend, hr.2]
    simpa [CaseReport.empty] using hdiffs

end

/-- The comparison of a variant tells how far its result is from the reference. -/
structure Told (config : SweepConfig) (input weight reference : Tensor Binary32)
    (variant : Layout × Algorithm) (diff : DiffRecord) : Prop where
  variant_eq : (diff.layout, diff.algorithm) = variant
  result : ∃ result, conv2d (dense config variant) input weight = .ok result ∧
    reference.dims = result.dims ∧ reference.Tells result diff.maxRelative

theorem Compares.told {config : SweepConfig} {input weight reference : Tensor Binary32}
    {variant : Layout × Algorithm} {diff : DiffRecord}
    (h : Compares config input weight reference variant diff) :
    Told config input weight reference variant diff := by
  rcases h.result with ⟨result, hconv, _, hmax⟩
  exact ⟨h.variant_eq, result, hconv, Tensor.of_maxRelativeError hmax⟩

/--
The largest relative error of two tensors of one shape tells how far they are from each other where
both are finite, and nothing else.  The comparisons of a case that runs to its end tell the same of
the results of the dense variants, whatever the session does.
-/
theorem comparisons_tell [MonadSweep (EStateM Failure σ)] (s t : Tensor Binary32)
    (config : SweepConfig) (shape : FilterShape) (weight : Tensor Binary32)
    (pool : Array Binary32) :
    (s.dims = t.dims → ∃ f, s.maxRelativeError t = .ok f ∧ s.Tells t f) ∧
    ∀ (before after : σ) (report : CaseReport),
      (runCase config shape weight pool : EStateM Failure σ CaseReport) before =
        .ok report after →
      ∃ input reference, Tensor.ofPrefix (config.inputDims shape) pool = .ok input ∧
        conv2d (dense config (.nchw, .direct)) input weight = .ok reference ∧
        List.Forall₂ (Told config input weight reference) comparedVariants
          report.diffs.toList := by
  refine ⟨fun hdims => Tensor.maxRelativeError_tells hdims, fun before after report hrun => ?_⟩
  rcases yields_runCase shape pool before report after hrun with
    ⟨input, reference, hinput, hreference, hcompares⟩
  exact ⟨input, reference, hinput, hreference, hcompares.imp fun _ _ => Compares.told⟩

/-- The report of a case, if it ran to its end. -/
def report? : EStateM.Result Failure Session CaseReport → Option CaseReport
  | .ok report _ => some report
  | .error _ _ => none

theorem of_report? {ending : EStateM.Result Failure Session CaseReport} {report : CaseReport}
    (h : report? ending = some report) : ∃ after, ending = .ok report after := by
  cases ending with
  | ok report' after =>
      cases h
      exact ⟨after, rfl⟩
  | error f after =>
      cases h

theorem of_toOption {x : Outcome α} {a : α} (h : x.toOption = some a) : x = .ok a := by
  cases x with
  | ok b =>
      cases h
      rfl
  | error f =>
      cases h

/-- Two elements. -/
def pair (x y : Binary32) : Tensor Binary32 where
  shape := ⟨[2], [1], 2, by decide, by decide, by decide⟩
  data := #[x, y]
  size_eq := rfl

/-- An infinity at the first place does not hide the difference of `1` and `3/2` at the second, and
a case of one element without percentages is compared to its end. -/
theorem comparisons_tell_pair :
    (∃ f, (pair ⟨0x7f800000⟩ 1).maxRelativeError (pair 1 ⟨0x3fc00000⟩) = .ok f ∧
      denseTolerance < f) ∧
    ∃ (report : CaseReport) (after : Session) (input reference : Tensor Binary32),
      (runCase { hasty with percentiles := [] } ⟨1, 1, 1, 1⟩ (point 1) #[1] :
        SessionM CaseReport) (.start ⟨1000⟩ []) = .ok report after ∧
      List.Forall₂ (Told { hasty with percentiles := [] } input (point 1) reference)
        comparedVariants report.diffs.toList := by
  rcases @comparisons_tell Session _ (pair ⟨0x7f800000⟩ 1) (pair 1 ⟨0x3fc00000⟩)
    { hasty with percentiles := [] } ⟨1, 1, 1, 1⟩ (point 1) #[1] with ⟨htensors, hcases⟩
  constructor
  · rcases htensors rfl with ⟨f, hf, htells⟩
    refine ⟨f, hf, ?_⟩
    by_contra hbelow
    have hnear := htells.near hbelow 1 1 ⟨0x3fc00000⟩ rfl rfl rfl rfl
    have hone : (1 : Binary32).toRat = (2 ^ 23 : Nat) * 2 ^ (-23 : Int) := rfl
    have hhalf : (⟨0x3fc00000⟩ : Binary32).toRat = (3 * 2 ^ 22 : Nat) * 2 ^ (-23 : Int) := rfl
    dsimp only at hnear
    rw [hone, hhalf] at hnear
    norm_num at hnear
  · have hsome : (report? ((runCase { hasty with percentiles := [] } ⟨1, 1, 1, 1⟩ (point 1)
        #[1] : SessionM CaseReport) (.start ⟨1000⟩ []))).isSome = true := by
      decide +kernel
    rcases Option.isSome_iff_exists.mp hsome with ⟨report, hreport⟩
    rcases of_report? hreport with ⟨after, hrun⟩
    rcases hcases _ _ _ hrun with ⟨input, reference, _, _, htold⟩
    exact ⟨report, after, input, reference, hrun, htold⟩

/-- Eighteen weights of one. -/
def ones : Tensor Binary32 where
  shape := ⟨[1, 2, 3, 3], [18, 9, 3, 1], 18, by decide, by decide, by decide⟩
  data := Array.replicate 18 1
  size_eq := rfl

/-- In each of two channels `2 ^ 127` and `-2 ^ 127`, and then zeros. -/
def cancelling : Tensor Binary32 where
  shape := ⟨[1, 2, 3, 3], [18, 9, 3, 1], 18, by decide, by decide, by decide⟩
  data := #[⟨0x7f000000⟩, ⟨0xff000000⟩, 0, 0, 0, 0, 0, 0, 0,
    ⟨0x7f000000⟩, ⟨0xff000000⟩, 0, 0, 0, 0, 0, 0, 0]
  size_eq := rfl

/-- One run per variant on one input of three by three pixels. -/
def whole : SweepConfig :=
  { SweepConfig.standard with
    batch := 1, spatial := some 3, percentiles := [], padding := .valid }

/--
An infinity against a one is no error.  In a case whose sum cancels channel by channel but overflows
pixel by pixel the reference is zero, the other layout has an infinity, and the report shows a zero.
-/
theorem overflow_unseen :
    (point ⟨0x7f800000⟩).maxRelativeError (point 1) = .ok 0 ∧
      ((⟨0x7f800000⟩ : Binary32) == 1) = false ∧ ¬ denseTolerance < 0 ∧
      ∃ (report : CaseReport) (after : Session) (reference result : Tensor Binary32),
        (runCase whole ⟨1, 2, 3, 3⟩ ones cancelling.data : SessionM CaseReport)
          (.start ⟨1000⟩ []) = .ok report after ∧
        conv2d (dense whole (.nchw, .direct)) cancelling ones = .ok reference ∧
        conv2d (dense whole (.nhwc, .direct)) cancelling ones = .ok result ∧
        reference.data = #[0] ∧ result.data = #[⟨0x7f800000⟩] ∧
        report.diffs.toList.map DiffRecord.maxRelative = [0, 0, 0] := by
  refine ⟨rfl, by decide +kernel, by decide +kernel, ?_⟩
  have hreport : (report? ((runCase whole ⟨1, 2, 3, 3⟩ ones cancelling.data :
      SessionM CaseReport) (.start ⟨1000⟩ []))).map
        (fun report => report.diffs.toList.map DiffRecord.maxRelative) = some [0, 0, 0] := by
    decide +kernel
  have hreference : (conv2d (dense whole (.nchw, .direct)) cancelling ones).toOption.map
      Tensor.data = some #[0] := by
    decide +kernel
  have hresult : (conv2d (dense whole (.nhwc, .direct)) cancelling ones).toOption.map
      Tensor.data = some #[⟨0x7f800000⟩] := by
    decide +kernel
  rcases Option.map_eq_some_iff.mp hreport with ⟨report, hsome, hdiffs⟩
  rcases of_report? hsome with ⟨after, hrun⟩
  rcases Option.map_eq_some_iff.mp hreference with ⟨reference, hsome, hzero⟩
  rcases Option.map_eq_some_iff.mp hresult with ⟨result, hsome', hinfinite⟩
  exact ⟨report, after, reference, result, hrun, of_toOption hsome, of_toOption hsome', hzero,
    hinfinite, hdiffs⟩

end Sweep
end ConvSweep
