import Mathlib
import ConvSweep.Proofs.Executor.Planes
import ConvSweep.Proofs.Tensor.Conversions
import ConvSweep.Proofs.Word.Calls
import ConvSweep.Proofs.Word.Construction

/-!
# Conditions of a convolution

A pair of tensors and a variant have to satisfy seven conditions, which are checked
one after the other.  The construction of an executor succeeds exactly if all of
them hold and its buffers fit memory, and otherwise it reports the first one that
does not hold; a whole convolution succeeds and fails with the construction.
-/

namespace ConvSweep

variable {α : Type}

namespace Executor

/-- What has to hold, and the error if it does not. -/
structure Condition where
  holds : Prop
  error : Error

/-- The variant is provided, and there are four extents on both sides. -/
def rankConditions (config : ExecutorConfig) (input weight : Tensor α) : List Condition :=
  [⟨¬ (config.algorithm = .sparse ∧ config.layout = .nhwc), .unsupported .sparseNhwc⟩,
    ⟨input.shape.rank = 4, .rankMismatch 4 input.shape.rank⟩,
    ⟨weight.shape.rank = 4, .rankMismatch 4 weight.shape.rank⟩]

/-- An `(F, C, K, K)` weight for an `(N, C, H, W)` input, with a middle tap and room for the
kernel. -/
def extentConditions (padding : Padding) (input weight : List Nat) : List Condition :=
  let channels := input.getD 1 0
  let height := input.getD 2 0
  let width := input.getD 3 0
  let kernel := weight.getD 2 0
  [⟨∃ filters, weight = [filters, channels, kernel, kernel],
      .shapeMismatch (.weightExtents weight input channels)⟩,
    ⟨kernel % 2 = 1, .evenKernel kernel⟩,
    ⟨padding = .valid → kernel ≤ height ∧ kernel ≤ width, .kernelTooLarge kernel height width⟩]

/-- All conditions in their order. -/
def conditions (config : ExecutorConfig) (input weight : Tensor α) : List Condition :=
  rankConditions config input weight ++ extentConditions config.padding input.dims weight.dims ++
    [⟨config.algorithm = .sparse → Percentile.InRange config.percentile,
      .invalidPercentile config.percentile⟩]

/-- The error belongs to the first condition that does not hold. -/
inductive FirstFailed : List Condition → Error → Prop
  | here {condition : Condition} {rest : List Condition} (h : ¬ condition.holds) :
      FirstFailed (condition :: rest) condition.error
  | later {condition : Condition} {rest : List Condition} {error : Error}
      (h : condition.holds) (hrest : FirstFailed rest error) :
      FirstFailed (condition :: rest) error

namespace FirstFailed

variable {first rest : List Condition} {error error' : Error}

theorem not_all (h : FirstFailed first error) : ¬ ∀ condition ∈ first, condition.holds := by
  induction h with
  | here hfails =>
      exact fun hall => hfails (hall _ List.mem_cons_self)
  | later _ _ ih =>
      exact fun hall => ih fun condition hmem => hall condition (List.mem_cons_of_mem _ hmem)

theorem unique (h : FirstFailed first error) (h' : FirstFailed first error') : error = error' := by
  induction h with
  | here hfails =>
      cases h' with
      | here _ =>
          rfl
      | later hholds _ =>
          exact absurd hholds hfails
  | later hholds _ ih =>
      cases h' with
      | here hfails =>
          exact absurd hholds hfails
      | later _ hrest =>
          exact ih hrest

theorem append (h : FirstFailed first error) : FirstFailed (first ++ rest) error := by
  induction h with
  | here hfails =>
      exact .here hfails
  | later hholds _ ih =>
      exact .later hholds ih

theorem after (hall : ∀ condition ∈ first, condition.holds) (h : FirstFailed rest error) :
    FirstFailed (first ++ rest) error := by
  induction first with
  | nil =>
      exact h
  | cons condition others ih =>
      exact .later (hall condition List.mem_cons_self)
        (ih fun condition' hmem => hall condition' (List.mem_cons_of_mem _ hmem))

end FirstFailed

/-!
## Checks
-/

/-- The step succeeds and its conditions hold, or it reports the first one that does not. -/
def Decides {β : Type} (conditions : List Condition) (step : Outcome β) : Prop :=
  (∃ b, step = .ok b ∧ ∀ condition ∈ conditions, condition.holds) ∨
    ∃ error, step = .error (.error error) ∧ FirstFailed conditions error

section

variable {config : ExecutorConfig} {input weight : Tensor α}

theorem decides_ofShapes {input weight : Shape} {n c h w f c' k l : Nat}
    (hinput : input.dims = [n, c, h, w]) (hweight : weight.dims = [f, c', k, l])
    (padding : Padding) :
    Decides (extentConditions padding input.dims weight.dims)
      (liftM (Problem.ofShapes input weight padding) : Outcome Problem) := by
  rw [Problem.ofShapes_quad hinput hweight, hinput, hweight]
  by_cases hextents : c = c' ∧ k = l
  · rcases hextents with ⟨rfl, rfl⟩
    rw [if_pos ⟨rfl, rfl⟩, Problem.check]
    by_cases heven : k % 2 = 0
    · right
      rw [if_pos heven]
      exact ⟨_, rfl, .later ⟨f, rfl⟩ (.here (show ¬ k % 2 = 1 by omega))⟩
    · have hodd : k % 2 = 1 := by omega
      rw [if_neg heven]
      by_cases hlarge : padding = .valid ∧ (h < k ∨ w < k)
      · right
        rw [if_pos hlarge]
        refine ⟨_, rfl, .later ⟨f, rfl⟩ (.later hodd (.here ?_))⟩
        intro hfits
        have hle : k ≤ h ∧ k ≤ w := hfits hlarge.1
        omega
      · left
        rw [if_neg hlarge]
        refine ⟨_, rfl, ?_⟩
        simp only [extentConditions, List.forall_mem_cons]
        refine ⟨⟨f, rfl⟩, hodd, fun hvalid => ?_, List.forall_mem_nil _⟩
        show k ≤ h ∧ k ≤ w
        by_contra hnot
        exact hlarge ⟨hvalid, by omega⟩
  · right
    rw [if_neg hextents]
    refine ⟨_, rfl, .here ?_⟩
    rintro ⟨filters, hsquare⟩
    have hlist : [f, c', k, l] = [filters, c, k, k] := hsquare
    cases hlist
    exact hextents ⟨rfl, rfl⟩

theorem decides_checkPair (config : ExecutorConfig) (input weight : Tensor α) :
    Decides (rankConditions config input weight ++
        extentConditions config.padding input.dims weight.dims)
      (liftM (checkPair config input weight) : Outcome Problem) := by
  by_cases hlayout : config.algorithm = .sparse ∧ config.layout = .nhwc
  · right
    refine ⟨_, ?_, .here (not_not.mpr hlayout)⟩
    rw [checkPair, if_pos hlayout]
    rfl
  by_cases hinput : input.shape.rank ≠ 4
  · right
    refine ⟨_, ?_, .later hlayout (.here hinput)⟩
    rw [checkPair, if_neg hlayout, if_pos hinput]
    rfl
  by_cases hweight : weight.shape.rank ≠ 4
  · right
    refine ⟨_, ?_, .later hlayout (.later (not_not.mp hinput) (.here hweight))⟩
    rw [checkPair, if_neg hlayout, if_neg hinput, if_pos hweight]
    rfl
  have hranks : ∀ condition ∈ rankConditions config input weight, condition.holds := by
    simp only [rankConditions, List.forall_mem_cons]
    exact ⟨hlayout, not_not.mp hinput, not_not.mp hweight, List.forall_mem_nil _⟩
  have hcheck : checkPair config input weight =
      Problem.ofShapes input.shape weight.shape config.padding := by
    rw [checkPair, if_neg hlayout, if_neg hinput, if_neg hweight]
  rcases List.length_eq_four.mp (not_not.mp hinput) with ⟨n, c, h, w, hin⟩
  rcases List.length_eq_four.mp (not_not.mp hweight) with ⟨f, c', k, l, hwt⟩
  rw [hcheck]
  rcases decides_ofShapes hin hwt config.padding with ⟨p, hp, hall⟩ | ⟨error, herror, hfirst⟩
  · left
    exact ⟨p, hp, fun condition hmem => (List.mem_append.mp hmem).elim (hranks condition)
      (hall condition)⟩
  · right
    exact ⟨error, herror, hfirst.after hranks⟩

end

/-!
## Construction
-/

section

variable [Zero α] [PruningOrder α] {config : ExecutorConfig} {input weight : Tensor α}

/-- A percentage is checked after the buffers have been allocated. -/
theorem Accepts.create_invalid {p : Problem} (hp : Accepts config input weight p)
    (hlayout : ¬ (config.algorithm = .sparse ∧ config.layout = .nhwc))
    (hfits : p.FitsMemory config) (hsparse : config.algorithm = .sparse)
    (hrange : ¬ Percentile.InRange config.percentile) (denseTile : Nat) :
    create config denseTile input weight =
      .error (.error (.invalidPercentile config.percentile)) := by
  have hpatches : config.algorithm ≠ .direct := by simp [hsparse]
  have houtput : (outputDims config.layout p).prod < Size.bufferLimit := by
    rw [prod_outputDims]
    exact hfits.output_lt
  rcases hp.exists_prepare hfits with ⟨⟨input', weight'⟩, hprepare⟩
  rcases exists_output (α := α) hp.admissible houtput with ⟨output, hzeros⟩
  rcases PatchBuffer.exists_create (α := α) .channelMajor hp.admissible.expandable hp.outputFits
    (hfits.patches_lt hpatches) with ⟨buffer, hbuffer⟩
  have hprune : pruneWeight p weight' config.percentile =
      .error (.error (.invalidPercentile config.percentile)) := by
    rw [pruneWeight, Percentile.ofNumber_of_not_inRange hrange]
    rfl
  have hplan : createPlan config p weight' =
      .error (.error (.invalidPercentile config.percentile)) := by
    rw [createPlan, hsparse]
    dsimp only
    rw [hbuffer, ok_bind, hprune]
    rfl
  rw [create, checkPair_eq_ok_iff.mpr ⟨hlayout, hp⟩, error_ok_bind, hprepare, ok_bind]
  dsimp only
  rw [hzeros, ok_bind, hplan]
  rfl

theorem decides_create (hmemory : ∀ p, Accepts config input weight p → p.FitsMemory config)
    (denseTile : Nat) :
    Decides (conditions config input weight) (create config denseTile input weight) := by
  rcases decides_checkPair config input weight with ⟨p, hcheck, hall⟩ | ⟨error, herror, hfirst⟩
  · have hcheck' := of_error_lift hcheck
    have hlayout := not_sparse_nhwc hcheck'
    have hp := accepts_of_checkPair hcheck'
    by_cases hrange : config.algorithm = .sparse → Percentile.InRange config.percentile
    · left
      rcases hp.exists_create hlayout (hmemory p hp)
        (fun hsparse => ⟨_, Percentile.ofNumber_of_inRange (hrange hsparse)⟩) denseTile with
        ⟨e, hcreate⟩
      refine ⟨e, hcreate, ?_⟩
      intro condition hmem
      rcases List.mem_append.mp hmem with hmem | hmem
      · exact hall condition hmem
      · rw [List.mem_singleton.mp hmem]
        exact hrange
    · right
      rcases Classical.not_imp.mp hrange with ⟨hsparse, hbad⟩
      exact ⟨_, hp.create_invalid hlayout (hmemory p hp) hsparse hbad denseTile,
        FirstFailed.after hall (.here hrange)⟩
  · right
    refine ⟨error, ?_, hfirst.append⟩
    rw [create, herror]
    rfl

/-- Without the conditions on memory: an executor exists if it may and if its buffers fit. -/
theorem exists_create_iff (denseTile : Nat) :
    (∃ e, create config denseTile input weight = .ok e) ↔
      (∀ condition ∈ conditions config input weight, condition.holds) ∧
        ∀ p, Accepts config input weight p → p.FitsMemory config := by
  constructor
  · rintro ⟨e, hcreate⟩
    have hbuilt := (create_builtFrom hcreate).1
    have hmemory : ∀ p, Accepts config input weight p → p.FitsMemory config := by
      intro p hp
      rw [hp.problem_eq hbuilt.accepts rfl rfl]
      exact hbuilt.fitsMemory
    refine ⟨?_, hmemory⟩
    rcases decides_create hmemory denseTile with ⟨_, _, hall⟩ | ⟨error, herror, _⟩
    · exact hall
    · rw [hcreate] at herror
      cases herror
  · rintro ⟨hall, hmemory⟩
    rcases decides_create hmemory denseTile with ⟨e, hcreate, _⟩ | ⟨error, _, hfirst⟩
    · exact ⟨e, hcreate⟩
    · exact absurd hall hfirst.not_all

/-- What an executor of an `(N, C, H, W)` input and an `(F, C, K, K)` weight keeps of the two. -/
structure Prepared (config : ExecutorConfig) (input weight : Tensor α) (e : Executor α)
    (n c h w f k : Nat) : Prop where
  input_dims : input.dims = [n, c, h, w]
  weight_dims : weight.dims = [f, c, k, k]
  problem_eq : e.problem = ⟨n, c, f, h, w, k, config.padding⟩
  nchw : config.layout = .nchw →
    input.padNchw e.problem.border = .ok e.input ∧
      e.input.dims = [n, c, h + 2 * e.problem.border, w + 2 * e.problem.border] ∧
      e.weight = weight
  nhwc : config.layout = .nhwc →
    (input.padNchw e.problem.border >>= Tensor.toNhwc) = .ok e.input ∧
      e.input.dims = [n, h + 2 * e.problem.border, w + 2 * e.problem.border, c] ∧
      weight.toNhwc = .ok e.weight ∧ e.weight.dims = [f, k, k, c]

theorem exists_prepared {denseTile : Nat} {e : Executor α}
    (hcreate : create config denseTile input weight = .ok e) :
    ∃ n c h w f k, Prepared config input weight e n c h w f k := by
  have hbuilt := (create_builtFrom hcreate).1
  have hp := hbuilt.accepts
  have hdims := hbuilt.input_dims
  have hprepared := hbuilt.prepared
  refine ⟨_, _, _, _, _, _, hp.input_dims, hp.weight_dims, ?_, ?_, ?_⟩
  · rw [← hp.padding_eq]
  · intro hl
    rw [hl] at hdims hprepared
    rcases bind_eq_ok hprepared with ⟨padded, hpadded, hprepared⟩
    cases hprepared
    exact ⟨hpadded, hdims, rfl⟩
  · intro hl
    rw [hl] at hdims hprepared
    rcases bind_eq_ok hprepared with ⟨padded, hpadded, hprepared⟩
    rcases bind_eq_ok hprepared with ⟨turned, hturned, hprepared⟩
    cases hprepared
    exact ⟨(Tensor.toNhwcPadded_eq_ok_iff _ _ _).mp hpadded, hdims, hturned,
      (Tensor.channelsLast_of_toNhwc hp.weight_dims hturned).dims⟩

/-!
## Convolutions
-/

variable [One α] [Add α] [Mul α] [BEq α] [ZeroTest α]

theorem decides_conv2d (hmemory : ∀ p, Accepts config input weight p → p.FitsMemory config) :
    Decides (conditions config input weight) (conv2d config input weight) := by
  rcases decides_create hmemory DenseMultiply.standardTile with
    ⟨e, hcreate, hall⟩ | ⟨error, herror, hfirst⟩
  · left
    rcases conv2d_ok hcreate with ⟨r, hr, _⟩
    exact ⟨r, hr, hall⟩
  · right
    refine ⟨error, ?_, hfirst⟩
    rw [conv2d, herror]
    rfl

/-- A step that succeeds exactly if its conditions hold, and whose only other answer is the error of
the first one that does not. -/
structure Follows {β : Type} (conditions : List Condition) (step : Outcome β) : Prop where
  succeeds_iff : (∃ b, step = .ok b) ↔ ∀ condition ∈ conditions, condition.holds
  fails_iff : ∀ failure, step = .error failure ↔
    ∃ error, failure = .error error ∧ FirstFailed conditions error

omit [Zero α] [PruningOrder α] [One α] [Add α] [Mul α] [BEq α] [ZeroTest α] in
theorem Decides.follows {β : Type} {conditions : List Condition} {step : Outcome β}
    (h : Decides conditions step) : Follows conditions step := by
  rcases h with ⟨b, hstep, hall⟩ | ⟨error, hstep, hfirst⟩
  · constructor
    · exact ⟨fun _ => hall, fun _ => ⟨b, hstep⟩⟩
    · intro failure
      rw [hstep]
      exact ⟨nofun, fun ⟨_, _, hfirst⟩ => absurd hall hfirst.not_all⟩
  · constructor
    · rw [hstep]
      exact ⟨nofun, fun hall => absurd hall hfirst.not_all⟩
    · intro failure
      rw [hstep]
      constructor
      · intro hfailure
        cases hfailure
        exact ⟨error, rfl, hfirst⟩
      · rintro ⟨error', rfl, hfirst'⟩
        rw [hfirst.unique hfirst']

/-- Construction and convolution follow the conditions, also with all size operations checked, and
an executor keeps its operands with the border and in the axis order of the variant. -/
theorem follows_conditions (hsize : Sized config input weight)
    (hmemory : ∀ p, Accepts config input weight p → p.FitsMemory config) (denseTile : Nat) :
    Follows (conditions config input weight) (create config denseTile input weight) ∧
      Follows (conditions config input weight) (conv2d config input weight) ∧
      Word.create config denseTile input weight = create config denseTile input weight ∧
      Word.conv2d config input weight = conv2d config input weight ∧
      ∀ e, create config denseTile input weight = .ok e →
        ∃ n c h w f k, Prepared config input weight e n c h w f k :=
  ⟨(decides_create hmemory denseTile).follows, (decides_conv2d hmemory).follows,
    Word.create_eq config denseTile input weight, Word.conv2d_eq hsize,
    fun _ hcreate => exists_prepared hcreate⟩

end

/-- A sparse variant with a NaN for its percentage. -/
def unordered : ExecutorConfig :=
  { ExecutorConfig.standard with algorithm := .sparse, percentile := ⟨0x7fc00000⟩ }

theorem follows_conditions_unordered :
    create unordered 1 irregularInput mixedWeight =
        .error (.error (.invalidPercentile ⟨0x7fc00000⟩)) ∧
      conv2d unordered irregularInput mixedWeight =
        .error (.error (.invalidPercentile ⟨0x7fc00000⟩)) := by
  have hsize : Sized unordered irregularInput mixedWeight := by
    constructor <;> decide
  have haccepts : Accepts unordered irregularInput mixedWeight ⟨1, 1, 2, 4, 1, 3, .prepad⟩ := by
    refine ⟨?_, rfl, rfl, rfl⟩
    constructor <;> decide
  have hmemory : ∀ p, Accepts unordered irregularInput mixedWeight p → p.FitsMemory unordered := by
    intro p hp
    rw [hp.problem_eq haccepts rfl rfl]
    constructor <;> decide
  have hfirst : FirstFailed (conditions unordered irregularInput mixedWeight)
      (.invalidPercentile ⟨0x7fc00000⟩) :=
    .later (by decide) <| .later rfl <| .later rfl <| .later ⟨2, rfl⟩ <| .later rfl <|
      .later nofun <| .here fun h => absurd (h rfl) (by decide)
  rcases follows_conditions hsize hmemory 1 with ⟨hcreate, hconv, _⟩
  exact ⟨(hcreate.fails_iff _).mpr ⟨_, rfl, hfirst⟩, (hconv.fails_iff _).mpr ⟨_, rfl, hfirst⟩⟩

end Executor
end ConvSweep
