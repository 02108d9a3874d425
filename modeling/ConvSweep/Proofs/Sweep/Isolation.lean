import Mathlib
import ConvSweep.CommandLine.Run
import ConvSweep.Proofs.Sweep.Clocks
import ConvSweep.Proofs.Sweep.Sources

/-!
# Isolation of cases

A run reads one weight after the other, and cuts the input of every case out of one
pool.  What a case prints depends on neither: it is what a run prints that has this
case alone and the numbers of this case as its blob.  A failure stops the run after
the lines of all earlier cases.
-/

namespace ConvSweep

open Timed

/-!
## Checked descriptors
-/

namespace Descriptor

/-- What a descriptor guarantees of a case. -/
def Countable (shape : FilterShape) : Prop :=
  0 ∉ shape.dims ∧ shape.byteSize?.isSome

theorem of_readCase {index : Nat} {words rest : List (List Char)} {shape : FilterShape}
    (h : readCase index words = .ok (shape, rest)) : Countable shape := by
  rw [readCase] at h
  rcases bind_eq_ok h with ⟨⟨outChannels, words₁⟩, _, h⟩
  rcases bind_eq_ok h with ⟨⟨inChannels, words₂⟩, _, h⟩
  rcases bind_eq_ok h with ⟨⟨kernelRows, words₃⟩, _, h⟩
  rcases bind_eq_ok h with ⟨⟨kernelCols, words₄⟩, _, h⟩
  dsimp only at h
  split at h
  · cases h
  · rename_i hempty
    split at h
    · cases h
    · rename_i hlarge
      cases h
      constructor
      · simpa [FilterShape.isEmpty] using hempty
      · simpa [Option.isSome_iff_ne_none] using hlarge

theorem of_readCases {index count : Nat} {words : List (List Char)} {shapes : List FilterShape}
    (h : readCases index words count = .ok shapes) : ∀ shape ∈ shapes, Countable shape := by
  induction count generalizing index words shapes with
  | zero =>
      cases h
      exact fun _ hshape => absurd hshape List.not_mem_nil
  | succ count ih =>
      rcases bind_eq_ok h with ⟨⟨shape, rest⟩, hcase, h⟩
      rcases bind_eq_ok h with ⟨others, hothers, h⟩
      cases h
      intro other hother
      rcases List.mem_cons.mp hother with rfl | hother
      · exact of_readCase hcase
      · exact ih hothers other hother

theorem of_decode {bytes : ByteArray} {shapes : List FilterShape} (h : decode bytes = .ok shapes) :
    ∀ shape ∈ shapes, Countable shape := by
  rw [decode] at h
  split at h
  · rcases bind_eq_ok h with ⟨⟨count, rest⟩, _, h⟩
    rcases fault_step h with ⟨_, _, h⟩
    exact of_readCases (of_mapError h)
  · cases h

theorem Countable.exists_ofArray {shape : FilterShape} (h : Countable shape)
    {data : Array Binary32} (hsize : data.size = shape.dims.prod) :
    ∃ t, Tensor.ofArray shape.dims data = .ok t := by
  rcases Option.isSome_iff_exists.mp h.2 with ⟨length, hlength⟩
  rcases WeightReader.of_byteSize hlength with ⟨_, hbytes, hlt⟩
  exact Tensor.exists_ofArray (List.cons_ne_nil _ _) h.1 (by omega) hsize

/-- Only a short blob keeps a reader from the weights of such a case. -/
theorem Countable.short_of_readCase {shape : FilterShape} (h : Countable shape)
    {reader reader' : WeightReader} {blob : ByteArray} {first : Nat}
    (hreader : reader.At blob first) {e : Error}
    (herror : reader.readCase shape = .error e reader') :
    blob.size < 4 * (first + shape.dims.prod) := by
  rcases Nat.lt_or_ge blob.size (4 * (first + shape.dims.prod)) with hshort | henough
  · exact hshort
  · rcases Option.isSome_iff_exists.mp h.2 with ⟨length, hlength⟩
    rcases h.exists_ofArray (WeightReader.size_weightData shape _) with ⟨t, ht⟩
    rcases WeightReader.readCase_enough hreader hlength henough with ⟨after, _, _, _, hread⟩
    rw [herror, ht] at hread
    cases hread

end Descriptor

namespace CommandLine

/-!
## Visited cases
-/

/-- A case that a run reaches: its weight, the session in which it starts and how it ends. -/
structure Visit where
  shape : FilterShape
  weight : Tensor Binary32
  start : Timed
  ending : Ending CaseReport

def Visit.printed (v : Visit) : List String :=
  v.ending.printed v.start

/-- The cases that are reached one after the other, and the ending of their run. -/
inductive Visits (config : SweepConfig) (pool : Array Binary32) :
    WeightReader → List FilterShape → Timed → List Visit → Ending Unit → Prop
  | done {reader : WeightReader} {s : Timed} : Visits config pool reader [] s [] (.ok () s)
  | unread {reader reader' : WeightReader} {shape : FilterShape} {rest : List FilterShape}
      {s : Timed} {e : Error} (hread : reader.readCase shape = .error e reader') :
      Visits config pool reader (shape :: rest) s [] (.error (.error e) s)
  | failed {reader reader' : WeightReader} {shape : FilterShape} {rest : List FilterShape}
      {weight : Tensor Binary32} {s t : Timed} {f : Failure}
      (hread : reader.readCase shape = .ok weight reader')
      (hrun : (Sweep.runCase config shape weight pool : TimedM CaseReport) s = .error f t) :
      Visits config pool reader (shape :: rest) s [⟨shape, weight, s, .error f t⟩] (.error f t)
  | passed {reader reader' : WeightReader} {shape : FilterShape} {rest : List FilterShape}
      {weight : Tensor Binary32} {s t : Timed} {report : CaseReport} {visited : List Visit}
      {ending : Ending Unit} (hread : reader.readCase shape = .ok weight reader')
      (hrun : (Sweep.runCase config shape weight pool : TimedM CaseReport) s = .ok report t)
      (hrest : Visits config pool reader' rest t visited ending) :
      Visits config pool reader (shape :: rest) s (⟨shape, weight, s, .ok report t⟩ :: visited)
        ending

section

variable {config : SweepConfig} {pool : Array Binary32} {reader : WeightReader}
  {shapes : List FilterShape} {s : Timed} {visited : List Visit} {ending : Ending Unit}
  {blob : ByteArray} {first : Nat}

theorem exists_visits (config : SweepConfig) (pool : Array Binary32) (reader : WeightReader)
    (shapes : List FilterShape) (s : Timed) :
    ∃ visited, Visits config pool reader shapes s visited
      ((runCases config pool reader shapes : TimedM Unit) s) := by
  induction shapes generalizing reader s with
  | nil =>
      exact ⟨[], .done⟩
  | cons shape rest ih =>
      cases hread : reader.readCase shape with
      | error e reader' =>
          rw [runCases, hread]
          exact ⟨[], .unread hread⟩
      | ok weight reader' =>
          rw [runCases, hread]
          cases hrun : (Sweep.runCase config shape weight pool : TimedM CaseReport) s with
          | error f t =>
              dsimp only
              rw [bind_error hrun]
              exact ⟨_, .failed hread hrun⟩
          | ok report t =>
              rcases ih reader' t with ⟨visited, hvisits⟩
              dsimp only
              rw [bind_run hrun]
              exact ⟨_, .passed hread hrun hvisits⟩

/-- The cases are reached in the order of the descriptor, without a gap. -/
theorem Visits.prefix (h : Visits config pool reader shapes s visited ending) :
    visited.map Visit.shape <+: shapes := by
  induction h with
  | done =>
      exact List.prefix_refl []
  | unread _ =>
      exact List.nil_prefix
  | failed _ _ =>
      exact List.cons_prefix_cons.mpr ⟨rfl, List.nil_prefix⟩
  | passed _ _ _ ih =>
      exact List.cons_prefix_cons.mpr ⟨rfl, ih⟩

/-- The lines of the run are those of the reached cases. -/
theorem Visits.lines_eq (h : Visits config pool reader shapes s visited ending) :
    ending.session.lines = s.lines ++ (visited.map Visit.printed).flatten := by
  induction h with
  | done =>
      exact (List.append_nil _).symm
  | unread _ =>
      exact (List.append_nil _).symm
  | failed _ hrun =>
      rw [List.map_singleton, List.flatten_singleton]
      exact Sweep.lines_of_runCase hrun
  | passed _ hrun _ ih =>
      rw [ih, List.map_cons, List.flatten_cons, ← List.append_assoc]
      exact congrArg (· ++ _) (Sweep.lines_of_runCase hrun)

theorem Visits.earlier_succeed (h : Visits config pool reader shapes s visited ending) {i : Nat}
    {v : Visit} (hv : visited[i]? = some v) (hi : i + 1 < visited.length) :
    v.ending.failure? = none := by
  induction h generalizing i with
  | done =>
      cases hv
  | unread _ =>
      cases hv
  | failed _ _ =>
      exact absurd hi (by simp)
  | passed _ _ _ ih =>
      cases i with
      | zero =>
          cases hv
          rfl
      | succ i =>
          rw [List.getElem?_cons_succ] at hv
          exact ih hv (Nat.lt_of_succ_lt_succ hi)

/-- The numbers of the blob that belong to the first `count` cases. -/
def floatsBefore (shapes : List FilterShape) (count : Nat) : Nat :=
  ((shapes.take count).map fun shape => shape.dims.prod).sum

theorem floatsBefore_cons (shape : FilterShape) (rest : List FilterShape) (count : Nat) :
    floatsBefore (shape :: rest) (count + 1) = shape.dims.prod + floatsBefore rest count := by
  rw [floatsBefore, List.take_succ_cons, List.map_cons, List.sum_cons]
  rfl

/-- A case is reached with the reader behind the numbers of all cases before it. -/
theorem Visits.read (h : Visits config pool reader shapes s visited ending)
    (hreader : reader.At blob first) {i : Nat} {v : Visit} (hv : visited[i]? = some v) :
    (∃ before after : WeightReader, before.At blob (first + floatsBefore shapes i) ∧
      before.readCase v.shape = .ok v.weight after) ∧
      v.ending = (Sweep.runCase config v.shape v.weight pool : TimedM CaseReport) v.start := by
  induction h generalizing first i with
  | done =>
      cases hv
  | unread _ =>
      cases hv
  | failed hread hrun =>
      cases i with
      | zero =>
          cases hv
          exact ⟨⟨_, _, hreader, hread⟩, hrun.symm⟩
      | succ i =>
          cases hv
  | passed hread hrun _ ih =>
      cases i with
      | zero =>
          cases hv
          exact ⟨⟨_, _, hreader, hread⟩, hrun.symm⟩
      | succ i =>
          rw [List.getElem?_cons_succ] at hv
          rw [floatsBefore_cons, ← Nat.add_assoc]
          exact ih (WeightReader.of_readCase hreader hread).2.1 hv

/-- Where a run stops: behind its last case, with the failure of the case that it reached last, or
before a case that the blob is too short for. -/
inductive Stops (blob : ByteArray) (first : Nat) (shapes : List FilterShape)
    (visited : List Visit) (ending : Ending Unit) : Prop
  | finished (success : ending.failure? = none) (all : visited.length = shapes.length)
  | failed {v : Visit} (last : visited.getLast? = some v) (failure : v.ending.failure?.isSome)
      (same : ending.failure? = v.ending.failure?)
  | short {shape : FilterShape} (failure : ending.failure?.isSome)
      (next : shapes[visited.length]? = some shape)
      (size_lt : blob.size <
        4 * (first + floatsBefore shapes visited.length + shape.dims.prod))

theorem Visits.stops (h : Visits config pool reader shapes s visited ending)
    (hreader : reader.At blob first) (hshapes : ∀ shape ∈ shapes, Descriptor.Countable shape) :
    Stops blob first shapes visited ending := by
  induction h generalizing first with
  | done =>
      exact .finished rfl rfl
  | unread hread =>
      exact .short rfl rfl ((hshapes _ List.mem_cons_self).short_of_readCase hreader hread)
  | failed _ _ =>
      exact .failed rfl rfl rfl
  | passed hread _ _ ih =>
      have hrest := fun shape hshape => hshapes shape (List.mem_cons_of_mem _ hshape)
      cases ih (WeightReader.of_readCase hreader hread).2.1 hrest with
      | finished hsuccess hall =>
          exact .finished hsuccess (congrArg Nat.succ hall)
      | failed hlast hfailure hsame =>
          refine .failed ?_ hfailure hsame
          rw [List.getLast?_cons, hlast]
          rfl
      | short hfailure hnext hlt =>
          refine .short hfailure hnext ?_
          rw [List.length_cons, floatsBefore_cons, ← Nat.add_assoc]
          exact hlt

/-!
## Runs up to their first case
-/

theorem readFile_run {name : String} {bytes : ByteArray}
    (h : s.files.lookup name = some bytes) :
    (MonadSweep.readFile name : TimedM ByteArray) s = .ok bytes s := by
  simp only [MonadSweep.readFile, h]

variable {options : Options} {descriptor weights : ByteArray} {length : Nat}
  (hdescriptor : s.files.lookup options.descriptor = some descriptor)
  (hshapes : Descriptor.decode descriptor = .ok shapes)
  (hlength : options.sweep.inputLength shapes = .ok length)
include hdescriptor hshapes hlength

/-- What is left of a run when the length of the pool is known. -/
theorem runSweep_start :
    (runSweep options : TimedM Unit) s =
      (MonadExcept.ofExcept ((Size.reserve length).mapError Failure.fault) >>= fun _ =>
        MonadSweep.readFile options.weights >>= fun weights =>
          runCases options.sweep (Random.activations length options.seed)
            (.ofFile options.weights weights) shapes : TimedM Unit) s := by
  have hlength' : (options.sweep.inputLength shapes).mapError Failure.fault = .ok length := by
    rw [hlength]
    rfl
  rw [runSweep, bind_run (readFile_run hdescriptor), bind_run (ofExcept_run hshapes s),
    bind_run (ofExcept_run hlength' s)]

theorem runSweep_run (hpool : length < Size.bufferLimit)
    (hweights : s.files.lookup options.weights = some weights) :
    (runSweep options : TimedM Unit) s =
      (runCases options.sweep (Random.activations length options.seed)
        (.ofFile options.weights weights) shapes : TimedM Unit) s := by
  have hreserve : (Size.reserve length).mapError Failure.fault = .ok () := by
    rw [Size.reserve_of_lt hpool]
    rfl
  rw [runSweep_start hdescriptor hshapes hlength, bind_run (ofExcept_run hreserve s),
    bind_run (readFile_run hweights)]

/-- No case is reached with a pool that no buffer holds. -/
theorem runSweep_unreached (hpool : Size.bufferLimit ≤ length) :
    (runSweep options : TimedM Unit) s = .error (.fault .capacity) s := by
  have hreserve : (Size.reserve length).mapError Failure.fault = .error (.fault .capacity) := by
    rw [Size.reserve_of_le hpool]
    rfl
  rw [runSweep_start hdescriptor hshapes hlength, bind_error (ofExcept_error hreserve s)]

end

/-!
## Cases alone
-/

/-- A run with one case and the numbers of its weight as the blob, configured like another run.
Clock, file names, other files and earlier lines may differ. -/
structure RunsAlone (options : Options) (shape : FilterShape) (blob : ByteArray)
    (options' : Options) (s' : Timed) : Prop where
  sweep_eq : options'.sweep = options.sweep
  seed_eq : options'.seed = options.seed
  shapes_eq : ∃ descriptor, s'.files.lookup options'.descriptor = some descriptor ∧
    Descriptor.decode descriptor = .ok [shape]
  blob_eq : ∃ weights, s'.files.lookup options'.weights = some weights ∧
    (WeightReader.ofFile options'.weights weights).source.data = blob

/-- The case owes nothing to the run that it is part of: its weight is the stretch of the blob from
number `first` on, its input the beginning of the stream of the seed, and a run of the case alone
ends in the same way with the same lines. -/
structure Visit.Isolated (v : Visit) (options : Options) (pool : Array Binary32)
    (blob : ByteArray) (first : Nat) : Prop where
  within : 4 * (first + v.shape.dims.prod) ≤ blob.size
  weight_dims : v.weight.dims = v.shape.dims
  weight_size : v.weight.data.size = v.shape.dims.prod
  weight_eq : ∀ i < v.shape.dims.prod, v.weight.data[i]? = some (wordAt blob (first + i))
  ending_eq : v.ending =
    (Sweep.runCase options.sweep v.shape v.weight pool : TimedM CaseReport) v.start
  input_eq : ∀ input, Tensor.ofPrefix (options.sweep.inputDims v.shape) pool = .ok input →
    input.data = Random.activations (options.sweep.inputDims v.shape).prod options.seed
  alone : ∀ options' s',
    RunsAlone options v.shape
      (blob.extract (4 * first) (4 * (first + v.shape.dims.prod))) options' s' →
    Ending.failure? ((runSweep options' : TimedM Unit) s') = v.ending.failure? ∧
      ∃ printed, (Ending.session ((runSweep options' : TimedM Unit) s')).lines =
          s'.lines ++ printed ∧
        List.Forall₂ SameButTimes v.printed printed

theorem runCases_alone {config : SweepConfig} {pool : Array Binary32}
    {reader after : WeightReader} {shape : FilterShape} {weight : Tensor Binary32} {s : Timed}
    (hread : reader.readCase shape = .ok weight after) :
    Ending.failure? ((runCases config pool reader [shape] : TimedM Unit) s) =
        Ending.failure? ((Sweep.runCase config shape weight pool : TimedM CaseReport) s) ∧
      Ending.session ((runCases config pool reader [shape] : TimedM Unit) s) =
        Ending.session ((Sweep.runCase config shape weight pool : TimedM CaseReport) s) := by
  rw [runCases, hread]
  dsimp only
  cases hrun : (Sweep.runCase config shape weight pool : TimedM CaseReport) s with
  | error f t =>
      rw [bind_error hrun]
      exact ⟨rfl, rfl⟩
  | ok report t =>
      rw [bind_run hrun]
      exact ⟨rfl, rfl⟩

theorem Visit.isolated_of_read {options : Options} {shapes : List FilterShape} {length : Nat}
    {blob : ByteArray} {first : Nat} {v : Visit} {before after : WeightReader}
    (hlength : options.sweep.inputLength shapes = .ok length) (hpool : length < Size.bufferLimit)
    (hshape : v.shape ∈ shapes) (hbefore : before.At blob first)
    (hread : before.readCase v.shape = .ok v.weight after)
    (hrun : v.ending = (Sweep.runCase options.sweep v.shape v.weight
      (Random.activations length options.seed) : TimedM CaseReport) v.start) :
    v.Isolated options (Random.activations length options.seed) blob first := by
  rcases WeightReader.of_readCase hbefore hread with ⟨henough, _, _, htensor⟩
  rcases WeightReader.weight_of_ofArray henough htensor with ⟨hdims, hsize, hnumbers⟩
  rcases SweepConfig.inputLength_of_mem hlength hshape with ⟨hlength', hle⟩
  have hpool' := Nat.lt_of_le_of_lt hle hpool
  have hpools := Random.extract_activations hle options.seed
  refine ⟨henough, hdims, hsize, hnumbers, hrun, ?_, ?_⟩
  · intro input hinput
    rw [(Tensor.data_ofPrefix hinput).2, hpools]
  · rintro options' s' ⟨hsweep, hseed, ⟨descriptor, hdescriptor, hdecode⟩, weights, hweights, hblob⟩
    have hreader := WeightReader.at_ofFile options'.weights weights
    rw [hblob] at hreader
    rcases WeightReader.readCase_alone hbefore hread hreader with ⟨after', hread'⟩
    rw [← hsweep] at hlength' hpool'
    rw [runSweep_run hdescriptor hdecode hlength' hpool' hweights, hsweep, hseed,
      (runCases_alone hread').1, (runCases_alone hread').2]
    -- the pool of the case alone is the beginning of the longer one
    rw [← hpools, Sweep.runCase_extract]
    rcases (Sweep.alike_runCase options.sweep v.shape v.weight
      (Random.activations length options.seed)).endings v.start s' with
      ⟨hfailure, _, hlines, hsame⟩
    rw [← hrun] at hfailure hsame
    exact ⟨hfailure.symm, _, hlines, hsame⟩

/-!
## Runs
-/

/-- The cases that a run reaches are those of the descriptor in their order, it prints the lines of
one after the other, and every one of them is isolated from the others.  A failure of a case ends
the run; all cases before it have succeeded.  Only a pool that no buffer holds stops the run before
its first case. -/
theorem runSweep_isolates_cases {options : Options} {s : Timed} {descriptor weights : ByteArray}
    {shapes : List FilterShape} {length : Nat}
    (hdescriptor : s.files.lookup options.descriptor = some descriptor)
    (hshapes : Descriptor.decode descriptor = .ok shapes)
    (hlength : options.sweep.inputLength shapes = .ok length)
    (hweights : s.files.lookup options.weights = some weights) :
    (Size.bufferLimit ≤ length →
      (runSweep options : TimedM Unit) s = .error (.fault .capacity) s) ∧
    (length < Size.bufferLimit → ∃ visited : List Visit,
      Visits options.sweep (Random.activations length options.seed)
        (.ofFile options.weights weights) shapes s visited ((runSweep options : TimedM Unit) s) ∧
      visited.map Visit.shape <+: shapes ∧
      (Ending.session ((runSweep options : TimedM Unit) s)).lines =
        s.lines ++ (visited.map Visit.printed).flatten ∧
      (∀ (i : Nat) (v : Visit), visited[i]? = some v → i + 1 < visited.length →
        v.ending.failure? = none) ∧
      Stops (WeightReader.ofFile options.weights weights).source.data 0 shapes visited
        ((runSweep options : TimedM Unit) s) ∧
      ∀ (i : Nat) (v : Visit), visited[i]? = some v →
        v.Isolated options (Random.activations length options.seed)
          (WeightReader.ofFile options.weights weights).source.data
          (floatsBefore shapes i)) := by
  refine ⟨runSweep_unreached hdescriptor hshapes hlength, ?_⟩
  intro hpool
  rcases exists_visits options.sweep (Random.activations length options.seed)
    (.ofFile options.weights weights) shapes s with ⟨visited, hvisits⟩
  have hreader := WeightReader.at_ofFile options.weights weights
  rw [runSweep_run hdescriptor hshapes hlength hpool hweights]
  refine ⟨visited, hvisits, hvisits.prefix, hvisits.lines_eq,
    fun i v hv hi => hvisits.earlier_succeed hv hi,
    hvisits.stops hreader (Descriptor.of_decode hshapes), ?_⟩
  intro i v hv
  rcases hvisits.read hreader hv with ⟨⟨before, after, hbefore, hread⟩, hrun⟩
  rw [Nat.zero_add] at hbefore
  have hshape : v.shape ∈ shapes :=
    hvisits.prefix.subset (List.mem_map_of_mem (List.mem_of_getElem? hv))
  exact Visit.isolated_of_read hlength hpool hshape hbefore hread hrun

/-- Inputs of one pixel, without pruned weights. -/
def Options.pixels : Options :=
  { standard with
    sweep := { SweepConfig.standard with batch := 1, spatial := some 1, percentiles := [] } }

def pointShape : FilterShape := ⟨1, 1, 1, 1⟩

/-- Two filters of one weight each, `1` and `2`. -/
def twoPoints : Timed where
  readings n := ⟨n⟩
  taken := 0
  files := [("fmt.txt", "2 1 1 1 1 1 1 1 1".toUTF8),
    ("dat.bin", ⟨#[0, 0, 128, 63, 0, 0, 0, 64]⟩)]
  lines := []

/-- The second filter alone, with a clock that runs ever faster. -/
def secondPoint : Timed where
  readings n := ⟨n * n⟩
  taken := 0
  files := [("fmt.txt", "1 1 1 1 1".toUTF8), ("dat.bin", ⟨#[0, 0, 0, 64]⟩)]
  lines := []

/-- Both cases are reached, and the second one prints what it prints alone. -/
theorem second_point_isolated :
    Ending.failure? ((runSweep .pixels : TimedM Unit) twoPoints) = none ∧
      ∃ (visited : List Visit) (v : Visit), visited[1]? = some v ∧
        (Ending.session ((runSweep .pixels : TimedM Unit) twoPoints)).lines =
          (visited.map Visit.printed).flatten ∧
        v.weight.data[0]? = some ⟨0x40000000⟩ ∧
        List.Forall₂ SameButTimes v.printed
          (Ending.session ((runSweep .pixels : TimedM Unit) secondPoint)).lines := by
  have hsuccess : Ending.failure? ((runSweep .pixels : TimedM Unit) twoPoints) = none := by
    decide +kernel
  have hfile : twoPoints.files.lookup Options.pixels.descriptor =
      some "2 1 1 1 1 1 1 1 1".toUTF8 := rfl
  have hshapes : Descriptor.decode "2 1 1 1 1 1 1 1 1".toUTF8 = .ok [pointShape, pointShape] := by
    decide +kernel
  have hshape : Descriptor.decode "1 1 1 1 1".toUTF8 = .ok [pointShape] := by
    decide +kernel
  have hlength : Options.pixels.sweep.inputLength [pointShape, pointShape] = .ok 1 := by
    decide
  rcases (runSweep_isolates_cases hfile hshapes hlength rfl).2 (by decide) with
    ⟨visited, _, hprefix, hlines, _, hstops, hisolated⟩
  have hcount : visited.length = 2 := by
    cases hstops with
    | finished _ hall =>
        exact hall
    | failed _ hfailure hsame =>
        rw [← hsame, hsuccess] at hfailure
        cases hfailure
    | short hfailure _ _ =>
        rw [hsuccess] at hfailure
        cases hfailure
  have hv : visited[1]? = some visited[1] := List.getElem?_eq_getElem _
  have hpoint : visited[1].shape = pointShape := by
    have hmem : visited[1] ∈ visited := List.getElem_mem _
    simpa using hprefix.subset (List.mem_map_of_mem hmem)
  have h := hisolated 1 _ hv
  have halone : RunsAlone .pixels visited[1].shape ⟨#[0, 0, 0, 64]⟩ .pixels secondPoint := by
    rw [hpoint]
    exact ⟨rfl, rfl, ⟨_, rfl, hshape⟩, ⟨_, rfl, rfl⟩⟩
  have hblob : (WeightReader.ofFile Options.pixels.weights
      ⟨#[0, 0, 128, 63, 0, 0, 0, 64]⟩).source.data.extract
        (4 * floatsBefore [pointShape, pointShape] 1)
        (4 * (floatsBefore [pointShape, pointShape] 1 + visited[1].shape.dims.prod)) =
      ⟨#[0, 0, 0, 64]⟩ := by
    rw [hpoint]
    decide
  rw [← hblob] at halone
  rcases h.alone .pixels secondPoint halone with ⟨_, printed, hprinted, hsame⟩
  refine ⟨hsuccess, visited, visited[1], hv, hlines, ?_, ?_⟩
  · exact h.weight_eq 0 (by rw [hpoint]; decide)
  · rw [hprinted]
    exact hsame

end CommandLine
end ConvSweep
