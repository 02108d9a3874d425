import Mathlib
import ConvSweep.Proofs.Tensor.Layout
import ConvSweep.Random.Synthesis
import ConvSweep.Sweep.Case
import ConvSweep.Weights

/-!
# Weights and inputs of a case

The weights of a case are the numbers of the blob that follow those of the cases
before it, and its input is the beginning of the stream of the seed.  A longer pool
begins with the shorter one, since a draw depends on the position in the stream only;
so the length of the pool does not show in the input.
-/

namespace ConvSweep

variable {α : Type}

/-!
## Values of a stream
-/

namespace Random

/-- The next `count` values as a list. -/
def values (value? : UInt32 → Option α) (s : Stream) : Nat → List α
  | 0 => []
  | count + 1 =>
      match drawFirst value? s Stream.period with
      | some (x, s) => x :: values value? s count
      | none => []

theorem toList_drawMany (value? : UInt32 → Option α) (s : Stream) (out : Array α) (count : Nat) :
    (drawMany value? s out count).toList = out.toList ++ values value? s count := by
  induction count generalizing s out with
  | zero =>
      exact (List.append_nil _).symm
  | succ count ih =>
      rw [drawMany, values]
      cases drawFirst value? s Stream.period with
      | none =>
          exact (List.append_nil _).symm
      | some drawn =>
          dsimp only
          rw [ih, Array.toList_push, List.append_assoc]
          rfl

theorem take_values (value? : UInt32 → Option α) (s : Stream) {m n : Nat} (h : m ≤ n) :
    (values value? s n).take m = values value? s m := by
  induction n generalizing s m with
  | zero =>
      rw [Nat.le_zero.mp h]
      rfl
  | succ n ih =>
      cases m with
      | zero =>
          exact List.take_zero
      | succ m =>
          rw [values, values]
          cases drawFirst value? s Stream.period with
          | none =>
              rfl
          | some drawn =>
              dsimp only
              rw [List.take_succ_cons, ih drawn.2 (Nat.le_of_succ_le_succ h)]

/-- The first activations of a seed do not depend on how many are drawn. -/
theorem extract_activations {m n : Nat} (h : m ≤ n) (seed : UInt64) :
    (activations n seed).extract 0 m = activations m seed := by
  apply Array.toList_inj.mp
  rw [Array.toList_extract, activations, activations, toList_drawMany, toList_drawMany]
  simpa using take_values activation? (.ofSeed seed) h

end Random

/-!
## Inputs
-/

/-- Only the elements that are cut off matter. -/
theorem Tensor.ofPrefix_extract (dims : List Nat) (source : Array α) :
    ofPrefix dims (source.extract 0 dims.prod) = ofPrefix dims source := by
  rcases Nat.le_total source.size dims.prod with hshort | hlong
  · rw [Array.extract_eq_self_of_le hshort]
  · unfold ofPrefix
    cases hshape : Shape.ofDims dims with
    | error e =>
        rfl
    | ok shape =>
        have htotal : shape.total = dims.prod := by
          rw [Shape.total_eq_prod, Shape.dims_ofDims hshape]
        rw [ok_bind, ok_bind, dif_pos (by rw [size_leading hlong, htotal]),
          dif_pos (by rw [htotal]; exact hlong)]
        congr 1
        refine ext_data rfl ?_
        show (source.extract 0 dims.prod).extract 0 shape.total = source.extract 0 shape.total
        rw [htotal, Array.extract_extract, Nat.zero_add, Nat.zero_add, Nat.min_self]

section

variable {m : Type → Type} [Monad m] [MonadExceptOf Failure m] [MonadSweep m]

/-- A case looks at the elements of its input only, not at the rest of the pool. -/
theorem Sweep.runCase_extract (config : SweepConfig) (shape : FilterShape)
    (weight : Tensor Binary32) (pool : Array Binary32) :
    (runCase config shape weight (pool.extract 0 (config.inputDims shape).prod) : m CaseReport) =
      runCase config shape weight pool := by
  rw [runCase, runCase, Tensor.ofPrefix_extract]

end

/-!
## Lengths
-/

namespace Size

theorem of_product {sizes : List Nat} {n : Nat} (h : product? sizes = some n) :
    n = sizes.prod := by
  have hfold : ∀ (sizes : List Nat) (first : Nat), sizes.foldlM mul? first = some n →
      n = first * sizes.prod := by
    intro sizes
    induction sizes with
    | nil =>
        intro first h
        rw [List.prod_nil, Nat.mul_one]
        exact (Option.some.inj h).symm
    | cons size rest ih =>
        intro first h
        rw [List.foldlM_cons] at h
        rcases Option.bind_eq_some_iff.mp h with ⟨product, hproduct, h⟩
        rw [mul?] at hproduct
        split at hproduct
        · cases hproduct
          rw [ih _ h, List.prod_cons, Nat.mul_assoc]
        · cases hproduct
  rw [hfold sizes 1 h, Nat.one_mul]

/-- A product fails at the first of its beginnings that is not representable. -/
theorem product?_eq_none_iff {sizes : List Nat} :
    product? sizes = none ↔ ∃ n, limit ≤ (sizes.take n).prod := by
  have hfold : ∀ (sizes : List Nat) (first : Nat), first < limit →
      (sizes.foldlM mul? first = none ↔ ∃ n, limit ≤ first * (sizes.take n).prod) := by
    intro sizes
    induction sizes with
    | nil =>
        intro first hfirst
        simp only [List.foldlM_nil, List.take_nil, List.prod_nil, Nat.mul_one, Option.pure_def,
          reduceCtorEq, false_iff, not_exists]
        exact fun _ => Nat.not_le.mpr hfirst
    | cons size rest ih =>
        intro first hfirst
        have hnext : (∃ n, limit ≤ first * ((size :: rest).take n).prod) ↔
            ∃ n, limit ≤ first * size * (rest.take n).prod := by
          constructor
          · rintro ⟨n, hn⟩
            cases n with
            | zero =>
                exact absurd hn (by simpa using hfirst)
            | succ n =>
                refine ⟨n, ?_⟩
                rw [List.take_succ_cons, List.prod_cons, ← Nat.mul_assoc] at hn
                exact hn
          · rintro ⟨n, hn⟩
            refine ⟨n + 1, ?_⟩
            rw [List.take_succ_cons, List.prod_cons, ← Nat.mul_assoc]
            exact hn
        rw [List.foldlM_cons, hnext]
        by_cases hfits : Fits (first * size)
        · simp only [mul?, if_pos hfits]
          exact ih _ hfits
        · simp only [mul?, if_neg hfits]
          exact ⟨fun _ => ⟨0, by simpa using Nat.le_of_not_lt hfits⟩, fun _ => rfl⟩
  rw [product?, hfold sizes 1 (by decide)]
  simp only [Nat.one_mul]

theorem product_eq_ok {sizes : List Nat} {n : Nat} (h : product sizes = .ok n) :
    n = sizes.prod := by
  rw [product] at h
  cases hproduct : product? sizes with
  | none =>
      rw [hproduct] at h
      cases h
  | some found =>
      rw [hproduct] at h
      cases h
      exact of_product hproduct

theorem prod_lt_of_product {sizes : List Nat} {n : Nat} (h : product sizes = .ok n) :
    sizes.prod < limit := by
  by_contra hlarge
  have hnone : product? sizes = none :=
    product?_eq_none_iff.mpr ⟨sizes.length, by rw [List.take_length]; exact Nat.le_of_not_lt hlarge⟩
  rw [product, hnone] at h
  cases h

end Size

namespace SweepConfig

variable {config : SweepConfig}

theorem le_foldl_max (sizes : List Nat) (first : Nat) :
    first ≤ sizes.foldl max first ∧ ∀ size ∈ sizes, size ≤ sizes.foldl max first := by
  induction sizes generalizing first with
  | nil =>
      exact ⟨Nat.le_refl first, fun _ hsize => absurd hsize List.not_mem_nil⟩
  | cons size rest ih =>
      rcases ih (max first size) with ⟨hfirst, hrest⟩
      refine ⟨Nat.le_trans (Nat.le_max_left _ _) hfirst, ?_⟩
      intro other hother
      rcases List.mem_cons.mp hother with rfl | hother
      · exact Nat.le_trans (Nat.le_max_right _ _) hfirst
      · exact hrest other hother

/-- The pool is long enough for every case. -/
theorem product_of_mem {shapes : List FilterShape} {length : Nat}
    (h : config.inputLength shapes = .ok length) {shape : FilterShape} (hshape : shape ∈ shapes) :
    Size.product (config.inputDims shape) = .ok (config.inputDims shape).prod ∧
      (config.inputDims shape).prod ≤ length := by
  rcases bind_eq_ok h with ⟨lengths, hlengths, h⟩
  cases h
  rcases of_mapM hlengths hshape with ⟨n, hn, hproduct⟩
  have hprod := Size.product_eq_ok hproduct
  subst hprod
  exact ⟨hproduct, (le_foldl_max lengths 0).2 _ hn⟩

/-- Each case alone needs no more than its input. -/
theorem inputLength_of_mem {shapes : List FilterShape} {length : Nat}
    (h : config.inputLength shapes = .ok length) {shape : FilterShape} (hshape : shape ∈ shapes) :
    config.inputLength [shape] = .ok (config.inputDims shape).prod ∧
      (config.inputDims shape).prod ≤ length := by
  rcases product_of_mem h hshape with ⟨hproduct, hle⟩
  refine ⟨?_, hle⟩
  rw [inputLength, List.mapM_cons, hproduct]
  show Except.ok (max 0 (config.inputDims shape).prod) = _
  rw [Nat.zero_max]

end SweepConfig

/-!
## Weights
-/

theorem wordAt_extract {blob : ByteArray} {first last i : Nat} (hi : first + i < last)
    (hlast : 4 * last ≤ blob.size) :
    wordAt (blob.extract (4 * first) (4 * last)) i = wordAt blob (first + i) := by
  have hbyte : ∀ k < 4, (blob.extract (4 * first) (4 * last)).data.getD (4 * i + k) 0 =
      blob.data.getD (4 * (first + i) + k) 0 := by
    intro k hk
    have hsize : blob.data.size = blob.size := rfl
    rw [ByteArray.data_extract, Array.getD_eq_getD_getElem?, Array.getD_eq_getD_getElem?,
      Array.getElem?_extract, if_pos (by omega)]
    congr 2
    omega
  simp only [wordAt]
  rw [hbyte 0 (by decide), hbyte 1 (by decide), hbyte 2 (by decide), hbyte 3 (by decide)]

namespace WeightReader

/-- The reader has passed the first `first` numbers of the blob. -/
structure At (reader : WeightReader) (blob : ByteArray) (first : Nat) : Prop where
  data_eq : reader.source.data = blob
  position_eq : reader.source.position = 4 * first
  within : 4 * first ≤ blob.size

theorem at_ofFile (name : String) (bytes : ByteArray) :
    (ofFile name bytes).At (ofFile name bytes).source.data 0 := by
  refine ⟨rfl, ?_, Nat.zero_le _⟩
  rw [ofFile]
  split <;> rfl

/-- The weights of a case as the reader takes them from the bytes of the case. -/
def weightData (shape : FilterShape) (bytes : ByteArray) : Array Binary32 :=
  (Array.range shape.dims.prod).map (wordAt bytes)

theorem size_weightData (shape : FilterShape) (bytes : ByteArray) :
    (weightData shape bytes).size = shape.dims.prod := by
  rw [weightData, Array.size_map, Array.size_range]

variable {reader reader' : WeightReader} {blob : ByteArray} {first : Nat} {shape : FilterShape}
  {weight : Tensor Binary32}

theorem of_byteSize {n : Nat} (h : shape.byteSize? = some n) :
    shape.size? = some shape.dims.prod ∧ n = 4 * shape.dims.prod ∧ n < Size.limit := by
  rcases Option.bind_eq_some_iff.mp h with ⟨size, hsize, hbytes⟩
  have hprod := Size.of_product hsize
  rw [Size.mul?] at hbytes
  split at hbytes
  · rename_i hfits
    cases hbytes
    subst hprod
    exact ⟨hsize, Nat.mul_comm _ _, hfits⟩
  · cases hbytes

/-- The bytes of a case, if the blob has them. -/
def caseBytes (blob : ByteArray) (first : Nat) (shape : FilterShape) : ByteArray :=
  blob.extract (4 * first) (4 * (first + shape.dims.prod))

theorem size_caseBytes (h : 4 * (first + shape.dims.prod) ≤ blob.size) :
    (caseBytes blob first shape).size = 4 * shape.dims.prod := by
  rw [caseBytes, ByteArray.size_extract]
  omega

/-- The reader after a case that was taken from its source. -/
def past (reader : WeightReader) (shape : FilterShape) : WeightReader :=
  ⟨{ reader.source with position := reader.source.position + 4 * shape.dims.prod },
    reader.consumed + shape.dims.prod⟩

/-- With enough bytes left, the tensor of the next ones decides. -/
theorem readCase_past {length : Nat} (hlength : shape.byteSize? = some length)
    (h : 4 * shape.dims.prod ≤ reader.source.remaining) :
    reader.readCase shape =
      match Tensor.ofArray shape.dims (weightData shape (reader.source.data.extract
        reader.source.position (reader.source.position + 4 * shape.dims.prod))) with
      | .ok t => .ok t (reader.past shape)
      | .error e => .error e (reader.past shape) := by
  rcases of_byteSize hlength with ⟨hsize, rfl, _⟩
  have htaken : (reader.source.data.extract reader.source.position
      (reader.source.position + 4 * shape.dims.prod)).size = 4 * shape.dims.prod := by
    rw [ByteSource.remaining] at h
    rw [ByteArray.size_extract]
    omega
  rw [readCase, hsize, hlength]
  dsimp only
  rw [ByteSource.read, if_pos h]
  dsimp only
  rw [if_neg (by omega)]
  rfl

/-- With enough bytes the tensor of the next numbers decides. -/
theorem readCase_enough (hreader : reader.At blob first) {length : Nat}
    (hlength : shape.byteSize? = some length) (h : 4 * (first + shape.dims.prod) ≤ blob.size) :
    ∃ after : WeightReader, after.At blob (first + shape.dims.prod) ∧
      after.consumed = reader.consumed + shape.dims.prod ∧
      after.source.failure = reader.source.failure ∧
      reader.readCase shape =
        match Tensor.ofArray shape.dims (weightData shape (caseBytes blob first shape)) with
        | .ok t => .ok t after
        | .error e => .error e after := by
  rcases hreader with ⟨hdata, hposition, _⟩
  have hend : 4 * first + 4 * shape.dims.prod = 4 * (first + shape.dims.prod) := by ring
  have hremaining : 4 * shape.dims.prod ≤ reader.source.remaining := by
    rw [ByteSource.remaining, hdata, hposition]
    omega
  have hread := readCase_past hlength hremaining
  rw [hdata, hposition, hend] at hread
  refine ⟨reader.past shape, ⟨hdata, ?_, h⟩, rfl, rfl, hread⟩
  rw [← hend, ← hposition]
  rfl

/-- Without enough bytes the reading fails. -/
theorem readCase_short (hreader : reader.At blob first)
    (h : blob.size < 4 * (first + shape.dims.prod)) :
    ∃ e after, reader.readCase shape = .error e after := by
  rcases hreader with ⟨hdata, hposition, _⟩
  rw [readCase]
  cases hlength : shape.byteSize? with
  | none =>
      cases shape.size? <;> exact ⟨_, _, rfl⟩
  | some length =>
      rcases of_byteSize hlength with ⟨hsize, rfl, _⟩
      rw [hsize]
      dsimp only
      rw [ByteSource.read, if_neg (by rw [ByteSource.remaining, hdata, hposition]; omega)]
      cases reader.source.failure with
      | some e =>
          exact ⟨_, _, rfl⟩
      | none =>
          dsimp only
          rw [if_pos (by rw [ByteArray.size_extract, hdata, hposition]; omega)]
          exact ⟨_, _, rfl⟩

/-- What a successful reading of a case takes from the blob. -/
theorem of_readCase (hreader : reader.At blob first)
    (h : reader.readCase shape = .ok weight reader') :
    4 * (first + shape.dims.prod) ≤ blob.size ∧ reader'.At blob (first + shape.dims.prod) ∧
      shape.byteSize?.isSome ∧
      Tensor.ofArray shape.dims (weightData shape (caseBytes blob first shape)) = .ok weight := by
  rcases Nat.lt_or_ge blob.size (4 * (first + shape.dims.prod)) with hshort | henough
  · rcases readCase_short hreader hshort with ⟨e, after, herror⟩
    rw [h] at herror
    cases herror
  · cases hlength : shape.byteSize? with
    | none =>
        rw [readCase, hlength] at h
        cases hsize : shape.size? <;> rw [hsize] at h <;> cases h
    | some length =>
        rcases readCase_enough hreader hlength henough with ⟨after, hafter, _, _, hread⟩
        rw [h] at hread
        cases htensor : Tensor.ofArray shape.dims
            (weightData shape (caseBytes blob first shape)) with
        | error e =>
            rw [htensor] at hread
            cases hread
        | ok t =>
            rw [htensor] at hread
            cases hread
            exact ⟨henough, hafter, rfl, rfl⟩

/-- A reader of the bytes of one case only reads the same weights. -/
theorem readCase_alone (hreader : reader.At blob first)
    (h : reader.readCase shape = .ok weight reader') {alone : WeightReader}
    (halone : alone.At (caseBytes blob first shape) 0) :
    ∃ after, alone.readCase shape = .ok weight after := by
  rcases of_readCase hreader h with ⟨henough, _, hlength, htensor⟩
  rcases Option.isSome_iff_exists.mp hlength with ⟨length, hlength⟩
  have hsize := size_caseBytes henough
  have hwhole : caseBytes (caseBytes blob first shape) 0 shape = caseBytes blob first shape := by
    rw [caseBytes, Nat.mul_zero, Nat.zero_add, ← hsize, ByteArray.extract_zero_size]
  rcases readCase_enough halone hlength (by rw [hsize, Nat.zero_add]) with
    ⟨after, _, _, _, hread⟩
  rw [hwhole, htensor] at hread
  exact ⟨after, hread⟩

/-- The weights of a case, number by number. -/
theorem weight_of_ofArray (henough : 4 * (first + shape.dims.prod) ≤ blob.size)
    (h : Tensor.ofArray shape.dims (weightData shape (caseBytes blob first shape)) = .ok weight) :
    weight.dims = shape.dims ∧ weight.data.size = shape.dims.prod ∧
      ∀ i < shape.dims.prod, weight.data[i]? = some (wordAt blob (first + i)) := by
  rcases Tensor.data_ofArray h with ⟨hdims, hdata⟩
  rw [hdata]
  refine ⟨hdims, by simp [weightData], ?_⟩
  intro i hi
  rw [← wordAt_extract (Nat.add_lt_add_left hi first) henough, ← caseBytes]
  simp [weightData, hi]

end WeightReader
end ConvSweep
