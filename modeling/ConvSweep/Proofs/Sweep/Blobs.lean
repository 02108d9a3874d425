import Mathlib
import ConvSweep.Proofs.Sweep.Isolation

/-!
# Reading a blob to its end

A reader of bytes in memory has two cursors, the place in the bytes and the count of
the numbers that were read.  They agree until a case is longer than what is left: then
the bytes are used up and the count stays.  A case that cannot be counted or that has a
zero extent takes nothing.  So the numbers of the cases that succeed follow one another
in the bytes, and a blob that was written from tensors is read back as these tensors.
-/

namespace ConvSweep

/-!
## Cases without a count
-/

/-- A product of the extents, taken from the left, or the number of bytes is not representable. -/
def FilterShape.Overflows (shape : FilterShape) : Prop :=
  (∃ n, Size.limit ≤ (shape.dims.take n).prod) ∨ Size.limit ≤ 4 * shape.dims.prod

theorem FilterShape.byteSize?_eq_none_iff {shape : FilterShape} :
    shape.byteSize? = none ↔ shape.Overflows := by
  rw [Overflows, ← Size.product?_eq_none_iff]
  show (do Size.mul? (← Size.product? shape.dims) 4) = none ↔ _
  cases hsize : Size.product? shape.dims with
  | none =>
      simp
  | some size =>
      cases Size.of_product hsize
      simp [Size.mul?, Size.Fits, Nat.mul_comm]

theorem FilterShape.not_overflows_iff {shape : FilterShape} :
    ¬ shape.Overflows ↔ shape.byteSize? = some (4 * shape.dims.prod) := by
  rw [← byteSize?_eq_none_iff]
  constructor
  · intro h
    rcases Option.ne_none_iff_exists'.mp h with ⟨n, hn⟩
    rw [hn, (WeightReader.of_byteSize hn).2.1]
  · intro h
    rw [h]
    exact Option.some_ne_none _

theorem FilterShape.prod_eq_zero_iff {shape : FilterShape} :
    shape.dims.prod = 0 ↔ 0 ∈ shape.dims :=
  List.prod_eq_zero_iff

theorem FilterShape.prod_pos {shape : FilterShape} (h : 0 ∉ shape.dims) : 0 < shape.dims.prod :=
  Nat.pos_of_ne_zero fun hzero => h (prod_eq_zero_iff.mp hzero)

/-- With positive extents no product from the left exceeds the whole product. -/
theorem FilterShape.overflows_iff {shape : FilterShape} (hpos : 0 ∉ shape.dims) :
    shape.Overflows ↔ Size.limit ≤ 4 * shape.dims.prod := by
  constructor
  · rintro (⟨n, hn⟩ | hbytes)
    · have hle : (shape.dims.take n).prod ≤ shape.dims.prod := by
        apply Nat.le_of_dvd (prod_pos hpos)
        exact (List.take_sublist n shape.dims).prod_dvd_prod
      omega
    · exact hbytes
  · exact .inr

namespace WeightReader

/-!
## One case
-/

/-- The bytes that are left. -/
def remaining (r : WeightReader) : Nat :=
  r.source.remaining

/-- A reader of bytes in memory.  Its two cursors agree unless the bytes are used up. -/
structure Cursor (r : WeightReader) (bytes : ByteArray) (drained : Bool) : Prop where
  data_eq : r.source.data = bytes
  failure_eq : r.source.failure = none
  position_eq : r.source.position = if drained then bytes.size else 4 * r.consumed
  within : 4 * r.consumed ≤ bytes.size

variable {r : WeightReader} {bytes : ByteArray} {drained : Bool} {shape : FilterShape}

theorem cursor_ofBytes (bytes : ByteArray) : (ofBytes bytes).Cursor bytes false :=
  ⟨rfl, rfl, rfl, Nat.zero_le _⟩

theorem Cursor.remaining_eq (h : r.Cursor bytes drained) :
    r.remaining = if drained then 0 else bytes.size - 4 * r.consumed := by
  rw [remaining, ByteSource.remaining, h.data_eq, h.position_eq]
  cases drained with
  | true =>
      exact Nat.sub_self _
  | false =>
      rfl

theorem Cursor.remaining_drained (h : r.Cursor bytes true) : r.remaining = 0 := by
  rw [h.remaining_eq, if_pos rfl]

theorem Cursor.remaining_left (h : r.Cursor bytes false) :
    r.remaining = bytes.size - 4 * r.consumed := by
  rw [h.remaining_eq, if_neg Bool.false_ne_true]

theorem readCase_overflow (h : shape.Overflows) :
    r.readCase shape = .error (.descriptor (.uncountable shape)) r := by
  rw [readCase, FilterShape.byteSize?_eq_none_iff.mpr h]
  cases shape.size? <;> rfl

theorem readCase_zero (h : ¬ shape.Overflows) (hzero : 0 ∈ shape.dims) :
    r.readCase shape = .error (.invalidShape shape.dims) r := by
  have hbytes := FilterShape.not_overflows_iff.mp h
  have hprod := FilterShape.prod_eq_zero_iff.mpr hzero
  rw [readCase, hbytes, (of_byteSize hbytes).1, hprod]
  dsimp only
  rw [ByteSource.read, if_pos (Nat.zero_le _)]
  dsimp only
  rw [if_neg (by simp)]
  have hshape : Shape.ofDims shape.dims = .error (.invalidShape shape.dims) := by
    have hnone : Shape.ofDims? shape.dims = none := by
      rw [Shape.ofDims?, dif_neg (show shape.dims ≠ [] from List.cons_ne_nil _ _), dif_pos hzero]
    rw [Shape.ofDims, hnone]
  rw [Tensor.ofArray, hshape]
  rfl

/-- Without enough bytes a reader in memory uses up what is left, wherever it stands. -/
theorem readCase_truncated (hfailure : r.source.failure = none) (hcount : ¬ shape.Overflows)
    (hshort : r.remaining < 4 * shape.dims.prod) :
    r.readCase shape = .error (.truncated shape.dims.prod (r.remaining / 4))
      { r with source := { r.source with position := r.source.data.size } } := by
  have hbytes := FilterShape.not_overflows_iff.mp hcount
  have hleft : (r.source.data.extract r.source.position r.source.data.size).size =
      r.remaining := by
    rw [ByteArray.size_extract, Nat.min_self]
    rfl
  have hread : ¬ 4 * shape.dims.prod ≤ r.source.remaining := Nat.not_le.mpr hshort
  rw [readCase, hbytes, (of_byteSize hbytes).1]
  dsimp only
  rw [ByteSource.read, if_neg hread, hfailure]
  dsimp only
  rw [hleft, if_pos hshort]

theorem Cursor.readCase_short (h : r.Cursor bytes drained) (hcount : ¬ shape.Overflows)
    (hshort : r.remaining < 4 * shape.dims.prod) :
    ∃ r', r.readCase shape = .error (.truncated shape.dims.prod (r.remaining / 4)) r' ∧
      r'.consumed = r.consumed ∧ r'.Cursor bytes true :=
  ⟨_, readCase_truncated h.failure_eq hcount hshort, rfl, h.data_eq, h.failure_eq,
    congrArg ByteArray.size h.data_eq, h.within⟩

theorem Cursor.readCase_next (h : r.Cursor bytes drained) (hcount : ¬ shape.Overflows)
    (hpos : 0 ∉ shape.dims) (henough : 4 * shape.dims.prod ≤ r.remaining) :
    ∃ t r', r.readCase shape = .ok t r' ∧ t.dims = shape.dims ∧
      t.data.size = shape.dims.prod ∧ 4 * (r.consumed + shape.dims.prod) ≤ bytes.size ∧
      (∀ i < shape.dims.prod, t.data[i]? = some (wordAt bytes (r.consumed + i))) ∧
      r'.consumed = r.consumed + shape.dims.prod ∧ drained = false ∧ r'.Cursor bytes false := by
  have hprod := FilterShape.prod_pos hpos
  cases drained with
  | true =>
      have hleft := h.remaining_drained
      omega
  | false =>
      have hleft := h.remaining_left
      have hbytes := FilterShape.not_overflows_iff.mp hcount
      have hwithin := h.within
      have hend : 4 * (r.consumed + shape.dims.prod) ≤ bytes.size := by omega
      have hposition := h.position_eq
      rw [if_neg Bool.false_ne_true] at hposition
      have hreader : r.At bytes r.consumed := ⟨h.data_eq, hposition, hwithin⟩
      have hcountable : Descriptor.Countable shape := ⟨hpos, by rw [hbytes]; rfl⟩
      rcases hcountable.exists_ofArray
        (size_weightData shape (caseBytes bytes r.consumed shape)) with ⟨t, ht⟩
      rcases weight_of_ofArray hend ht with ⟨hdims, hsize, hnumbers⟩
      rcases readCase_enough hreader hbytes hend with ⟨r', hr', hconsumed, hfailure, hread⟩
      rw [ht] at hread
      refine ⟨t, r', hread, hdims, hsize, hend, hnumbers, hconsumed, rfl, hr'.data_eq,
        hfailure.trans h.failure_eq, ?_, ?_⟩
      · rw [hr'.position_eq, hconsumed, if_neg Bool.false_ne_true]
      · rw [hconsumed]
        exact hend

/-- How a reader answers to a case, by what the case is and how many bytes are left. -/
structure Reads (r : WeightReader) (bytes : ByteArray) (shape : FilterShape) : Prop where
  ok_iff : (∃ t r', r.readCase shape = .ok t r') ↔
    ¬ shape.Overflows ∧ 0 ∉ shape.dims ∧ 4 * shape.dims.prod ≤ r.remaining
  /-- A success is the tensor of the next numbers. -/
  tensor : ∀ t r', r.readCase shape = .ok t r' → t.dims = shape.dims ∧
    t.data.size = shape.dims.prod ∧ 4 * (r.consumed + shape.dims.prod) ≤ bytes.size ∧
    (∀ i < shape.dims.prod, t.data[i]? = some (wordAt bytes (r.consumed + i))) ∧
    r'.consumed = r.consumed + shape.dims.prod
  descriptor_iff : ∀ r', (∃ cause, r.readCase shape = .error (.descriptor cause) r') ↔
    shape.Overflows ∧ r' = r
  invalidShape_iff : ∀ r', (∃ dims, r.readCase shape = .error (.invalidShape dims) r') ↔
    ¬ shape.Overflows ∧ 0 ∈ shape.dims ∧ r' = r
  truncated_iff : ∀ expected got,
    (∃ r', r.readCase shape = .error (.truncated expected got) r') ↔
      ¬ shape.Overflows ∧ r.remaining < 4 * shape.dims.prod ∧
        expected = shape.dims.prod ∧ got = r.remaining / 4
  /-- There are no other failures, and none of them counts. -/
  failure : ∀ e r', r.readCase shape = .error e r' → r'.consumed = r.consumed ∧
    ((∃ cause, e = .descriptor cause) ∨ (∃ dims, e = .invalidShape dims) ∨
      (∃ expected got, e = .truncated expected got) ∧ r'.remaining = 0)

/-- The four cases of a reading. -/
inductive Reading (r : WeightReader) (bytes : ByteArray) (drained : Bool) (shape : FilterShape) :
    EStateM.Result Error WeightReader (Tensor Binary32) → Prop
  | overflow (h : shape.Overflows) : Reading r bytes drained shape
      (.error (.descriptor (.uncountable shape)) r)
  | zero (hcount : ¬ shape.Overflows) (h : 0 ∈ shape.dims) : Reading r bytes drained shape
      (.error (.invalidShape shape.dims) r)
  | short {r' : WeightReader} (hcount : ¬ shape.Overflows)
      (h : r.remaining < 4 * shape.dims.prod) (hconsumed : r'.consumed = r.consumed)
      (hr' : r'.Cursor bytes true) : Reading r bytes drained shape
      (.error (.truncated shape.dims.prod (r.remaining / 4)) r')
  | next {t : Tensor Binary32} {r' : WeightReader} (hcount : ¬ shape.Overflows)
      (hpos : 0 ∉ shape.dims) (h : 4 * shape.dims.prod ≤ r.remaining)
      (hdims : t.dims = shape.dims) (hsize : t.data.size = shape.dims.prod)
      (hwithin : 4 * (r.consumed + shape.dims.prod) ≤ bytes.size)
      (hnumbers : ∀ i < shape.dims.prod, t.data[i]? = some (wordAt bytes (r.consumed + i)))
      (hconsumed : r'.consumed = r.consumed + shape.dims.prod) (hdrained : drained = false)
      (hr' : r'.Cursor bytes false) : Reading r bytes drained shape (.ok t r')

theorem Cursor.reading (h : r.Cursor bytes drained) (shape : FilterShape) :
    Reading r bytes drained shape (r.readCase shape) := by
  by_cases hcount : shape.Overflows
  · rw [readCase_overflow hcount]
    exact .overflow hcount
  · by_cases hzero : 0 ∈ shape.dims
    · rw [readCase_zero hcount hzero]
      exact .zero hcount hzero
    · rcases Nat.lt_or_ge r.remaining (4 * shape.dims.prod) with hshort | henough
      · rcases h.readCase_short hcount hshort with ⟨r', hread, hconsumed, hr'⟩
        rw [hread]
        exact .short hcount hshort hconsumed hr'
      · rcases h.readCase_next hcount hzero henough with
          ⟨t, r', hread, hdims, hsize, hwithin, hnumbers, hconsumed, hdrained, hr'⟩
        rw [hread]
        exact .next hcount hzero henough hdims hsize hwithin hnumbers hconsumed hdrained hr'

theorem Cursor.reads (h : r.Cursor bytes drained) (shape : FilterShape) : r.Reads bytes shape := by
  have hcases := h.reading shape
  generalize hresult : r.readCase shape = result at hcases
  cases hcases with
  | overflow hcount =>
      constructor <;> simp [hresult, hcount, eq_comm]
  | zero hcount hzero =>
      have hprod := FilterShape.prod_eq_zero_iff.mpr hzero
      constructor <;> simp [hresult, hcount, hzero, hprod, eq_comm]
  | short hcount hshort hconsumed hr' =>
      have hzero : 0 ∉ shape.dims := fun hzero => by
        rw [FilterShape.prod_eq_zero_iff.mpr hzero] at hshort
        exact Nat.not_lt_zero _ hshort
      constructor <;>
        simp [hresult, hcount, hzero, hshort, Nat.not_le.mpr hshort, hconsumed,
          hr'.remaining_drained, eq_comm]
  | next hcount hpos henough hdims hsize hwithin hnumbers hconsumed hdrained hr' =>
      constructor <;> simp_all [Nat.not_lt.mpr henough]

/-!
## One case after the other
-/

/-- The answer to a case and the reader after it. -/
def next (r : WeightReader) (shape : FilterShape) :
    Except Error (Tensor Binary32) × WeightReader :=
  match r.readCase shape with
  | .ok t r' => (.ok t, r')
  | .error e r' => (.error e, r')

/-- The answers to the cases and the reader after them; a failure does not end the reading. -/
def readAll (r : WeightReader) :
    List FilterShape → List (Except Error (Tensor Binary32)) × WeightReader
  | [] => ([], r)
  | shape :: rest =>
      let (answer, r) := r.next shape
      let (answers, r) := readAll r rest
      (answer :: answers, r)

/-- How many numbers an answer holds. -/
def numbersIn : Except Error (Tensor Binary32) → Nat
  | .ok t => t.data.size
  | .error _ => 0

def Truncated (answer : Except Error (Tensor Binary32)) : Prop :=
  ∃ expected got, answer = .error (.truncated expected got)

/-- One reading keeps the cursors. -/
theorem Cursor.step (h : r.Cursor bytes drained) (shape : FilterShape) :
    ∃ drained', (r.next shape).2.Cursor bytes drained' ∧
      (r.next shape).2.consumed = r.consumed + numbersIn (r.next shape).1 ∧
      (drained' = true ↔ drained = true ∨ Truncated (r.next shape).1) := by
  have hreading := h.reading shape
  rw [next]
  generalize r.readCase shape = result at hreading
  cases hreading with
  | overflow _ =>
      exact ⟨drained, h, rfl, by simp [Truncated]⟩
  | zero _ _ =>
      exact ⟨drained, h, rfl, by simp [Truncated]⟩
  | short _ _ hconsumed hr' =>
      exact ⟨true, hr', hconsumed, by simp [Truncated]⟩
  | @next t r' _ _ _ _ hsize _ _ hconsumed hdrained hr' =>
      refine ⟨false, hr', ?_, by simp [Truncated, hdrained]⟩
      show r'.consumed = r.consumed + t.data.size
      rw [hconsumed, hsize]

/-- Any readings keep the cursors. -/
theorem Cursor.readAll (h : r.Cursor bytes drained) (shapes : List FilterShape) :
    ∃ drained', (r.readAll shapes).2.Cursor bytes drained' ∧
      (r.readAll shapes).2.consumed =
        r.consumed + ((r.readAll shapes).1.map numbersIn).sum ∧
      (drained' = true ↔ drained = true ∨ ∃ answer ∈ (r.readAll shapes).1, Truncated answer) := by
  induction shapes generalizing r drained with
  | nil =>
      exact ⟨drained, h, rfl, by simp [WeightReader.readAll]⟩
  | cons shape rest ih =>
      rcases h.step shape with ⟨drained₁, h₁, hconsumed₁, htruncated₁⟩
      rcases ih h₁ with ⟨drained₂, h₂, hconsumed₂, htruncated₂⟩
      refine ⟨drained₂, h₂, ?_, ?_⟩
      · show ((r.next shape).2.readAll rest).2.consumed = _
        rw [hconsumed₂, hconsumed₁, WeightReader.readAll, List.map_cons, List.sum_cons,
          Nat.add_assoc]
      · rw [htruncated₂, htruncated₁, or_assoc]
        simp only [WeightReader.readAll, List.mem_cons, exists_eq_or_imp]

/-!
## Written blobs
-/

end WeightReader

/-- The four bytes of a number, the low one first. -/
def Binary32.littleEndian (x : Binary32) : List UInt8 :=
  [x.bits.toUInt8, (x.bits >>> 8).toUInt8, (x.bits >>> 16).toUInt8, (x.bits >>> 24).toUInt8]

/-- Every bit of a word is in one of its bytes. -/
theorem Binary32.join_bytes (x : BitVec 32) :
    (x.setWidth 8).setWidth 32 ||| ((x >>> 8).setWidth 8).setWidth 32 <<< 8 |||
      ((x >>> 16).setWidth 8).setWidth 32 <<< 16 |||
      ((x >>> 24).setWidth 8).setWidth 32 <<< 24 = x := by
  apply BitVec.eq_of_getLsbD_eq
  intro i hi
  simp only [BitVec.getLsbD_or, BitVec.getLsbD_shiftLeft, BitVec.getLsbD_setWidth,
    BitVec.getLsbD_ushiftRight]
  grind

theorem Binary32.ofBytes_littleEndian (x : Binary32) :
    ofBytes x.bits.toUInt8 (x.bits >>> 8).toUInt8 (x.bits >>> 16).toUInt8
      (x.bits >>> 24).toUInt8 = x := by
  rw [ofBytes]
  congr 1
  apply UInt32.toBitVec_inj.mp
  exact join_bytes x.bits.toBitVec

/-- The numbers one after the other as bytes. -/
def blobOf (numbers : List Binary32) : ByteArray :=
  ⟨(numbers.flatMap Binary32.littleEndian).toArray⟩

theorem size_blobOf (numbers : List Binary32) : (blobOf numbers).size = 4 * numbers.length := by
  show (numbers.flatMap Binary32.littleEndian).toArray.size = _
  rw [List.size_toArray, List.length_flatMap]
  simp [Binary32.littleEndian, Nat.mul_comm]

theorem getElem?_flatMap_littleEndian (numbers : List Binary32) (i : Nat) {k : Nat} (hk : k < 4) :
    (numbers.flatMap Binary32.littleEndian)[4 * i + k]? =
      numbers[i]?.bind fun x => x.littleEndian[k]? := by
  induction numbers generalizing i with
  | nil =>
      rfl
  | cons x rest ih =>
      have hlength : x.littleEndian.length = 4 := rfl
      cases i with
      | zero =>
          rw [List.flatMap_cons, List.getElem?_append_left (by omega), Nat.mul_zero, Nat.zero_add]
          rfl
      | succ i =>
          rw [List.flatMap_cons, List.getElem?_append_right (by omega), List.getElem?_cons_succ,
            ← ih i]
          congr 1
          omega

theorem wordAt_blobOf {numbers : List Binary32} {i : Nat} {x : Binary32}
    (h : numbers[i]? = some x) : wordAt (blobOf numbers) i = x := by
  have hbyte (k : Nat) (hk : k < 4) :
      (blobOf numbers).data.getD (4 * i + k) 0 = x.littleEndian[k]?.getD 0 := by
    show (numbers.flatMap Binary32.littleEndian).toArray.getD (4 * i + k) 0 = _
    rw [Array.getD_eq_getD_getElem?, List.getElem?_toArray, getElem?_flatMap_littleEndian _ _ hk, h]
    rfl
  simp only [wordAt]
  rw [hbyte 0 (by decide), hbyte 1 (by decide), hbyte 2 (by decide), hbyte 3 (by decide)]
  exact x.ofBytes_littleEndian

namespace WeightReader

variable {r : WeightReader} {shape : FilterShape}

/-- A tensor that a buffer holds has a countable shape. -/
theorem not_overflows_of_tensor {t : Tensor Binary32}
    (hdims : t.dims = shape.dims) (hsize : t.data.size < Size.bufferLimit) :
    ¬ shape.Overflows ∧ 0 ∉ shape.dims ∧ t.data.size = shape.dims.prod := by
  have htotal : t.data.size = shape.dims.prod := by
    rw [t.size_eq, Shape.total_eq_prod]
    exact congrArg List.prod hdims
  have hpos : 0 ∉ shape.dims := hdims ▸ t.shape.dims_ne_zero
  have hlimit : 4 * Size.bufferLimit < Size.limit := by decide
  refine ⟨?_, hpos, htotal⟩
  rw [FilterShape.overflows_iff hpos]
  omega

/-- A tensor that follows other numbers in a blob is read back. -/
theorem Cursor.readCase_written {t : Tensor Binary32} {earlier later : List Binary32}
    (h : r.Cursor (blobOf (earlier ++ t.data.toList ++ later)) false)
    (hconsumed : r.consumed = earlier.length) (hdims : t.dims = shape.dims)
    (hlt : t.data.size < Size.bufferLimit) :
    ∃ r', r.readCase shape = .ok t r' ∧ r'.consumed = (earlier ++ t.data.toList).length ∧
      r'.Cursor (blobOf (earlier ++ t.data.toList ++ later)) false := by
  rcases not_overflows_of_tensor hdims hlt with ⟨hcount, hpos, hsize⟩
  have henough : 4 * shape.dims.prod ≤ r.remaining := by
    rw [h.remaining_left, size_blobOf, hconsumed, ← hsize]
    simp only [List.length_append, Array.length_toList]
    omega
  rcases h.readCase_next hcount hpos henough with
    ⟨found, r', hread, hfound, hfoundSize, _, hwords, hconsumed', _, hr'⟩
  have hsame : found = t := by
    refine Tensor.ext_data (hfound.trans hdims.symm) ?_
    apply Array.ext
    · rw [hfoundSize, hsize]
    · intro i hi hi'
      have hplace : (earlier ++ t.data.toList ++ later)[r.consumed + i]? = some t.data[i] := by
        rw [List.append_assoc, List.getElem?_append_right (by omega), hconsumed,
          Nat.add_sub_cancel_left, List.getElem?_append_left (by simpa using hi'),
          Array.getElem?_toList, Array.getElem?_eq_getElem hi']
      have hword := hwords i (by omega)
      rw [wordAt_blobOf hplace, Array.getElem?_eq_getElem hi] at hword
      exact Option.some.inj hword
  rw [hsame] at hread
  refine ⟨r', hread, ?_, hr'⟩
  rw [hconsumed', hconsumed, List.length_append, ← hsize]
  rfl

/-- Tensors that follow other numbers in a blob are read back one after the other. -/
theorem Cursor.readAll_written {earlier later : List Binary32}
    {cases : List (FilterShape × Tensor Binary32)}
    (h : r.Cursor (blobOf (earlier ++ cases.flatMap (fun c => c.2.data.toList) ++ later)) false)
    (hconsumed : r.consumed = earlier.length)
    (hcases : ∀ c ∈ cases, c.2.dims = c.1.dims ∧ c.2.data.size < Size.bufferLimit) :
    (r.readAll (cases.map Prod.fst)).1 = cases.map fun c => .ok c.2 := by
  induction cases generalizing r earlier with
  | nil =>
      rfl
  | cons c rest ih =>
      rcases hcases _ List.mem_cons_self with ⟨hdims, hlt⟩
      rw [List.flatMap_cons, ← List.append_assoc, List.append_assoc _ _ later] at h
      rcases h.readCase_written hconsumed hdims hlt with ⟨r', hread, hconsumed', hr'⟩
      rw [← List.append_assoc] at hr'
      have hrest := ih hr' hconsumed' fun c hc => hcases c (List.mem_cons_of_mem _ hc)
      rw [List.map_cons, List.map_cons, WeightReader.readAll, next, hread]
      dsimp only
      rw [hrest]

/-- The state of a reader after any cases, by the answers to them. -/
structure After (r : WeightReader) (bytes : ByteArray)
    (answers : List (Except Error (Tensor Binary32))) : Prop where
  consumed_eq : r.consumed = (answers.map numbersIn).sum
  within : 4 * r.consumed ≤ bytes.size
  drained : (∃ answer ∈ answers, Truncated answer) → r.remaining = 0
  undrained : (∀ answer ∈ answers, ¬ Truncated answer) →
    r.remaining = bytes.size - 4 * r.consumed

theorem Cursor.after {answers : List (Except Error (Tensor Binary32))}
    (h : r.Cursor bytes drained) (hconsumed : r.consumed = (answers.map numbersIn).sum)
    (hdrained : drained = true ↔ ∃ answer ∈ answers, Truncated answer) : r.After bytes answers := by
  refine ⟨hconsumed, h.within, ?_, ?_⟩
  · intro htruncated
    rw [h.remaining_eq, if_pos (hdrained.mpr htruncated)]
  · intro hnone
    have hfalse : ¬ drained = true := fun htrue => by
      rcases hdrained.mp htrue with ⟨answer, hmem, htruncated⟩
      exact hnone answer hmem htruncated
    rw [h.remaining_eq, if_neg hfalse]

/--
A reader of any bytes, after any cases: what it counted, what is left, how it answers to the
next case, and that nothing is read after the bytes ran out.  Tensors that were written one
after the other are read back.
-/
theorem answers_of_blob {cases : List (FilterShape × Tensor Binary32)}
    (hcases : ∀ c ∈ cases, c.2.dims = c.1.dims ∧ c.2.data.size < Size.bufferLimit) :
    (∀ (bytes : ByteArray) (earlier : List FilterShape) (shape : FilterShape),
      let answers := ((ofBytes bytes).readAll earlier).1
      let r := ((ofBytes bytes).readAll earlier).2
      r.After bytes answers ∧ r.Reads bytes shape ∧
        ((∃ answer ∈ answers, Truncated answer) → ¬ shape.Overflows → 0 ∉ shape.dims →
          ∃ r', r.readCase shape = .error (.truncated shape.dims.prod 0) r')) ∧
    ∀ later : List Binary32,
      ((ofBytes (blobOf (cases.flatMap (fun c => c.2.data.toList) ++ later))).readAll
        (cases.map Prod.fst)).1 = cases.map fun c => .ok c.2 := by
  refine ⟨?_, ?_⟩
  · intro bytes earlier shape answers r
    rcases (cursor_ofBytes bytes).readAll earlier with ⟨drained, hcursor, hconsumed, hdrained⟩
    have hafter : r.After bytes answers := by
      refine hcursor.after ?_ ?_
      · rw [hconsumed]
        exact Nat.zero_add _
      · rw [hdrained, or_iff_right Bool.false_ne_true]
    refine ⟨hafter, hcursor.reads shape, ?_⟩
    intro htruncated hcount hpos
    have hleft := hafter.drained htruncated
    have hprod := FilterShape.prod_pos hpos
    have hreads := (hcursor.reads shape).truncated_iff shape.dims.prod 0
    exact hreads.mpr ⟨hcount, by rw [hleft]; omega, rfl, by rw [hleft]⟩
  · intro later
    have hstart : (ofBytes (blobOf (cases.flatMap (fun c => c.2.data.toList) ++ later))).Cursor
        (blobOf ([] ++ cases.flatMap (fun c => c.2.data.toList) ++ later)) false :=
      cursor_ofBytes _
    exact hstart.readAll_written rfl hcases

def pairShape : FilterShape := ⟨2, 1, 1, 1⟩

/-- Two filters of one weight each, `1` and `-0`. -/
def pairWeights : Tensor Binary32 where
  shape := {
    dims := [2, 1, 1, 1]
    strides := [1, 1, 1, 1]
    total := 2
    dims_ne_nil := by decide
    dims_ne_zero := by decide
    measured := by decide }
  data := #[⟨0x3f800000⟩, ⟨0x80000000⟩]
  size_eq := rfl

/-- One number and three bytes of the next. -/
def sevenBytes : ByteArray := ⟨#[0, 0, 128, 63, 0, 0, 0]⟩

/-- Two numbers are read back; of seven bytes a pair finds one, and then a point finds none. -/
theorem pair_of_blob :
    ((ofBytes (blobOf [⟨0x3f800000⟩, ⟨0x80000000⟩])).readAll [pairShape]).1 = [.ok pairWeights] ∧
      ((ofBytes sevenBytes).readAll [pairShape]).1 = [.error (.truncated 2 1)] ∧
      ((ofBytes sevenBytes).readAll [pairShape]).2.consumed = 0 ∧
      ∃ r', ((ofBytes sevenBytes).readAll [pairShape]).2.readCase ⟨1, 1, 1, 1⟩ =
        .error (.truncated 1 0) r' := by
  have hcases : ∀ c ∈ [(pairShape, pairWeights)],
      c.2.dims = c.1.dims ∧ c.2.data.size < Size.bufferLimit := by
    decide
  rcases answers_of_blob hcases with ⟨hreads, hwritten⟩
  have hanswers : ((ofBytes sevenBytes).readAll [pairShape]).1 = [.error (.truncated 2 1)] := by
    rfl
  rcases hreads sevenBytes [pairShape] ⟨1, 1, 1, 1⟩ with ⟨hafter, _, hdrained⟩
  refine ⟨hwritten [], hanswers, ?_, ?_⟩
  · rw [hafter.consumed_eq, hanswers]
    rfl
  · refine hdrained ⟨_, ?_, 2, 1, rfl⟩ (FilterShape.not_overflows_iff.mpr rfl) (by decide)
    rw [hanswers]
    exact List.mem_singleton_self _

end WeightReader
end ConvSweep
