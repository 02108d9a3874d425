import Mathlib
import ConvSweep.Proofs.Matrix.Expanded

/-!
# Parts of sparse matrices

The parts of a matrix are accepted exactly when they are consistent: the rows follow
one another without a gap and end with the values, and the columns of every row ascend
below the column count.  Pruning makes consistent parts without a check.  The rows of
a consistent matrix can be read and together are all that it stores, and its dense form
shows every stored value in its place and zero in the others.
-/

namespace ConvSweep

open BufferM Loop

variable {α : Type}

/-!
## Checked construction
-/

namespace Word

/-- Where a row ends, with every index and slice checked that its test reads. -/
def rowEndOf (cols length : Nat) (rowStart rowEnd columns : Array Nat) (previous r : Nat) :
    Outcome Nat := do
  let first ← fetch rowStart r
  let last ← fetch rowEnd r
  if first ≠ previous ∨ last < first ∨ length < last then
    throw (.error (.shapeMismatch (.rowSpan r first last previous)))
  Fault.outOfRange.check (first ≤ last)
  let row ← slice columns first (last - first)
  let outside := row.toList.any fun c => cols ≤ c
  let unsorted := (row.toList.zip row.toList.tail).any fun (c, d) => d ≤ c
  if outside || unsorted then
    throw (.error (.shapeMismatch (.rowColumns r)))
  return last

def ofParts (rows cols : Nat) (rowStart rowEnd columns : Array Nat) (values : Array α) :
    Outcome (CsrMatrix α) := do
  if rowStart.size ≠ rows ∨ rowEnd.size ≠ rows then
    throw (.error (.shapeMismatch (.rowOffsets rowStart.size rowEnd.size rows)))
  if columns.size ≠ values.size then
    throw (.error (.shapeMismatch (.columnCount columns.size values.size)))
  let covered ← foldRange 0 rows (rowEndOf cols values.size rowStart rowEnd columns) 0
  if covered ≠ values.size then
    throw (.error (.shapeMismatch (.rowCover covered values.size)))
  return { rows, cols, rowStart, rowEnd, columns, values }

theorem columnsAscend_eq (cols : Nat) (cs : List Nat) :
    CsrMatrix.columnsAscend cols cs =
      !((cs.any fun c => cols ≤ c) || (cs.zip cs.tail).any fun (c, d) => d ≤ c) := by
  fun_induction CsrMatrix.columnsAscend cols cs with
  | case1 =>
      rfl
  | case2 c =>
      simp only [List.any_cons, List.any_nil, List.tail_cons, List.zip_nil_right, Bool.or_false,
        ← decide_not, Nat.not_le]
  | case3 c d rest ih =>
      rw [ih]
      simp only [List.any_cons, List.tail_cons, List.zip_cons_cons, Bool.not_or, ← Nat.not_lt,
        Bool.not_not, decide_not]
      ac_rfl

variable {cols length : Nat} {rowStart rowEnd columns : Array Nat}

theorem rowEndOf_eq (hcolumns : columns.size = length) {r first last : Nat}
    (hfirst : rowStart[r]? = some first) (hlast : rowEnd[r]? = some last) (previous : Nat) :
    rowEndOf cols length rowStart rowEnd columns previous r =
      liftM (CsrMatrix.checkRows cols length columns r previous [(first, last)]) := by
  have hfetchFirst : fetch rowStart r = .ok first := by
    rw [fetch, hfirst]
    rfl
  have hfetchLast : fetch rowEnd r = .ok last := by
    rw [fetch, hlast]
    rfl
  rw [rowEndOf, hfetchFirst, fault_ok_bind, hfetchLast, fault_ok_bind, CsrMatrix.checkRows]
  by_cases hbad : first ≠ previous ∨ last < first ∨ length < last
  · rw [if_pos hbad, if_pos hbad]
    rfl
  · have hle : first ≤ last := Nat.le_of_not_lt fun h => hbad (.inr (.inl h))
    have hend : first + (last - first) ≤ columns.size := by omega
    rw [if_neg hbad, if_neg hbad, check_of _ hle, fault_ok_bind, slice, if_pos hend, fault_ok_bind,
      Nat.add_sub_cancel' hle, columnsAscend_eq]
    dsimp only
    cases (_ || _ : Bool) <;> rfl

/-- One row after the other, the checked test answers as the test of all spans. -/
theorem foldRange_rowEndOf (hcolumns : columns.size = length)
    (hsize : rowStart.size = rowEnd.size) {r count : Nat} (hcount : r + count = rowStart.size)
    (previous : Nat) :
    foldRange r count (rowEndOf cols length rowStart rowEnd columns) previous =
      (liftM (CsrMatrix.checkRows cols length columns r previous
        ((rowStart.toList.zip rowEnd.toList).drop r)) : Outcome Nat) := by
  induction count generalizing r previous with
  | zero =>
      rw [List.drop_eq_nil_of_le (by simp; omega)]
      rfl
  | succ count ih =>
      have hstart : r < rowStart.size := by omega
      have hend : r < rowEnd.size := by omega
      have hspans : (rowStart.toList.zip rowEnd.toList).drop r =
          (rowStart[r], rowEnd[r]) :: (rowStart.toList.zip rowEnd.toList).drop (r + 1) := by
        rw [List.drop_eq_getElem_cons (by simp; omega)]
        simp
      rw [foldRange, hspans, rowEndOf_eq hcolumns (Array.getElem?_eq_getElem hstart)
        (Array.getElem?_eq_getElem hend)]
      simp only [CsrMatrix.checkRows]
      by_cases hbad : rowStart[r] ≠ previous ∨ rowEnd[r] < rowStart[r] ∨ length < rowEnd[r]
      · rw [if_pos hbad, if_pos hbad]
        rfl
      · rw [if_neg hbad, if_neg hbad]
        split
        · exact ih (by omega) _
        · rfl

/-- No index or slice of the construction leaves its buffer. -/
theorem ofParts_eq (rows cols : Nat) (rowStart rowEnd columns : Array Nat) (values : Array α) :
    ofParts rows cols rowStart rowEnd columns values =
      liftM (CsrMatrix.ofParts rows cols rowStart rowEnd columns values) := by
  rw [ofParts, CsrMatrix.ofParts]
  by_cases hoffsets : rowStart.size ≠ rows ∨ rowEnd.size ≠ rows
  · rw [if_pos hoffsets, if_pos hoffsets]
    rfl
  · rw [if_neg hoffsets, if_neg hoffsets]
    by_cases hcolumns : columns.size ≠ values.size
    · rw [if_pos hcolumns, if_pos hcolumns]
      rfl
    · have hrows : rowStart.size = rows := not_not.mp fun h => hoffsets (.inl h)
      have hsize : rowStart.size = rowEnd.size :=
        hrows.trans (not_not.mp fun h => hoffsets (.inr h)).symm
      rw [if_neg hcolumns, if_neg hcolumns,
        foldRange_rowEndOf (not_not.mp hcolumns) hsize (by omega), List.drop_zero]
      dsimp only
      cases hrows : CsrMatrix.checkRows cols values.size columns 0 0
        (rowStart.toList.zip rowEnd.toList) with
      | error e =>
          rfl
      | ok covered =>
          rw [error_ok_bind, ok_bind]
          by_cases hcover : covered ≠ values.size
          · rw [if_pos hcover, if_pos hcover]
            rfl
          · rw [if_neg hcover, if_neg hcover]
            rfl

end Word

namespace CsrMatrix

/-!
## Consistent parts
-/

/-- Stretches that follow one another without a gap, from one place to another. -/
inductive Chained : Nat → List (Nat × Nat) → Nat → Prop
  | nil {place : Nat} : Chained place [] place
  | cons {first last stop : Nat} {rest : List (Nat × Nat)} (h : Chained last rest stop) :
      Chained first ((first, last) :: rest) stop

namespace Chained

variable {start stop : Nat} {spans : List (Nat × Nat)}

theorem le (h : Chained start spans stop) (hordered : ∀ span ∈ spans, span.1 ≤ span.2) :
    start ≤ stop := by
  induction h with
  | nil =>
      exact Nat.le_refl _
  | cons _ ih =>
      exact Nat.le_trans (hordered _ List.mem_cons_self)
        (ih fun span hspan => hordered span (List.mem_cons_of_mem _ hspan))

theorem le_of_mem (h : Chained start spans stop) (hordered : ∀ span ∈ spans, span.1 ≤ span.2)
    {span : Nat × Nat} (hspan : span ∈ spans) : span.2 ≤ stop := by
  induction h with
  | nil =>
      cases hspan
  | cons h ih =>
      have hrest := fun span hspan => hordered span (List.mem_cons_of_mem _ hspan)
      rcases List.mem_cons.mp hspan with rfl | hspan
      · exact h.le hrest
      · exact ih hrest hspan

/-- The stretches of a buffer, put together, are one stretch. -/
theorem flatMap_extract {β : Type} (h : Chained start spans stop)
    (hordered : ∀ span ∈ spans, span.1 ≤ span.2) (xs : Array β) :
    (spans.flatMap fun span => (xs.extract span.1 span.2).toList) =
      (xs.extract start stop).toList := by
  induction h with
  | nil =>
      simp
  | @cons first last stop rest h ih =>
      have hrest := fun span hspan => hordered span (List.mem_cons_of_mem _ hspan)
      have hfirst : first ≤ last := hordered _ List.mem_cons_self
      rw [List.flatMap_cons, ih hrest, ← Array.toList_append, Array.extract_append_extract,
        Nat.min_eq_left hfirst, Nat.max_eq_right (h.le hrest)]

theorem spansFrom (start : Nat) (lengths : List Nat) :
    Chained start (CsrMatrix.spansFrom start lengths) (start + lengths.sum) := by
  induction lengths generalizing start with
  | nil =>
      exact .nil
  | cons length rest ih =>
      rw [List.sum_cons, ← Nat.add_assoc]
      exact .cons (ih (start + length))

theorem length_spansFrom (start : Nat) (lengths : List Nat) :
    (CsrMatrix.spansFrom start lengths).length = lengths.length := by
  induction lengths generalizing start with
  | nil =>
      rfl
  | cons length rest ih =>
      exact congrArg Nat.succ (ih (start + length))

/-- What the starts and the ends of chained stretches say one by one. -/
theorem zip_iff {starts ends : List Nat} (hlength : starts.length = ends.length) :
    Chained start (starts.zip ends) stop ↔
      (0 < starts.length → starts[0]? = some start) ∧
        (∀ r, r + 1 < starts.length → starts[r + 1]? = ends[r]?) ∧
        ends.getLast?.getD start = stop := by
  induction starts generalizing start ends with
  | nil =>
      rw [List.length_nil] at hlength
      rw [List.length_eq_zero_iff.mp hlength.symm]
      constructor
      · intro h
        cases h
        simp
      · rintro ⟨_, _, hstop⟩
        cases hstop
        exact .nil
  | cons first starts ih =>
      cases ends with
      | nil =>
          cases hlength
      | cons last ends =>
          have hrest : Chained last (starts.zip ends) stop ↔ _ := ih (Nat.succ.inj hlength)
          have hnext : (∀ r, r + 1 < (first :: starts).length →
              (first :: starts)[r + 1]? = (last :: ends)[r]?) ↔
                (0 < starts.length → starts[0]? = some last) ∧
                  ∀ r, r + 1 < starts.length → starts[r + 1]? = ends[r]? := by
            constructor
            · intro h
              exact ⟨fun hpos => h 0 (Nat.succ_lt_succ hpos),
                fun r hr => h (r + 1) (Nat.succ_lt_succ hr)⟩
            · rintro ⟨hzero, hsucc⟩ r hr
              cases r with
              | zero =>
                  exact hzero (Nat.lt_of_succ_lt_succ hr)
              | succ r =>
                  exact hsucc r (Nat.lt_of_succ_lt_succ hr)
          rw [hnext, List.getLast?_cons, Option.getD_some, and_assoc, ← hrest]
          constructor
          · intro h
            cases h with
            | cons h =>
                exact ⟨fun _ => rfl, h⟩
          · rintro ⟨hfirst, h⟩
            cases hfirst (Nat.succ_pos _)
            exact .cons h

end Chained

/-- The rows follow one another from place `0` to the end of the values, and the columns of every
row ascend below the column count. -/
structure Consistent (rows cols : Nat) (rowStart rowEnd columns : Array Nat) (values : Array α) :
    Prop where
  rowStart_size : rowStart.size = rows
  rowEnd_size : rowEnd.size = rows
  columns_size : columns.size = values.size
  starts : 0 < rows → rowStart[0]? = some 0
  follows : ∀ r, r + 1 < rows → rowStart[r + 1]? = rowEnd[r]?
  covers : rowEnd.back?.getD 0 = values.size
  ordered : ∀ (r first last : Nat), rowStart[r]? = some first → rowEnd[r]? = some last →
    first ≤ last
  ascends : ∀ (r first last : Nat), rowStart[r]? = some first → rowEnd[r]? = some last →
    (columns.extract first last).toList.Pairwise (· < ·)
  below : ∀ (r first last : Nat), rowStart[r]? = some first → rowEnd[r]? = some last →
    ∀ c ∈ columns.extract first last, c < cols

theorem checkRows_eq_ok_iff {cols length row previous covered : Nat} {columns : Array Nat}
    {spans : List (Nat × Nat)} :
    checkRows cols length columns row previous spans = .ok covered ↔
      Chained previous spans covered ∧ ∀ span ∈ spans, span.1 ≤ span.2 ∧ span.2 ≤ length ∧
        columnsAscend cols (columns.extract span.1 span.2).toList = true := by
  constructor
  · intro h
    refine ⟨?_, of_checkRows h⟩
    induction spans generalizing row previous with
    | nil =>
        cases h
        exact .nil
    | cons span rest ih =>
        rcases span with ⟨first, last⟩
        rw [checkRows] at h
        split at h
        · cases h
        · rename_i hgood
          split at h
          · cases not_not.mp fun hne => hgood (.inl hne)
            exact .cons (ih h)
          · cases h
  · rintro ⟨hchained, hgood⟩
    induction hchained generalizing row with
    | nil =>
        rfl
    | cons _ ih =>
        rcases hgood _ List.mem_cons_self with ⟨hle, hlast, hascend⟩
        rw [checkRows, if_neg (by omega), if_pos hascend]
        exact ih fun span hspan => hgood span (List.mem_cons_of_mem _ hspan)

section

variable {rows cols : Nat} {rowStart rowEnd columns : Array Nat} {values : Array α}

theorem mem_spans_iff {first last : Nat} :
    (first, last) ∈ rowStart.toList.zip rowEnd.toList ↔
      ∃ r : Nat, rowStart[r]? = some first ∧ rowEnd[r]? = some last := by
  simp only [List.mem_iff_getElem?, List.getElem?_zip_eq_some, Array.getElem?_toList]

/-- Consistent parts are those that pass the test of their sizes and the test of their spans. -/
theorem consistent_iff : Consistent rows cols rowStart rowEnd columns values ↔
    (rowStart.size = rows ∧ rowEnd.size = rows) ∧ columns.size = values.size ∧
      checkRows cols values.size columns 0 0 (rowStart.toList.zip rowEnd.toList) =
        .ok values.size := by
  have hchain (hstart : rowStart.size = rows) (hend : rowEnd.size = rows) :
      Chained 0 (rowStart.toList.zip rowEnd.toList) values.size ↔
        (0 < rows → rowStart[0]? = some 0) ∧
          (∀ r, r + 1 < rows → rowStart[r + 1]? = rowEnd[r]?) ∧
          rowEnd.back?.getD 0 = values.size := by
    rw [Chained.zip_iff (by simp [hstart, hend])]
    simp only [Array.length_toList, Array.getElem?_toList, Array.getLast?_toList, hstart]
  constructor
  · intro h
    refine ⟨⟨h.rowStart_size, h.rowEnd_size⟩, h.columns_size, checkRows_eq_ok_iff.mpr ?_⟩
    have hchained := (hchain h.rowStart_size h.rowEnd_size).mpr ⟨h.starts, h.follows, h.covers⟩
    have hordered : ∀ span ∈ rowStart.toList.zip rowEnd.toList, span.1 ≤ span.2 := by
      rintro ⟨first, last⟩ hspan
      rcases mem_spans_iff.mp hspan with ⟨r, hfirst, hlast⟩
      exact h.ordered r first last hfirst hlast
    refine ⟨hchained, ?_⟩
    rintro ⟨first, last⟩ hspan
    rcases mem_spans_iff.mp hspan with ⟨r, hfirst, hlast⟩
    refine ⟨hordered _ hspan, hchained.le_of_mem hordered hspan, ?_⟩
    rw [columnsAscend_iff]
    exact ⟨h.ascends r first last hfirst hlast,
      fun c hc => h.below r first last hfirst hlast c (Array.mem_toList_iff.mp hc)⟩
  · rintro ⟨⟨hstart, hend⟩, hcolumns, hcheck⟩
    rcases checkRows_eq_ok_iff.mp hcheck with ⟨hchained, hgood⟩
    rcases (hchain hstart hend).mp hchained with ⟨hzero, hnext, hlast⟩
    refine ⟨hstart, hend, hcolumns, hzero, hnext, hlast, ?_, ?_, ?_⟩
    · intro r first last hfirst hlast
      exact (hgood _ (mem_spans_iff.mpr ⟨r, hfirst, hlast⟩)).1
    · intro r first last hfirst hlast
      exact ((columnsAscend_iff _ _).mp
        (hgood _ (mem_spans_iff.mpr ⟨r, hfirst, hlast⟩)).2.2).1
    · intro r first last hfirst hlast c hc
      exact ((columnsAscend_iff _ _).mp
        (hgood (first, last) (mem_spans_iff.mpr ⟨r, hfirst, hlast⟩)).2.2).2 c
          (Array.mem_toList_iff.mpr hc)

/-- Consistent parts are accepted, and no others. -/
theorem ofParts_eq_ok_iff {a : CsrMatrix α} :
    ofParts rows cols rowStart rowEnd columns values = .ok a ↔
      Consistent rows cols rowStart rowEnd columns values ∧
        a = ⟨rows, cols, rowStart, rowEnd, columns, values⟩ := by
  rw [consistent_iff]
  constructor
  · intro h
    rw [ofParts] at h
    split at h
    · cases h
    · rename_i hoffsets
      split at h
      · cases h
      · rename_i hcolumns
        rcases bind_eq_ok h with ⟨covered, hcovered, h⟩
        split at h
        · cases h
        · rename_i hcover
          cases h
          cases not_not.mp hcover
          exact ⟨⟨not_or.mp hoffsets |>.imp not_not.mp not_not.mp, not_not.mp hcolumns, hcovered⟩,
            rfl⟩
  · rintro ⟨⟨⟨hstart, hend⟩, hcolumns, hcheck⟩, rfl⟩
    rw [ofParts, if_neg (by simp [hstart, hend]), if_neg (not_not.mpr hcolumns)]
    dsimp only
    rw [hcheck, ok_bind, if_neg (not_not.mpr rfl)]
    rfl

end

/-!
## Matrices of listed rows
-/

theorem span_ofRows (cols : Nat) {rows : List (List (Nat × α))} {r first last : Nat}
    (hfirst : (ofRows cols rows).rowStart[r]? = some first)
    (hlast : (ofRows cols rows).rowEnd[r]? = some last) :
    ∃ hr : r < rows.length, first ≤ last ∧
      ((ofRows cols rows).columns.extract first last).toList = rows[r].map Prod.fst := by
  have hr : r < rows.length := by
    rcases Array.getElem?_eq_some_iff.mp hfirst with ⟨hlt, _⟩
    simpa [ofRows, Chained.length_spansFrom] using hlt
  have hspan := getElem?_spansFrom 0 (rows.map List.length) (r := r) (by simpa using hr)
  rw [sum_take_succ rows hr, Nat.zero_add, Nat.zero_add] at hspan
  have hslice := slice_map_flatten Prod.fst rows hr
  rw [slice] at hslice
  split at hslice
  · refine ⟨hr, ?_⟩
    simp only [ofRows, List.getElem?_toArray, List.getElem?_map, hspan, Option.map_some,
      Option.some.injEq] at hfirst hlast
    subst hfirst hlast
    refine ⟨Nat.le_add_right _ _, ?_⟩
    exact congrArg Array.toList (Except.ok.inj hslice)
  · cases hslice

theorem consistent_ofRows {cols : Nat} {rows : List (List (Nat × α))}
    (h : ∀ row ∈ rows, (row.map Prod.fst).Sublist (List.range cols)) :
    Consistent (ofRows cols rows).rows (ofRows cols rows).cols (ofRows cols rows).rowStart
      (ofRows cols rows).rowEnd (ofRows cols rows).columns (ofRows cols rows).values := by
  have hspans : (ofRows cols rows).rowStart.toList.zip (ofRows cols rows).rowEnd.toList =
      spansFrom 0 (rows.map List.length) := by
    show List.zip ((spansFrom _ _).map Prod.fst) ((spansFrom _ _).map Prod.snd) = _
    rw [List.zip_map']
    exact List.map_id _
  have hlength : (ofRows cols rows).values.size = 0 + (rows.map List.length).sum := by
    simp only [ofRows, List.size_toArray, List.length_map, List.length_flatten, Nat.zero_add]
  refine consistent_iff.mpr ⟨⟨?_, ?_⟩, ?_, ?_⟩
  · simp [ofRows, Chained.length_spansFrom]
  · simp [ofRows, Chained.length_spansFrom]
  · simp only [ofRows, List.size_toArray, List.length_map]
  · have hchained := Chained.spansFrom 0 (rows.map List.length)
    rw [← hlength, ← hspans] at hchained
    have hrow : ∀ span ∈ (ofRows cols rows).rowStart.toList.zip (ofRows cols rows).rowEnd.toList,
        span.1 ≤ span.2 ∧ ∃ row ∈ rows,
          ((ofRows cols rows).columns.extract span.1 span.2).toList = row.map Prod.fst := by
      rintro ⟨first, last⟩ hspan
      rcases mem_spans_iff.mp hspan with ⟨r, hfirst, hlast⟩
      rcases span_ofRows cols hfirst hlast with ⟨hr, hle, hcolumns⟩
      exact ⟨hle, _, List.getElem_mem hr, hcolumns⟩
    refine checkRows_eq_ok_iff.mpr ⟨hchained, ?_⟩
    intro span hspan
    rcases hrow span hspan with ⟨hle, row, hmem, hcolumns⟩
    refine ⟨hle, hchained.le_of_mem (fun span hspan => (hrow span hspan).1) hspan, ?_⟩
    rw [hcolumns, columnsAscend_iff]
    exact ⟨List.pairwise_lt_range.sublist (h row hmem),
      fun c hc => List.mem_range.mp ((h row hmem).subset hc)⟩

/-- The columns that a row keeps are in ascending order. -/
theorem keptEntries_sublist [PruningOrder α] (limit : Option α) (row : List α) :
    ((keptEntries limit row).map Prod.fst).Sublist (List.range row.length) := by
  have hall : row.zipIdx.map Prod.snd = List.range row.length := by
    rw [List.zipIdx_map_snd, ← List.range_eq_range']
  rw [keptEntries, List.map_map, ← hall]
  exact List.filter_sublist.map Prod.snd

/-- Pruning lists entries in ascending columns for every row. -/
theorem ofRows_of_prune [PruningOrder α] {p : Percentile} {weights : Array α} {rows cols : Nat}
    {a : CsrMatrix α} (h : p.prune weights rows cols = .ok a) :
    ∃ kept : List (List (Nat × α)), a = ofRows cols kept ∧
      ∀ row ∈ kept, (row.map Prod.fst).Sublist (List.range cols) := by
  refine ⟨_, Percentile.eq_of_prune h, ?_⟩
  intro row hrow
  rcases List.mem_map.mp hrow with ⟨r, hr, rfl⟩
  have hkept := keptEntries_sublist (p.threshold (matrixRow weights cols r))
    (matrixRow weights cols r)
  rw [length_matrixRow (Percentile.of_prune h).1 (List.mem_range.mp hr)] at hkept
  exact hkept

/-- However a matrix was made, its parts are consistent. -/
theorem Built.consistent [PruningOrder α] {a : CsrMatrix α} (h : a.Built) :
    Consistent a.rows a.cols a.rowStart a.rowEnd a.columns a.values := by
  have hpruned : ∀ {p : Percentile} {weights : Array α} {rows cols : Nat},
      p.prune weights rows cols = .ok a →
        Consistent a.rows a.cols a.rowStart a.rowEnd a.columns a.values := by
    intro p weights rows cols h
    rcases ofRows_of_prune h with ⟨kept, rfl, hkept⟩
    exact consistent_ofRows hkept
  cases h with
  | parts h =>
      rcases ofParts_eq_ok_iff.mp h with ⟨hconsistent, rfl⟩
      exact hconsistent
  | sparsified h =>
      exact hpruned h
  | pruned h =>
      rcases error_step h with ⟨p, _, h⟩
      exact hpruned h

/-!
## Rows and the dense form
-/

/-- The part of a stored list that belongs to a row. -/
def stretch {β : Type} (a : CsrMatrix α) (r : Nat) (stored : Array β) : Array β :=
  stored.extract (a.rowStart.getD r 0) (a.rowEnd.getD r 0)

/-- Every row can be read, and the rows in their order are all that is stored. -/
structure Partitioned (a : CsrMatrix α) : Prop where
  row_ok : ∀ r < a.rows, a.row r = .ok (a.stretch r a.columns, a.stretch r a.values)
  size_eq : ∀ r < a.rows, (a.stretch r a.columns).size = (a.stretch r a.values).size
  columns_eq : ((List.range a.rows).flatMap fun r => (a.stretch r a.columns).toList) =
    a.columns.toList
  values_eq : ((List.range a.rows).flatMap fun r => (a.stretch r a.values).toList) =
    a.values.toList

/-- A row-major buffer with the stored values in their places and zero in all others. -/
structure Expands [Zero α] (a : CsrMatrix α) (dense : Array α) : Prop where
  size_eq : dense.size = a.rows * a.cols
  stored : ∀ r < a.rows, ∀ (i c : Nat) (x : α), (a.stretch r a.columns)[i]? = some c →
    (a.stretch r a.values)[i]? = some x → dense[r * a.cols + c]? = some x
  other : ∀ r < a.rows, ∀ c < a.cols, c ∉ a.stretch r a.columns →
    dense[r * a.cols + c]? = some 0

section

variable {a : CsrMatrix α}
  (h : Consistent a.rows a.cols a.rowStart a.rowEnd a.columns a.values)
include h

theorem Consistent.exists_span {r : Nat} (hr : r < a.rows) :
    ∃ first last, a.rowStart[r]? = some first ∧ a.rowEnd[r]? = some last ∧ first ≤ last ∧
      last ≤ a.values.size := by
  have hstart : r < a.rowStart.size := Nat.lt_of_lt_of_eq hr h.rowStart_size.symm
  have hend : r < a.rowEnd.size := Nat.lt_of_lt_of_eq hr h.rowEnd_size.symm
  have hfirst := Array.getElem?_eq_getElem hstart
  have hlast := Array.getElem?_eq_getElem hend
  have hspans := (checkRows_eq_ok_iff.mp (consistent_iff.mp h).2.2).2 _
    (mem_spans_iff.mpr ⟨r, hfirst, hlast⟩)
  exact ⟨_, _, hfirst, hlast, hspans.1, hspans.2.1⟩

theorem Consistent.row_ok {r : Nat} (hr : r < a.rows) :
    a.row r = .ok (a.stretch r a.columns, a.stretch r a.values) := by
  rcases h.exists_span hr with ⟨first, last, hfirst, hlast, hle, hvalues⟩
  have hcolumns : last ≤ a.columns.size := Nat.le_trans hvalues (Nat.le_of_eq h.columns_size.symm)
  have hstop : first + (last - first) = last := Nat.add_sub_cancel' hle
  rw [row, fetch, hfirst, fetch, hlast]
  simp only [Fault.demand]
  rw [ok_bind, ok_bind, check_bind hle, slice, slice, hstop, if_pos hcolumns, if_pos hvalues,
    stretch, stretch, getD_of_getElem? hfirst, getD_of_getElem? hlast]
  rfl

theorem Consistent.size_stretch {r : Nat} :
    (a.stretch r a.columns).size = (a.stretch r a.values).size := by
  rw [stretch, stretch, Array.size_extract, Array.size_extract, h.columns_size]

theorem Consistent.flatMap_stretch {β : Type} {stored : Array β}
    (hsize : stored.size = a.values.size) :
    ((List.range a.rows).flatMap fun r => (a.stretch r stored).toList) = stored.toList := by
  rcases checkRows_eq_ok_iff.mp (consistent_iff.mp h).2.2 with ⟨hchained, hgood⟩
  have hspans : (List.range a.rows).map (fun r => (a.rowStart.getD r 0, a.rowEnd.getD r 0)) =
      a.rowStart.toList.zip a.rowEnd.toList := by
    apply List.ext_getElem?
    intro r
    rw [List.getElem?_map]
    by_cases hr : r < a.rows
    · rcases h.exists_span hr with ⟨first, last, hfirst, hlast, _⟩
      rw [List.getElem?_range hr, Option.map_some, getD_of_getElem? hfirst, getD_of_getElem? hlast,
        eq_comm, List.getElem?_zip_eq_some, Array.getElem?_toList, Array.getElem?_toList]
      exact ⟨hfirst, hlast⟩
    · rw [List.getElem?_eq_none (by simpa using hr), List.getElem?_eq_none]
      · rfl
      · simp [h.rowStart_size, h.rowEnd_size, Nat.le_of_not_lt hr]
  have hall := hchained.flatMap_extract (fun span hspan => (hgood span hspan).1) stored
  rw [← hspans, List.flatMap_map, ← hsize, Array.extract_size] at hall
  exact hall

theorem Consistent.partitioned : a.Partitioned where
  row_ok _ hr := h.row_ok hr
  size_eq _ _ := h.size_stretch
  columns_eq := h.flatMap_stretch h.columns_size
  values_eq := h.flatMap_stretch rfl

/-- The columns of a row are the places that it keeps. -/
theorem Consistent.zip_stretch {keep : Nat → Nat → Bool} {A : Nat → Nat → α}
    (ha : a.Stores a.rows a.cols keep A) {r : Nat} (hr : r < a.rows) :
    (a.stretch r a.columns).toList.zip (a.stretch r a.values).toList =
      ((List.range a.cols).filter (keep r)).map fun c => (c, A r c) := by
  have hentries := ha.entries_eq r hr
  rw [entries, h.row_ok hr] at hentries
  exact Except.ok.inj hentries

theorem Consistent.expands [Zero α] {keep : Nat → Nat → Bool} {A : Nat → Nat → α}
    (ha : a.Stores a.rows a.cols keep A) {dense : Array α} (hdense : a.toDense = .ok dense) :
    a.Expands dense := by
  have hrows := of_toDense ha hdense
  refine ⟨hrows.size_eq, ?_, ?_⟩
  · intro r hr i c x hc hx
    have hentry : (c, x) ∈ (a.stretch r a.columns).toList.zip (a.stretch r a.values).toList := by
      apply List.mem_of_getElem? (i := i)
      rw [List.getElem?_zip_eq_some, Array.getElem?_toList, Array.getElem?_toList]
      exact ⟨hc, hx⟩
    rw [h.zip_stretch ha hr] at hentry
    rcases List.mem_map.mp hentry with ⟨c', hc', hEq⟩
    cases hEq
    rcases List.mem_filter.mp hc' with ⟨hrange, hkeep⟩
    rw [hrows.getElem?_eq r hr c (List.mem_range.mp hrange), masked, if_pos hkeep]
  · intro r hr c hc hfree
    rw [hrows.getElem?_eq r hr c hc, masked, if_neg]
    intro hkeep
    have hentry : (c, A r c) ∈ ((List.range a.cols).filter (keep r)).map fun c => (c, A r c) :=
      List.mem_map_of_mem (List.mem_filter.mpr ⟨List.mem_range.mpr hc, hkeep⟩)
    rw [← h.zip_stretch ha hr] at hentry
    exact hfree (Array.mem_toList_iff.mp (List.of_mem_zip hentry).1)

end

/-- Parts are accepted exactly when they are consistent, by a construction none of whose indices
and slices leaves its buffer.  Every matrix, put together or pruned, has consistent parts, its rows
partition what it stores, and its dense form exists when it fits memory and shows the stored values
and zeros. -/
theorem representation_invariant [Zero α] [PruningOrder α] :
    (∀ (rows cols : Nat) (rowStart rowEnd columns : Array Nat) (values : Array α),
      Word.ofParts rows cols rowStart rowEnd columns values =
          liftM (ofParts rows cols rowStart rowEnd columns values) ∧
        ∀ a, ofParts rows cols rowStart rowEnd columns values = .ok a ↔
          Consistent rows cols rowStart rowEnd columns values ∧
            a = ⟨rows, cols, rowStart, rowEnd, columns, values⟩) ∧
    ∀ a : CsrMatrix α, a.Built →
      ofParts a.rows a.cols a.rowStart a.rowEnd a.columns a.values = .ok a ∧
        a.Partitioned ∧
        (a.rows * a.cols < Size.bufferLimit ↔ ∃ dense, a.toDense = .ok dense) ∧
        ∀ dense, a.toDense = .ok dense → a.Expands dense := by
  constructor
  · intro rows cols rowStart rowEnd columns values
    exact ⟨Word.ofParts_eq rows cols rowStart rowEnd columns values, fun a => ofParts_eq_ok_iff⟩
  · intro a hbuilt
    have hconsistent := hbuilt.consistent
    rcases hbuilt.stores with ⟨keep, A, ha⟩
    refine ⟨ofParts_eq_ok_iff.mpr ⟨hconsistent, rfl⟩, hconsistent.partitioned, ⟨?_, ?_⟩, ?_⟩
    · intro hsize
      rcases toDense_ok ha hsize with ⟨dense, hdense, _⟩
      exact ⟨dense, hdense⟩
    · rintro ⟨dense, hdense⟩
      exact lt_of_toDense hdense
    · intro dense hdense
      exact hconsistent.expands ha hdense

/-- A row that stores one entry, its last, and an empty row. -/
def lastOnly : CsrMatrix Binary32 :=
  ⟨2, 2, #[0, 1], #[1, 1], #[1], #[⟨0x40000000⟩]⟩

/-- Its parts are accepted, its second row is empty and its dense form has three zeros.  A matrix
that is pruned from a row with a tie and a NaN would be accepted as it is. -/
theorem lastOnly_representation :
    (ofParts 2 2 #[0, 1] #[1, 1] #[1] #[⟨0x40000000⟩] = .ok lastOnly ∧
      lastOnly.row 1 = .ok (#[], #[]) ∧
      ∃ dense, lastOnly.toDense = .ok dense ∧ dense[1]? = some ⟨0x40000000⟩ ∧
        dense[0]? = some 0 ∧ dense[2]? = some 0 ∧ dense[3]? = some 0) ∧
      ∃ a : CsrMatrix Binary32, prune #[1, 1, ⟨0x7fc00000⟩] 1 3 ⟨0x42480000⟩ = .ok a ∧
        ofParts a.rows a.cols a.rowStart a.rowEnd a.columns a.values = .ok a := by
  constructor
  · have hparts : ofParts 2 2 #[0, 1] #[1, 1] #[1] #[⟨0x40000000⟩] = .ok lastOnly := rfl
    rcases representation_invariant.2 lastOnly (.parts hparts) with
      ⟨haccepted, hrows, hexists, hexpands⟩
    rcases hexists.mp (by decide) with ⟨dense, hdense⟩
    have h := hexpands dense hdense
    refine ⟨haccepted, hrows.row_ok 1 (by decide), dense, hdense, ?_, ?_, ?_, ?_⟩
    · exact h.stored 0 (by decide) 0 1 _ rfl rfl
    · exact h.other 0 (by decide) 0 (by decide) (by simp [lastOnly, stretch])
    · exact h.other 1 (by decide) 0 (by decide) (by simp [lastOnly, stretch])
    · exact h.other 1 (by decide) 1 (by decide) (by simp [lastOnly, stretch])
  · have hok : (prune #[(1 : Binary32), 1, ⟨0x7fc00000⟩] 1 3 ⟨0x42480000⟩).isOk = true := by
      decide +kernel
    rcases exists_of_isOk hok with ⟨a, hpruned⟩
    exact ⟨a, hpruned, (representation_invariant.2 a (.pruned hpruned)).1⟩

end CsrMatrix
end ConvSweep
