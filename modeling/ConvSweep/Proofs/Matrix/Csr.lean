import Mathlib
import ConvSweep.Matrix.Csr
import ConvSweep.Proofs.Outcome
import ConvSweep.Proofs.Tensor.Cells

/-!
# Contents of sparse matrices

`ofRows` stores what it is given: the entries of a row are read back unchanged.
`Stores` describes a sparse matrix by a dense one and the places that it keeps,
and `toDense` then shows the dense matrix with zeros in the other places.
-/

namespace ConvSweep

open BufferM Loop

variable {α : Type}

namespace CsrMatrix

/-!
## Rows
-/

theorem getElem?_spansFrom (start : Nat) (lengths : List Nat) {r : Nat}
    (hr : r < lengths.length) :
    (spansFrom start lengths)[r]? =
      some (start + (lengths.take r).sum, start + (lengths.take (r + 1)).sum) := by
  induction lengths generalizing start r with
  | nil =>
      cases hr
  | cons length rest ih =>
      cases r with
      | zero =>
          simp [spansFrom]
      | succ r =>
          simp only [List.length_cons] at hr
          rw [spansFrom, List.getElem?_cons_succ, ih (start + length) (by omega)]
          simp [Nat.add_assoc]

/-- The stretch of row `r` ends where the one of the row after it starts. -/
theorem sum_take_succ {β : Type} (rows : List (List β)) {r : Nat} (hr : r < rows.length) :
    ((rows.map List.length).take (r + 1)).sum =
      ((rows.map List.length).take r).sum + rows[r].length := by
  rw [List.take_add_one, List.getElem?_map, List.getElem?_eq_getElem hr]
  simp

/-- A stretch of a list of entries, read through the buffer of their parts. -/
theorem slice_map_flatten {β γ : Type} (f : β → γ) (rows : List (List β)) {r : Nat}
    (hr : r < rows.length) :
    slice (rows.flatten.map f).toArray ((rows.map List.length).take r).sum rows[r].length =
      .ok (rows[r].map f).toArray := by
  have hrow := List.drop_take_succ_flatten_eq_getElem rows r hr
  have hnext := sum_take_succ rows hr
  have hsum := List.sum_take_add_sum_drop (rows.map List.length) (r + 1)
  have hfit : ((rows.map List.length).take r).sum + rows[r].length ≤
      (rows.flatten.map f).toArray.size := by
    rw [List.size_toArray, List.length_map, List.length_flatten]
    omega
  rw [slice, if_pos hfit, List.extract_toArray, ← hnext, List.extract_eq_drop_take', ← hrow,
    List.map_drop, List.map_take]

theorem entries_ofRows (cols : Nat) {rows : List (List (Nat × α))} {r : Nat}
    (hr : r < rows.length) : (ofRows cols rows).entries r = .ok rows[r] := by
  have hspan := getElem?_spansFrom 0 (rows.map List.length) (r := r) (by simpa using hr)
  rw [sum_take_succ rows hr, Nat.zero_add, Nat.zero_add] at hspan
  have hfirst : fetch (ofRows cols rows).rowStart r =
      .ok ((rows.map List.length).take r).sum := by
    simp [fetch, ofRows, hspan, Fault.demand]
  have hlast : fetch (ofRows cols rows).rowEnd r =
      .ok (((rows.map List.length).take r).sum + rows[r].length) := by
    simp [fetch, ofRows, hspan, Fault.demand]
  have hcolumns := slice_map_flatten Prod.fst rows hr
  have hvalues := slice_map_flatten Prod.snd rows hr
  have hrow : (ofRows cols rows).row r =
      .ok ((rows[r].map Prod.fst).toArray, (rows[r].map Prod.snd).toArray) := by
    rw [row, hfirst, ok_bind, hlast, ok_bind, check_bind (Nat.le_add_right _ _),
      Nat.add_sub_cancel_left]
    dsimp only [ofRows]
    rw [hcolumns, ok_bind, hvalues, ok_bind]
    rfl
  rw [entries, hrow, ok_bind]
  show Except.ok (List.zip (rows[r].map Prod.fst) (rows[r].map Prod.snd)) = _
  rw [List.zip_map']
  simp

/-!
## Kept entries
-/

/-- The matrix stores, in ascending order, the entries of `A` in the kept places. -/
structure Stores (a : CsrMatrix α) (rows cols : Nat) (keep : Nat → Nat → Bool)
    (A : Nat → Nat → α) : Prop where
  rows_eq : a.rows = rows
  cols_eq : a.cols = cols
  entries_eq : ∀ r < rows,
    a.entries r = .ok (((List.range cols).filter (keep r)).map fun c => (c, A r c))

theorem stores_ofRows (rows cols : Nat) (keep : Nat → Nat → Bool) (A : Nat → Nat → α) :
    Stores (ofRows cols ((List.range rows).map fun r =>
      ((List.range cols).filter (keep r)).map fun c => (c, A r c))) rows cols keep A where
  rows_eq := by
    simp [ofRows]
  cols_eq := rfl
  entries_eq r hr := by
    rw [entries_ofRows cols (by simpa using hr)]
    simp

/-!
## Accepted parts
-/

theorem columnsAscend_iff (cols : Nat) (cs : List Nat) :
    columnsAscend cols cs = true ↔ cs.Pairwise (· < ·) ∧ ∀ c ∈ cs, c < cols := by
  induction cs with
  | nil =>
      simp [columnsAscend]
  | cons c rest ih =>
      cases rest with
      | nil =>
          simp [columnsAscend]
      | cons d rest =>
          rw [columnsAscend, Bool.and_eq_true, Bool.and_eq_true, ih, decide_eq_true_iff,
            decide_eq_true_iff]
          constructor
          · rintro ⟨⟨hc, hcd⟩, hascend, hbound⟩
            constructor
            · apply List.Pairwise.cons _ hascend
              intro e he
              rcases List.mem_cons.mp he with hEq | hmem
              · rw [hEq]
                exact hcd
              · exact Nat.lt_trans hcd (List.rel_of_pairwise_cons hascend hmem)
            · intro e he
              rcases List.mem_cons.mp he with hEq | hmem
              · rw [hEq]
                exact hc
              · exact hbound e hmem
          · rintro ⟨hascend, hbound⟩
            rcases List.pairwise_cons.mp hascend with ⟨hfirst, hrest⟩
            exact ⟨⟨hbound c List.mem_cons_self, hfirst d List.mem_cons_self⟩, hrest,
              fun e he => hbound e (List.mem_cons_of_mem c he)⟩

/-- Ascending columns are the columns that they keep, in order. -/
theorem filter_contains {cols : Nat} {cs : List Nat} (hascend : cs.Pairwise (· < ·))
    (hbound : ∀ c ∈ cs, c < cols) : (List.range cols).filter (fun c => cs.contains c) = cs := by
  have hrange : ((List.range cols).filter fun c => cs.contains c).Pairwise (· < ·) :=
    List.pairwise_lt_range.filter _
  have hperm : ((List.range cols).filter fun c => cs.contains c).Perm cs := by
    rw [List.perm_ext_iff_of_nodup (hrange.imp Nat.ne_of_lt) (hascend.imp Nat.ne_of_lt)]
    intro c
    rw [List.mem_filter, List.mem_range, List.contains_iff_mem]
    constructor
    · exact fun h => h.2
    · exact fun h => ⟨hbound c h, h⟩
  apply List.Perm.eq_of_pairwise _ hrange hascend hperm
  intro c d _ _ hcd hdc
  exact absurd hdc (Nat.lt_asymm hcd)

theorem map_lookup_zip {cs : List Nat} {xs : List α} (hlength : cs.length = xs.length)
    (hnodup : cs.Nodup) (x : α) :
    (cs.map fun c => (c, ((cs.zip xs).lookup c).getD x)) = cs.zip xs := by
  induction cs generalizing xs with
  | nil =>
      rfl
  | cons c rest ih =>
      cases xs with
      | nil =>
          cases hlength
      | cons y xs =>
          rcases List.nodup_cons.mp hnodup with ⟨hfresh, hnodup⟩
          have htail := ih (Nat.succ.inj hlength) hnodup
          rw [List.map_cons, List.zip_cons_cons, List.lookup_cons_self, Option.getD_some]
          congr 1
          rw [← htail]
          apply List.map_congr_left
          intro d hd
          have hne : (d == c) = false := by
            rw [beq_eq_false_iff_ne]
            intro hEq
            exact hfresh (hEq ▸ hd)
          rw [htail, List.lookup_cons, hne]

/-- Accepted rows lie within the values, and their columns ascend below the column count. -/
theorem of_checkRows {cols length row previous covered : Nat} {columns : Array Nat}
    {spans : List (Nat × Nat)}
    (h : checkRows cols length columns row previous spans = .ok covered) :
    ∀ span ∈ spans, span.1 ≤ span.2 ∧ span.2 ≤ length ∧
      columnsAscend cols (columns.extract span.1 span.2).toList = true := by
  induction spans generalizing row previous with
  | nil =>
      intro span hspan
      cases hspan
  | cons span rest ih =>
      rcases span with ⟨first, last⟩
      rw [checkRows] at h
      by_cases hbad : first ≠ previous ∨ last < first ∨ length < last
      · rw [if_pos hbad] at h
        cases h
      · rw [if_neg hbad] at h
        by_cases hascend : columnsAscend cols (columns.extract first last).toList = true
        · rw [if_pos hascend] at h
          intro span hspan
          rcases List.mem_cons.mp hspan with hEq | hmem
          · rw [hEq]
            exact ⟨Nat.le_of_not_lt fun hlt => hbad (Or.inr (Or.inl hlt)),
              Nat.le_of_not_lt fun hlt => hbad (Or.inr (Or.inr hlt)), hascend⟩
          · exact ih h span hmem
        · rw [if_neg hascend] at h
          cases h

/-- What the parts of an accepted matrix satisfy. -/
structure Accepted (a : CsrMatrix α) : Prop where
  rowStart_size : a.rowStart.size = a.rows
  rowEnd_size : a.rowEnd.size = a.rows
  columns_size : a.columns.size = a.values.size
  span : ∀ r (hstart : r < a.rowStart.size) (hend : r < a.rowEnd.size),
    a.rowStart[r] ≤ a.rowEnd[r] ∧ a.rowEnd[r] ≤ a.values.size ∧
      columnsAscend a.cols (a.columns.extract a.rowStart[r] a.rowEnd[r]).toList = true

theorem accepted_of_ofParts {rows cols : Nat} {rowStart rowEnd columns : Array Nat}
    {values : Array α} {a : CsrMatrix α}
    (h : ofParts rows cols rowStart rowEnd columns values = .ok a) :
    a.Accepted ∧ a.rows = rows ∧ a.cols = cols := by
  rw [ofParts] at h
  by_cases hoffsets : rowStart.size ≠ rows ∨ rowEnd.size ≠ rows
  · rw [if_pos hoffsets] at h
    cases h
  · rw [if_neg hoffsets] at h
    by_cases hcolumns : columns.size ≠ values.size
    · rw [if_pos hcolumns] at h
      cases h
    · rw [if_neg hcolumns] at h
      rcases bind_eq_ok h with ⟨covered, hcovered, h⟩
      by_cases hcover : covered ≠ values.size
      · rw [if_pos hcover] at h
        cases h
      · rw [if_neg hcover] at h
        cases h
        refine ⟨⟨?_, ?_, not_not.mp hcolumns, ?_⟩, rfl, rfl⟩
        · exact not_not.mp fun hne => hoffsets (Or.inl hne)
        · exact not_not.mp fun hne => hoffsets (Or.inr hne)
        · intro r hstart hend
          have hzip : r < (rowStart.toList.zip rowEnd.toList).length := by
            rw [List.length_zip]
            exact Nat.lt_min.mpr ⟨hstart, hend⟩
          have hmem := List.getElem_mem hzip
          rw [List.getElem_zip] at hmem
          exact of_checkRows hcovered _ hmem

/-- A row of an accepted matrix can be read, and its columns ascend below the column count. -/
theorem Accepted.entries_eq {a : CsrMatrix α} (h : a.Accepted) {r : Nat} (hr : r < a.rows) :
    ∃ (cs : List Nat) (xs : List α), a.entries r = .ok (cs.zip xs) ∧ cs.length = xs.length ∧
      cs.Pairwise (· < ·) ∧ ∀ c ∈ cs, c < a.cols := by
  have hstart : r < a.rowStart.size := by
    rw [h.rowStart_size]
    exact hr
  have hend : r < a.rowEnd.size := by
    rw [h.rowEnd_size]
    exact hr
  rcases h.span r hstart hend with ⟨hle, hvalues, hascend⟩
  have hcolumns : a.rowEnd[r] ≤ a.columns.size := by
    rw [h.columns_size]
    exact hvalues
  have hlast : a.rowStart[r] + (a.rowEnd[r] - a.rowStart[r]) = a.rowEnd[r] :=
    Nat.add_sub_cancel' hle
  refine ⟨(a.columns.extract a.rowStart[r] a.rowEnd[r]).toList,
    (a.values.extract a.rowStart[r] a.rowEnd[r]).toList, ?_, ?_,
    (columnsAscend_iff _ _).mp hascend⟩
  · rw [entries, row, fetch, Array.getElem?_eq_getElem hstart, fetch,
      Array.getElem?_eq_getElem hend]
    simp only [Fault.demand]
    rw [ok_bind, ok_bind, check_bind hle, slice, slice, hlast, if_pos hcolumns, if_pos hvalues]
    rfl
  · rw [Array.length_toList, Array.length_toList, Array.size_extract, Array.size_extract,
      h.columns_size]

theorem Accepted.stores [Zero α] {a : CsrMatrix α} (h : a.Accepted) :
    ∃ keep A, a.Stores a.rows a.cols keep A := by
  have hrow : ∀ r, ∃ (kept : Nat → Bool) (u : Nat → α), r < a.rows →
      a.entries r = .ok (((List.range a.cols).filter kept).map fun c => (c, u c)) := by
    intro r
    by_cases hr : r < a.rows
    · rcases h.entries_eq hr with ⟨cs, xs, hentries, hlength, hascend, hbound⟩
      refine ⟨fun c => cs.contains c, fun c => ((cs.zip xs).lookup c).getD 0, fun _ => ?_⟩
      rw [hentries, filter_contains hascend hbound,
        map_lookup_zip hlength (hascend.imp Nat.ne_of_lt)]
    · exact ⟨fun _ => false, fun _ => 0, fun hlt => absurd hlt hr⟩
  choose keep A hstores using hrow
  exact ⟨keep, A, rfl, rfl, hstores⟩

/-!
## The dense form
-/

section

variable [Zero α] {a : CsrMatrix α} {rows cols : Nat} {keep : Nat → Nat → Bool}
  {A : Nat → Nat → α}

/-- The matrix with zeros in the places that are not kept. -/
def masked (keep : Nat → Nat → Bool) (A : Nat → Nat → α) (r c : Nat) : α :=
  if keep r c then A r c else 0

omit [Zero α] in
theorem puts_writeEntries (ha : Stores a rows cols keep A) {f : Nat → α}
    (hf : ∀ r < rows, ∀ c < cols, f (r * cols + c) = A r c) :
    Puts (a.writeEntries : BufferM α (rows * cols) Unit)
      (fun i => ∃ r, r < rows ∧ ∃ c, (c < cols ∧ keep r c = true) ∧ i = r * cols + c) f := by
  rw [writeEntries, ha.rows_eq]
  apply puts_forRange_zero
  intro r hr
  rw [lift_bind (ha.entries_eq r hr), ha.cols_eq]
  apply Puts.congr (puts_forM (S := fun entry i => i = r * cols + entry.1) (f := f) ?_)
  · intro i _
    constructor
    · rintro ⟨entry, hentry, hi⟩
      rcases List.mem_map.mp hentry with ⟨c, hc, hEq⟩
      rcases List.mem_filter.mp hc with ⟨hrange, hkeep⟩
      rw [← hEq] at hi
      exact ⟨c, ⟨List.mem_range.mp hrange, hkeep⟩, hi⟩
    · rintro ⟨c, ⟨hc, hkeep⟩, hi⟩
      have hkept : c ∈ (List.range cols).filter (keep r) :=
        List.mem_filter.mpr ⟨List.mem_range.mpr hc, hkeep⟩
      exact ⟨(c, A r c), List.mem_map_of_mem hkept, hi⟩
  · intro i _ _
    rfl
  · intro entry hentry
    rcases List.mem_map.mp hentry with ⟨c, hc, hEq⟩
    have hc := List.mem_range.mp (List.mem_filter.mp hc).1
    rw [← hEq]
    exact puts_write (add_mul_lt hr hc) (hf r hr c hc).symm

theorem toDense_ok (ha : Stores a rows cols keep A) (hsize : rows * cols < Size.bufferLimit) :
    ∃ dense, a.toDense = .ok dense ∧ HoldsRows dense rows cols (masked keep A) := by
  have hlimit := Nat.lt_trans hsize Size.bufferLimit_lt_limit
  have hcell : ∀ r < rows, ∀ c < cols,
      (fun i => A (i / cols) (i % cols)) (r * cols + c) = A r c := by
    intro r _ c hc
    dsimp only
    rw [add_mul_div_of_lt hc, add_mul_mod_of_lt hc]
  have hwrite := puts_writeEntries (f := fun i => A (i / cols) (i % cols)) ha hcell
  refine ⟨tabulate (rows * cols) fun i => masked keep A (i / cols) (i % cols), ?_, ?_⟩
  · rw [toDense, ha.rows_eq, ha.cols_eq, Size.checked_bind hlimit, Size.reserve_of_lt hsize,
      ok_bind, Acts.run hwrite, ok_bind, toArray_mapIdx_replicate]
    show Except.ok _ = Except.ok _
    congr 1
    apply tabulate_congr
    intro i hi
    have hr := div_lt_of_lt_mul hi
    have hc := mod_lt_of_lt_mul hi
    rw [masked]
    by_cases hkeep : keep (i / cols) (i % cols) = true
    · rw [if_pos hkeep,
        store_of_mem ⟨i / cols, hr, i % cols, ⟨hc, hkeep⟩, (Nat.div_add_mod' i cols).symm⟩]
    · rw [if_neg hkeep, store_of_not_mem]
      rintro ⟨r, _, c, ⟨hc', hkeep'⟩, hEq⟩
      rw [hEq, add_mul_div_of_lt hc', add_mul_mod_of_lt hc'] at hkeep
      exact hkeep hkeep'
  · apply (holdsRows_tabulate _ rfl).congr
    intro r _ c hc
    rw [add_mul_div_of_lt hc, add_mul_mod_of_lt hc]

theorem lt_of_toDense {dense : Array α} (h : a.toDense = .ok dense) :
    a.rows * a.cols < Size.bufferLimit := by
  rw [toDense] at h
  rcases bind_eq_ok h with ⟨length, hlength, h⟩
  rcases bind_eq_ok h with ⟨_, hreserve, _⟩
  rw [← (Size.of_checked hlength).2]
  exact of_check hreserve

theorem of_toDense {dense : Array α} (ha : Stores a rows cols keep A)
    (h : a.toDense = .ok dense) : HoldsRows dense rows cols (masked keep A) := by
  have hsize := lt_of_toDense h
  rw [ha.rows_eq, ha.cols_eq] at hsize
  rcases toDense_ok ha hsize with ⟨dense', hdense', hrows⟩
  rw [h] at hdense'
  cases hdense'
  exact hrows

end
end CsrMatrix
end ConvSweep
