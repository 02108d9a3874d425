import Mathlib
import ConvSweep.Proofs.Cellwise

/-!
# Chunks in any order

A task on a chunk is confined to it: the cells outside keep their values, and what
the task answers and leaves in the chunk depends on nothing else of the buffer.  So
two tasks on different chunks commute, and a list of tasks can be permuted, as long
as none of them stops with a fault.  This needs no formula for what the tasks
compute.

`Independent` collects what a use of chunks needs for that: the chunks divide the
buffer without a shorter last one, and every task ends on every chunk.
-/

namespace ConvSweep
namespace BufferM

variable {α β : Type} {n : Nat}

/-!
## Confined actions
-/

/-- The answer of a run, without the buffer. -/
def answerOf : EStateM.Result Fault (Vector α n) β → Except Fault β
  | .ok b _ => .ok b
  | .error fault _ => .error fault

/-- The buffer that a run leaves, also when it stops. -/
def bufferOf : EStateM.Result Fault (Vector α n) β → Vector α n
  | .ok _ v => v
  | .error _ v => v

/-- The action writes and reads no other cells than the `len` ones from `start` on. -/
structure Confined (act : BufferM α n β) (start len : Nat) : Prop where
  keeps : ∀ (v : Vector α n) (i : Nat) (hi : i < n), ¬ (start ≤ i ∧ i < start + len) →
    (bufferOf (act v))[i] = v[i]
  reads : ∀ v w : Vector α n,
    (∀ (i : Nat) (hi : i < n), start ≤ i ∧ i < start + len → v[i] = w[i]) →
      answerOf (act v) = answerOf (act w) ∧
        ∀ (i : Nat) (hi : i < n), start ≤ i ∧ i < start + len →
          (bufferOf (act v))[i] = (bufferOf (act w))[i]

/-- On every buffer the action ends without a fault. -/
def AlwaysEnds (act : BufferM α n Unit) : Prop :=
  ∀ v, ∃ w, act v = .ok () w

theorem Acts.alwaysEnds {act : BufferM α n Unit} {g : Nat → α → α} (h : Acts act g) :
    AlwaysEnds act :=
  fun v => ⟨_, h v⟩

section

variable {start len : Nat} {act : BufferM α len β} {v : Vector α n}

theorem onSlice_of_not_fits (hfit : ¬ start + len ≤ n) :
    (onSlice start len act : BufferM α n β) v = .error .outOfRange v := by
  rw [onSlice, dif_neg hfit]

theorem bufferOf_onSlice (hfit : start + len ≤ n) :
    bufferOf ((onSlice start len act : BufferM α n β) v) =
      splice v start (bufferOf (act (window v start len hfit))) hfit := by
  rw [onSlice, dif_pos hfit]
  cases act (window v start len hfit) with
  | ok b w =>
      rfl
  | error fault w =>
      rfl

theorem answerOf_onSlice (hfit : start + len ≤ n) :
    answerOf ((onSlice start len act : BufferM α n β) v) =
      answerOf (act (window v start len hfit)) := by
  rw [onSlice, dif_pos hfit]
  cases act (window v start len hfit) with
  | ok b w =>
      rfl
  | error fault w =>
      rfl

theorem confined_onSlice (start len : Nat) (act : BufferM α len β) :
    Confined (onSlice start len act : BufferM α n β) start len := by
  by_cases hfit : start + len ≤ n
  · constructor
    case keeps =>
      intro v i hi hout
      rw [getElem_congr_coll (bufferOf_onSlice hfit), getElem_splice hfit hi, dif_neg hout]
    case reads =>
      intro v w hvw
      have hwindow : window v start len hfit = window w start len hfit := by
        apply Vector.ext
        intro i hi
        rw [getElem_window hfit hi, getElem_window hfit hi]
        exact hvw (start + i) (by omega) ⟨by omega, by omega⟩
      constructor
      · rw [answerOf_onSlice hfit, answerOf_onSlice hfit, hwindow]
      · intro i hi hin
        rw [getElem_congr_coll (bufferOf_onSlice hfit), getElem_congr_coll (bufferOf_onSlice hfit),
          getElem_splice hfit hi, getElem_splice hfit hi, dif_pos hin, dif_pos hin]
        exact getElem_congr_coll (by rw [hwindow])
  · constructor
    case keeps =>
      intro v i hi _
      rw [getElem_congr_coll (congrArg bufferOf (onSlice_of_not_fits hfit))]
      rfl
    case reads =>
      intro v w hvw
      rw [onSlice_of_not_fits hfit, onSlice_of_not_fits hfit]
      exact ⟨rfl, hvw⟩

theorem AlwaysEnds.onSlice {act : BufferM α len Unit} (h : AlwaysEnds act)
    (hfit : start + len ≤ n) : AlwaysEnds (BufferM.onSlice start len act : BufferM α n Unit) := by
  intro v
  rcases h (window v start len hfit) with ⟨w, hw⟩
  rw [BufferM.onSlice, dif_pos hfit, hw]
  exact ⟨_, rfl⟩

end

section

variable {act : BufferM α n Unit} {start len : Nat} {v v' w w' : Vector α n}

theorem Confined.kept (h : Confined act start len) (hrun : act v = .ok () w) {i : Nat} (hi : i < n)
    (hout : ¬ (start ≤ i ∧ i < start + len)) : w[i] = v[i] := by
  have hkeeps := h.keeps v i hi hout
  rwa [getElem_congr_coll (congrArg bufferOf hrun)] at hkeeps

theorem Confined.determined (h : Confined act start len) (hv : act v = .ok () v')
    (hw : act w = .ok () w')
    (hvw : ∀ (i : Nat) (hi : i < n), start ≤ i ∧ i < start + len → v[i] = w[i]) {i : Nat}
    (hi : i < n) (hin : start ≤ i ∧ i < start + len) : v'[i] = w'[i] := by
  have hcell := (h.reads v w hvw).2 i hi hin
  rwa [getElem_congr_coll (congrArg bufferOf hv), getElem_congr_coll (congrArg bufferOf hw)]
    at hcell

end

/-- Actions on stretches without a common cell commute. -/
theorem Confined.comm {a b : BufferM α n Unit} {start len start' len' : Nat}
    (ha : Confined a start len) (hb : Confined b start' len') (haends : AlwaysEnds a)
    (hbends : AlwaysEnds b) (hapart : start + len ≤ start' ∨ start' + len' ≤ start) :
    (a >>= fun _ => b) = (b >>= fun _ => a) := by
  funext v
  rcases haends v with ⟨va, hva⟩
  rcases hbends v with ⟨vb, hvb⟩
  rcases hbends va with ⟨vab, hvab⟩
  rcases haends vb with ⟨vba, hvba⟩
  have hleft : (a >>= fun _ => b) v = .ok () vab := by
    show EStateM.bind a _ v = _
    rw [EStateM.bind, hva]
    exact hvab
  have hright : (b >>= fun _ => a) v = .ok () vba := by
    show EStateM.bind b _ v = _
    rw [EStateM.bind, hvb]
    exact hvba
  rw [hleft, hright]
  congr 1
  apply Vector.ext
  intro i hi
  by_cases hina : start ≤ i ∧ i < start + len
  · -- the second action keeps the cell, and the first one finds its own cells as they were
    have hfound : ∀ (j : Nat) (hj : j < n), start ≤ j ∧ j < start + len → v[j] = vb[j] :=
      fun j hj hin => (hb.kept hvb hj (by omega)).symm
    calc
      vab[i] = va[i] := hb.kept hvab hi (by omega)
      _ = vba[i] := ha.determined hva hvba hfound hi hina
  · by_cases hinb : start' ≤ i ∧ i < start' + len'
    · have hfound : ∀ (j : Nat) (hj : j < n), start' ≤ j ∧ j < start' + len' → va[j] = v[j] :=
        fun j hj hin => ha.kept hva hj (by omega)
      calc
        vab[i] = vb[i] := hb.determined hvab hvb hfound hi hinb
        _ = vba[i] := (ha.kept hvba hi hina).symm
    · calc
        vab[i] = va[i] := hb.kept hvab hi hinb
        _ = v[i] := ha.kept hva hi hina
        _ = vb[i] := (hb.kept hvb hi hinb).symm
        _ = vba[i] := (ha.kept hvba hi hina).symm

/-!
## Lists of chunks
-/

section

variable {chunk : Nat} {task : ChunkTask α}

/-- The task of one chunk, as an action on the whole buffer. -/
def onChunk (chunk : Nat) (task : ChunkTask α) (i : Nat) : BufferM α n Unit :=
  onSlice (i * chunk) (min chunk (n - i * chunk)) (task i _)

theorem runChunks_cons (i : Nat) (rest : List Nat) :
    (runChunks chunk task (i :: rest) : BufferM α n Unit) =
      (onChunk chunk task i >>= fun _ => runChunks chunk task rest) := rfl

/-- Different chunks have no cell in common, also next to a shorter last one. -/
theorem chunks_apart {i j : Nat} (h : i ≠ j) :
    i * chunk + min chunk (n - i * chunk) ≤ j * chunk ∨
      j * chunk + min chunk (n - j * chunk) ≤ i * chunk := by
  rcases Nat.lt_or_gt_of_ne h with hlt | hlt
  · have hblock := Loop.mul_add_le chunk hlt
    omega
  · have hblock := Loop.mul_add_le chunk hlt
    omega

/-- Tasks that end can be run in any order, one for each chunk. -/
theorem runChunks_perm {order order' : List Nat} (hperm : order.Perm order')
    (hnodup : order.Nodup)
    (hends : ∀ i ∈ order, AlwaysEnds (onChunk chunk task i : BufferM α n Unit)) :
    (runChunks chunk task order : BufferM α n Unit) = runChunks chunk task order' := by
  induction hperm with
  | nil =>
      rfl
  | cons i _ ih =>
      rw [List.nodup_cons] at hnodup
      rw [runChunks_cons, runChunks_cons,
        ih hnodup.2 fun j hj => hends j (List.mem_cons_of_mem i hj)]
  | swap i j rest =>
      rw [List.nodup_cons] at hnodup
      have hne : j ≠ i := fun heq => hnodup.1 (heq ▸ List.mem_cons_self)
      have hcomm := Confined.comm (confined_onSlice (n := n) _ _ (task j _))
        (confined_onSlice _ _ (task i _)) (hends j (by simp)) (hends i (by simp))
        (chunks_apart hne)
      rw [runChunks_cons, runChunks_cons, runChunks_cons, runChunks_cons, ← bind_assoc,
        ← bind_assoc]
      exact congrArg (· >>= fun _ => runChunks chunk task rest) hcomm
  | trans hperm _ ih ih' =>
      rw [ih hnodup hends]
      exact ih' (hperm.nodup_iff.mp hnodup) fun i hi => hends i (hperm.mem_iff.mpr hi)

end

/-!
## Independent tasks
-/

/-- A buffer of `n` cells in `count` full chunks, with a task for each that reads and writes its
chunk only; the order of the tasks does not show in the buffer. -/
structure Independent (n chunk count : Nat) (task : ChunkTask α) : Prop where
  chunk_pos : 0 < chunk
  count_eq : chunkCount n chunk = count
  full : ∀ i < count, min chunk (n - i * chunk) = chunk
  covers : ∀ c < n, ∃! i, i < count ∧ i * chunk ≤ c ∧ c < i * chunk + chunk
  ends : ∀ i < count, ∀ v : Vector α chunk, ∃ w, task i chunk v = .ok () w
  confined : ∀ i < count,
    Confined (onSlice (i * chunk) chunk (task i chunk) : BufferM α n Unit) (i * chunk) chunk
  any_order : ∀ order : List Nat, order.Perm (List.range count) →
    (runChunks chunk task order : BufferM α n Unit) = runChunks chunk task (List.range count)

theorem independent_of_ends {chunk count : Nat} {task : ChunkTask α} (hchunk : 0 < chunk)
    (hn : n = count * chunk) (hends : ∀ i < count, AlwaysEnds (task i chunk)) :
    Independent n chunk count task := by
  have hfit : ∀ i < count, i * chunk + chunk ≤ n := by
    intro i hi
    rw [hn]
    exact Loop.mul_add_le chunk hi
  have hfull : ∀ i < count, min chunk (n - i * chunk) = chunk := by
    intro i hi
    have hend := hfit i hi
    omega
  constructor
  case chunk_pos =>
    exact hchunk
  case count_eq =>
    exact chunkCount_eq hchunk hn
  case full =>
    exact hfull
  case covers =>
    intro c hc
    have hsplit := Nat.div_add_mod' c chunk
    have hmod := Nat.mod_lt c hchunk
    refine ⟨c / chunk, ⟨Loop.div_lt_of_lt_mul (by omega), by omega, by omega⟩, ?_⟩
    rintro i ⟨_, hlo, hhi⟩
    symm
    apply Nat.div_eq_of_lt_le hlo
    rw [Nat.succ_mul]
    exact hhi
  case ends =>
    exact hends
  case confined =>
    exact fun i _ => confined_onSlice _ _ _
  case any_order =>
    intro order horder
    apply runChunks_perm horder (horder.nodup_iff.mpr List.nodup_range)
    intro i hi
    have hlt : i < count := List.mem_range.mp (horder.mem_iff.mp hi)
    rw [onChunk, hfull i hlt]
    exact (hends i hlt).onSlice (hfit i hlt)

/-- Every schedule has the effect of the tasks in their order. -/
theorem Independent.onChunks_eq {chunk count : Nat} {task : ChunkTask α}
    (h : Independent n chunk count task) (schedule : Schedule) :
    (onChunks schedule chunk task : BufferM α n Unit) = onChunks .serial chunk task := by
  rw [onChunks, onChunks, if_neg (Nat.ne_of_gt h.chunk_pos), if_neg (Nat.ne_of_gt h.chunk_pos),
    h.count_eq]
  exact h.any_order _ (schedule.order_perm count)

end BufferM
end ConvSweep
