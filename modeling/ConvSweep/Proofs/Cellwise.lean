import Mathlib
import ConvSweep.Buffer
import ConvSweep.Matrix.Row
import ConvSweep.Proofs.Loop

/-!
# Actions that work cell by cell

Every kernel of the library ends without a fault on buffers of the right length
and computes the new value of a cell from its index and its old value alone.
`Acts act g` says so: `g i` is what `act` does to cell `i`.  The relation is
closed under sequencing, loops, slices and chunks, and for chunks it does not
mention the schedule.  `Puts act S f` is the case of an action that stores `f i`
in every cell of `S` and keeps the other cells, and `Fills act f` the case where
all cells are stored and nothing of the old buffer remains.
-/

namespace ConvSweep
namespace BufferM

variable {α β : Type} {n : Nat}

/-- On every buffer `act` ends without a fault and applies `g i` to cell `i`. -/
def Acts (act : BufferM α n Unit) (g : Nat → α → α) : Prop :=
  ∀ v : Vector α n, act v = .ok () (v.mapIdx g)

/-- On every buffer `act` ends without a fault and stores `f i` in cell `i`. -/
def Fills (act : BufferM α n Unit) (f : Nat → α) : Prop :=
  Acts act fun i _ => f i

/-- The effect on a cell of storing `f i` where `S i` holds. -/
noncomputable def store (S : Nat → Prop) (f : Nat → α) (i : Nat) (x : α) : α :=
  open Classical in if S i then f i else x

/-- On every buffer `act` ends without a fault, stores `f i` in the cells of `S` and keeps the
others. -/
def Puts (act : BufferM α n Unit) (S : Nat → Prop) (f : Nat → α) : Prop :=
  Acts act (store S f)

/-!
## Equal effects
-/

theorem Acts.congr {act : BufferM α n Unit} {g h : Nat → α → α} (hg : Acts act g)
    (hgh : ∀ i < n, ∀ x, g i x = h i x) : Acts act h := by
  intro v
  rw [hg v]
  congr 1
  apply Vector.ext
  intro i hi
  rw [Vector.getElem_mapIdx, Vector.getElem_mapIdx, hgh i hi]

theorem Fills.congr {act : BufferM α n Unit} {f g : Nat → α} (hf : Fills act f)
    (hfg : ∀ i < n, f i = g i) : Fills act g :=
  Acts.congr hf fun i hi _ => hfg i hi

theorem store_of_mem {S : Nat → Prop} {f : Nat → α} {i : Nat} (h : S i) (x : α) :
    store S f i x = f i := by
  rw [store, if_pos h]

theorem store_of_not_mem {S : Nat → Prop} {f : Nat → α} {i : Nat} (h : ¬ S i) (x : α) :
    store S f i x = x := by
  rw [store, if_neg h]

theorem Puts.congr {act : BufferM α n Unit} {S T : Nat → Prop} {f g : Nat → α}
    (hS : Puts act S f) (hST : ∀ i < n, S i ↔ T i) (hfg : ∀ i < n, T i → f i = g i) :
    Puts act T g := by
  apply Acts.congr hS
  intro i hi x
  by_cases hT : T i
  · rw [store_of_mem ((hST i hi).mpr hT), store_of_mem hT, hfg i hi hT]
  · rw [store_of_not_mem (fun h => hT ((hST i hi).mp h)), store_of_not_mem hT]

theorem Puts.fills {act : BufferM α n Unit} {S : Nat → Prop} {f : Nat → α}
    (h : Puts act S f) (hS : ∀ i < n, S i) : Fills act f :=
  Acts.congr h fun i hi x => store_of_mem (hS i hi) x

theorem Fills.puts {act : BufferM α n Unit} {f : Nat → α} (h : Fills act f) :
    Puts act (fun i => i < n) f :=
  Acts.congr h fun _ hi x => (store_of_mem (S := fun i => i < n) hi x).symm

/-!
## Results of runs
-/

theorem Acts.run {act : BufferM α n Unit} {g : Nat → α → α} (h : Acts act g) (v : Vector α n) :
    act.run v = .ok (v.mapIdx g) := by
  rw [BufferM.run, h v]

/-!
## Sequencing
-/

theorem acts_pure : Acts (pure () : BufferM α n Unit) (fun _ x => x) := by
  intro v
  show EStateM.Result.ok () v = .ok () (v.mapIdx fun _ x => x)
  congr 1
  apply Vector.ext
  intro i hi
  rw [Vector.getElem_mapIdx]

theorem Acts.bind {a : BufferM α n Unit} {b : Unit → BufferM α n Unit} {g h : Nat → α → α}
    (ha : Acts a g) (hb : Acts (b ()) h) : Acts (a >>= b) (fun i x => h i (g i x)) := by
  intro v
  have hrun : (a >>= b) v = b () (v.mapIdx g) := by
    show EStateM.bind a b v = _
    rw [EStateM.bind, ha v]
  rw [hrun, hb]
  congr 1
  apply Vector.ext
  intro i hi
  simp only [Vector.getElem_mapIdx]

theorem lift_bind {x : Except Fault β} {b : β} (h : x = .ok b) (k : β → BufferM α n Unit) :
    ((liftM x : BufferM α n β) >>= k) = k b := by
  rw [h]
  rfl

theorem Puts.bind {a : BufferM α n Unit} {b : Unit → BufferM α n Unit} {S T : Nat → Prop}
    {f : Nat → α} (ha : Puts a S f) (hb : Puts (b ()) T f) :
    Puts (a >>= b) (fun i => S i ∨ T i) f := by
  apply Acts.congr (Acts.bind ha hb)
  intro i hi x
  by_cases hT : T i
  · rw [store_of_mem hT, store_of_mem (Or.inr hT)]
  · rw [store_of_not_mem hT]
    by_cases hS : S i
    · rw [store_of_mem hS, store_of_mem (Or.inl hS)]
    · rw [store_of_not_mem hS, store_of_not_mem (fun h => h.elim hS hT)]

/-!
## Single steps
-/

theorem puts_write {i : Nat} {x : α} {f : Nat → α} (hi : i < n) (hx : x = f i) :
    Puts (write i x : BufferM α n Unit) (fun j => j = i) f := by
  intro v
  rw [write, dif_pos hi]
  congr 1
  apply Vector.ext
  intro j hj
  rw [Vector.getElem_mapIdx, Vector.getElem_set]
  by_cases h : i = j
  · rw [if_pos h, store_of_mem (S := fun j => j = i) h.symm, hx, h]
  · rw [if_neg h, store_of_not_mem (S := fun j => j = i) (fun hEq => h hEq.symm)]

theorem fills_fill (x : α) : Fills (fill x : BufferM α n Unit) (fun _ => x) := by
  intro v
  show EStateM.Result.ok () (Vector.replicate n x) = _
  congr 1
  apply Vector.ext
  intro i hi
  rw [Vector.getElem_replicate, Vector.getElem_mapIdx]

theorem fills_copyFrom {xs : Array α} {f : Nat → α} (hn : xs.size = n)
    (hf : ∀ (i : Nat) (h : i < xs.size), xs[i] = f i) :
    Fills (copyFrom xs : BufferM α n Unit) f := by
  intro v
  rw [copyFrom, dif_pos hn]
  congr 1
  apply Vector.ext
  intro i hi
  rw [Vector.getElem_mapIdx, Vector.getElem_mk, hf]

/-- What a scaled row holds in place of `x`. -/
def scaled [Zero α] [One α] [Mul α] [BEq α] (beta x : α) : α :=
  if beta == 0 then 0 else if beta == 1 then x else x * beta

theorem acts_scale [Zero α] [One α] [Mul α] [BEq α] (beta : α) :
    Acts (scale beta : BufferM α n Unit) (fun _ x => scaled beta x) := by
  by_cases hzero : (beta == 0) = true
  · rw [scale, if_pos hzero]
    apply Acts.congr (fills_fill 0)
    intro i _ x
    rw [scaled, if_pos hzero]
  · rw [scale, if_neg hzero]
    by_cases hone : (beta == 1) = true
    · rw [if_pos hone]
      apply Acts.congr acts_pure
      intro i _ x
      rw [scaled, if_neg hzero, if_pos hone]
    · rw [if_neg hone]
      intro v
      show EStateM.Result.ok () _ = _
      congr 1
      apply Vector.ext
      intro i hi
      rw [Vector.getElem_map, Vector.getElem_mapIdx, scaled, if_neg hzero, if_neg hone]

theorem acts_addScaled [Add α] [Mul α] (a : α) {xs : Array α} {f : Nat → α} (hn : n ≤ xs.size)
    (hf : ∀ (i : Nat) (h : i < xs.size), xs[i] = f i) :
    Acts (addScaled a xs : BufferM α n Unit) (fun i y => y + a * f i) := by
  intro v
  show EStateM.Result.ok () _ = _
  congr 1
  apply Vector.ext
  intro i hi
  have hlt : i < xs.size := by omega
  simp only [Vector.getElem_mapIdx, Array.getElem?_eq_getElem hlt, hf i hlt]

theorem acts_write {i : Nat} (hi : i < n) (x : α) :
    Acts (write i x : BufferM α n Unit) (fun j y => if j = i then x else y) := by
  apply Acts.congr (puts_write (f := fun _ => x) hi rfl)
  intro j _ y
  by_cases h : j = i
  · rw [if_pos h, store_of_mem (S := fun j => j = i) h]
  · rw [if_neg h, store_of_not_mem (S := fun j => j = i) h]

theorem acts_update {i : Nat} (hi : i < n) (f : α → α) :
    Acts (read i >>= fun old => write i (f old) : BufferM α n Unit)
      (fun j x => if j = i then f x else x) := by
  intro v
  have hread : (read i : BufferM α n α) v = .ok v[i] v := by
    rw [read, dif_pos hi]
  show EStateM.bind (read i) _ v = _
  rw [EStateM.bind, hread]
  dsimp only
  rw [write, dif_pos hi]
  congr 1
  apply Vector.ext
  intro j hj
  rw [Vector.getElem_set, Vector.getElem_mapIdx]
  by_cases h : i = j
  · cases h
    rw [if_pos rfl]
  · rw [if_neg h, if_neg fun hEq => h hEq.symm]

/-!
## Loops
-/

/-- The rounds of a loop act one after the other. -/
theorem acts_forRange {start count : Nat} {body : Nat → BufferM α n Unit}
    {g : Nat → Nat → α → α} (h : ∀ k, start ≤ k → k < start + count → Acts (body k) (g k)) :
    Acts (Loop.forRange start count body)
      (fun i x => (List.range' start count).foldl (fun x k => g k i x) x) := by
  induction count generalizing start with
  | zero =>
      exact acts_pure
  | succ count ih =>
      have hhead := h start (Nat.le_refl _) (by omega)
      have htail : Acts (Loop.forRange (start + 1) count body) _ :=
        ih fun k hk hk' => h k (by omega) (by omega)
      exact Acts.bind (b := fun _ => Loop.forRange (start + 1) count body) hhead htail

theorem acts_forRange_zero {count : Nat} {body : Nat → BufferM α n Unit} {g : Nat → Nat → α → α}
    (h : ∀ k < count, Acts (body k) (g k)) :
    Acts (Loop.forRange 0 count body)
      (fun i x => (List.range count).foldl (fun x k => g k i x) x) := by
  rw [List.range_eq_range']
  exact acts_forRange fun k _ hk => h k (by omega)

/-- A loop over stored cells: its cells are those of its rounds. -/
theorem puts_forRange {start count : Nat} {body : Nat → BufferM α n Unit}
    {S : Nat → Nat → Prop} {f : Nat → α}
    (h : ∀ k, start ≤ k → k < start + count → Puts (body k) (S k) f) :
    Puts (Loop.forRange start count body)
      (fun i => ∃ k, start ≤ k ∧ k < start + count ∧ S k i) f := by
  induction count generalizing start with
  | zero =>
      apply Acts.congr acts_pure
      intro i _ x
      rw [store_of_not_mem]
      rintro ⟨k, hk, hk', _⟩
      omega
  | succ count ih =>
      have hhead := h start (by omega) (by omega)
      have htail : Puts (Loop.forRange (start + 1) count body) _ f :=
        ih fun k hk hk' => h k (by omega) (by omega)
      have hboth := Puts.bind (b := fun _ => Loop.forRange (start + 1) count body) hhead htail
      apply Puts.congr hboth
      · intro i _
        constructor
        · rintro (hS | ⟨k, hk, hk', hS⟩)
          · exact ⟨start, by omega, by omega, hS⟩
          · exact ⟨k, by omega, by omega, hS⟩
        · rintro ⟨k, hk, hk', hS⟩
          rcases Nat.eq_or_lt_of_le hk with hEq | hlt
          · left
            rw [hEq]
            exact hS
          · right
            exact ⟨k, by omega, by omega, hS⟩
      · intro i _ _
        rfl

theorem puts_forRange_zero {count : Nat} {body : Nat → BufferM α n Unit}
    {S : Nat → Nat → Prop} {f : Nat → α} (h : ∀ k < count, Puts (body k) (S k) f) :
    Puts (Loop.forRange 0 count body) (fun i => ∃ k, k < count ∧ S k i) f := by
  have hloop : Puts (Loop.forRange 0 count body) _ f :=
    puts_forRange (S := S) fun k _ hk => h k (by omega)
  apply Puts.congr hloop
  · intro i _
    constructor
    · rintro ⟨k, _, hk, hS⟩
      exact ⟨k, by omega, hS⟩
    · rintro ⟨k, hk, hS⟩
      exact ⟨k, by omega, by omega, hS⟩
  · intro i _ _
    rfl

/-- A loop that stores a stretch of cells one by one. -/
theorem puts_stretch {start length : Nat} {body : Nat → BufferM α n Unit} {f : Nat → α}
    (h : ∀ k < length, Puts (body k) (fun i => i = start + k) f) :
    Puts (Loop.forRange 0 length body) (fun i => start ≤ i ∧ i < start + length) f := by
  apply Puts.congr (puts_forRange_zero h)
  · intro i _
    constructor
    · rintro ⟨k, hk, hEq⟩
      omega
    · rintro ⟨hlo, hhi⟩
      exact ⟨i - start, by omega, by omega⟩
  · intro i _ _
    rfl

/-- Tiles change the order of the visits to a row-major buffer, not the cells that are visited. -/
theorem fills_tiles {rows cols tileRows tileCols : Nat} {body : Nat → Nat → BufferM α n Unit}
    {f : Nat → α} (hrows : 0 < tileRows) (hcols : 0 < tileCols) (hn : n = rows * cols)
    (h : ∀ y < rows, ∀ z < cols, Puts (body y z) (fun i => i = y * cols + z) f) :
    Fills (Loop.forStrided rows tileRows fun y₀ => Loop.forStrided cols tileCols fun z₀ =>
      Loop.forTile rows tileRows y₀ fun y => Loop.forTile cols tileCols z₀ fun z =>
        body y z) f := by
  apply Puts.fills
  · apply puts_forRange_zero
    intro s _
    apply puts_forRange_zero
    intro t _
    apply puts_forRange
    intro y hy hy'
    apply puts_forRange
    intro z hz hz'
    exact h y (by omega) z (by omega)
  · intro i hi
    have hy : i / cols < rows := Loop.div_lt_of_lt_mul (by omega)
    have hz : i % cols < cols := Loop.mod_lt_of_lt_mul (m := rows) (by omega)
    rcases Loop.mem_tile hrows hy with ⟨hlo, hhi⟩
    rcases Loop.mem_tile hcols hz with ⟨hlo', hhi'⟩
    exact ⟨_, Loop.div_lt_strideCount hrows hy, _, Loop.div_lt_strideCount hcols hz,
      i / cols, hlo, hhi, i % cols, hlo', hhi', (Nat.div_add_mod' i cols).symm⟩

theorem acts_forM {items : List β} {body : β → BufferM α n Unit} {g : β → Nat → α → α}
    (h : ∀ b ∈ items, Acts (body b) (g b)) :
    Acts (items.forM body) (fun i x => items.foldl (fun x b => g b i x) x) := by
  induction items with
  | nil =>
      exact acts_pure
  | cons b rest ih =>
      have hhead := h b List.mem_cons_self
      have htail := ih fun c hc => h c (List.mem_cons_of_mem b hc)
      exact Acts.bind (b := fun _ => rest.forM body) hhead htail

theorem puts_forM {items : List β} {body : β → BufferM α n Unit} {S : β → Nat → Prop}
    {f : Nat → α} (h : ∀ b ∈ items, Puts (body b) (S b) f) :
    Puts (items.forM body) (fun i => ∃ b ∈ items, S b i) f := by
  induction items with
  | nil =>
      apply Acts.congr acts_pure
      intro i _ x
      rw [store_of_not_mem]
      rintro ⟨b, hb, _⟩
      cases hb
  | cons b rest ih =>
      have hhead := h b List.mem_cons_self
      have htail := ih fun c hc => h c (List.mem_cons_of_mem b hc)
      apply Puts.congr (Puts.bind (b := fun _ => rest.forM body) hhead htail)
      · intro i _
        rw [List.exists_mem_cons_iff]
      · intro i _ _
        rfl

/-!
## Slices
-/

theorem getElem_window {v : Vector α n} {start len : Nat} (h : start + len ≤ n) {i : Nat}
    (hi : i < len) : (window v start len h)[i] = v[start + i] := by
  simp only [window, Vector.getElem_cast, Vector.getElem_extract]

theorem getElem_splice {len : Nat} {v : Vector α n} {start : Nat} {w : Vector α len}
    (h : start + len ≤ n) {i : Nat} (hi : i < n) :
    (splice v start w h)[i] =
      if hin : start ≤ i ∧ i < start + len then w[i - start] else v[i] := by
  -- The fold is followed from the front; after `m` rounds `m` cells are replaced.
  have hrounds : ∀ m (hm : m ≤ len),
      (Nat.fold m (fun k hk (acc : Vector α n) => acc.set (start + k) w[k] (by omega)) v)[i] =
        if hin : start ≤ i ∧ i < start + m then w[i - start] else v[i] := by
    intro m hm
    induction m with
    | zero =>
        rw [dif_neg (by omega)]
        rfl
    | succ m ih =>
        rw [Nat.fold_succ, Vector.getElem_set, ih (by omega)]
        by_cases hlast : start + m = i
        · rw [if_pos hlast, dif_pos (by omega)]
          congr 1
          omega
        · rw [if_neg hlast]
          by_cases hin : start ≤ i ∧ i < start + m
          · rw [dif_pos hin, dif_pos (by omega)]
          · rw [dif_neg hin, dif_neg (by omega)]
  exact hrounds len (Nat.le_refl len)

theorem acts_onSlice {start len : Nat} {act : BufferM α len Unit} {g : Nat → α → α}
    (hfit : start + len ≤ n) (h : Acts act g) :
    Acts (onSlice start len act : BufferM α n Unit)
      (fun i x => if start ≤ i ∧ i < start + len then g (i - start) x else x) := by
  intro v
  rw [onSlice, dif_pos hfit, h]
  simp only
  congr 1
  apply Vector.ext
  intro i hi
  rw [getElem_splice hfit hi, Vector.getElem_mapIdx]
  by_cases hin : start ≤ i ∧ i < start + len
  · rw [dif_pos hin, if_pos hin, Vector.getElem_mapIdx, getElem_window]
    congr 2
    omega
  · rw [dif_neg hin, if_neg hin]

theorem puts_onSlice {start len : Nat} {act : BufferM α len Unit} {S : Nat → Prop}
    {f : Nat → α} (hfit : start + len ≤ n) (h : Puts act S fun j => f (start + j)) :
    Puts (onSlice start len act : BufferM α n Unit)
      (fun i => start ≤ i ∧ i < start + len ∧ S (i - start)) f := by
  apply Acts.congr (acts_onSlice hfit h)
  intro i _ x
  by_cases hin : start ≤ i ∧ i < start + len
  · rw [if_pos hin]
    by_cases hS : S (i - start)
    · rw [store_of_mem hS, store_of_mem ⟨hin.1, hin.2, hS⟩, Nat.add_sub_cancel' hin.1]
    · rw [store_of_not_mem hS, store_of_not_mem (fun h => hS h.2.2)]
  · rw [if_neg hin, store_of_not_mem (fun h => hin ⟨h.1, h.2.1⟩)]

theorem Fills.puts_onSlice {start len : Nat} {act : BufferM α len Unit} {f : Nat → α}
    (hfit : start + len ≤ n) (h : Fills act fun j => f (start + j)) :
    Puts (onSlice start len act : BufferM α n Unit)
      (fun i => start ≤ i ∧ i < start + len) f := by
  apply Puts.congr (BufferM.puts_onSlice hfit h.puts)
  · intro i _
    constructor
    · rintro ⟨hlo, hhi, _⟩
      exact ⟨hlo, hhi⟩
    · rintro ⟨hlo, hhi⟩
      exact ⟨hlo, hhi, by omega⟩
  · intro i _ _
    rfl

/-!
## Chunks
-/

theorem foldl_idle {γ : Type} {items : List β} {step : γ → β → γ}
    (hidle : ∀ c ∈ items, ∀ x, step x c = x) (x : γ) : items.foldl step x = x := by
  induction items with
  | nil =>
      rfl
  | cons c rest ih =>
      rw [List.foldl_cons, hidle c List.mem_cons_self]
      exact ih fun d hd => hidle d (List.mem_cons_of_mem c hd)

/-- Of the steps of a fold over distinct items all but one do nothing. -/
theorem foldl_eq_of_mem {γ : Type} {items : List β} {step : γ → β → γ} {b : β}
    (hnodup : items.Nodup) (hb : b ∈ items) (hidle : ∀ c ∈ items, c ≠ b → ∀ x, step x c = x)
    (x : γ) : items.foldl step x = step x b := by
  rcases List.append_of_mem hb with ⟨front, back, hsplit⟩
  rw [hsplit, List.nodup_middle, List.nodup_cons] at hnodup
  have hne : ∀ c ∈ front ++ back, c ≠ b := fun c hc hEq => hnodup.1 (hEq ▸ hc)
  have hfront : ∀ x, front.foldl step x = x := foldl_idle fun c hc =>
    hidle c (by rw [hsplit]; simp [hc]) (hne c (List.mem_append.mpr (Or.inl hc)))
  have hback : ∀ x, back.foldl step x = x := foldl_idle fun c hc =>
    hidle c (by rw [hsplit]; simp [hc]) (hne c (List.mem_append.mpr (Or.inr hc)))
  rw [hsplit, List.foldl_append, List.foldl_cons, hfront, hback]

/-- A loop in which one round at most acts on each cell. -/
theorem foldl_range_of_lt {γ : Type} {count b : Nat} {step : γ → Nat → γ} (hb : b < count)
    (hidle : ∀ c < count, c ≠ b → ∀ x, step x c = x) (x : γ) :
    (List.range count).foldl step x = step x b :=
  foldl_eq_of_mem List.nodup_range (List.mem_range.mpr hb)
    (fun c hc => hidle c (List.mem_range.mp hc)) x

theorem foldl_range_idle {γ : Type} {count : Nat} {step : γ → Nat → γ}
    (hidle : ∀ c < count, ∀ x, step x c = x) (x : γ) : (List.range count).foldl step x = x :=
  foldl_idle (fun c hc => hidle c (List.mem_range.mp hc)) x

theorem chunkCount_eq {chunk count : Nat} (hchunk : 0 < chunk) (hn : n = count * chunk) :
    chunkCount n chunk = count := by
  rw [chunkCount, hn]
  apply Nat.div_eq_of_lt_le
  · omega
  · rw [Nat.succ_mul]
    omega

theorem acts_runChunks {chunk count : Nat} (hn : n = count * chunk) {task : ChunkTask α}
    {g : Nat → Nat → α → α} (h : ∀ k < count, Acts (task k chunk) (g k)) {order : List Nat}
    (horder : ∀ k ∈ order, k < count) :
    Acts (runChunks chunk task order : BufferM α n Unit)
      (fun i x => order.foldl (fun x k =>
        if k * chunk ≤ i ∧ i < k * chunk + chunk then g k (i - k * chunk) x else x) x) := by
  induction order with
  | nil =>
      exact acts_pure
  | cons k rest ih =>
      have hk : k < count := horder k List.mem_cons_self
      have hend : k * chunk + chunk ≤ n := by
        rw [hn]
        exact Loop.mul_add_le chunk hk
      have hlen : min chunk (n - k * chunk) = chunk := by omega
      have hhead := acts_onSlice (n := n) hend (h k hk)
      have htail := ih fun j hj => horder j (List.mem_cons_of_mem k hj)
      rw [runChunks, hlen]
      exact Acts.bind (b := fun _ => runChunks chunk task rest) hhead htail

/-- Chunks of equal length act each on its own cells, whatever the schedule. -/
theorem acts_onChunks {chunk count : Nat} (schedule : Schedule) (hchunk : 0 < chunk)
    (hn : n = count * chunk) {task : ChunkTask α} {g : Nat → Nat → α → α}
    (h : ∀ k < count, Acts (task k chunk) (g k)) :
    Acts (onChunks schedule chunk task : BufferM α n Unit)
      (fun i x => g (i / chunk) (i % chunk) x) := by
  have hcount := chunkCount_eq hchunk hn
  have hperm := schedule.order_perm count
  have hmem : ∀ k, k ∈ schedule.order count ↔ k < count := by
    intro k
    rw [hperm.mem_iff, List.mem_range]
  have hrun : Acts (runChunks chunk task (schedule.order count) : BufferM α n Unit) _ :=
    acts_runChunks hn h fun k hk => (hmem k).mp hk
  rw [onChunks, if_neg (by omega), hcount]
  apply Acts.congr hrun
  intro i hi x
  have hin : i / chunk < count := Loop.div_lt_of_lt_mul (by omega)
  have hsplit : i / chunk * chunk + i % chunk = i := Nat.div_add_mod' i chunk
  have hmod : i % chunk < chunk := Nat.mod_lt i hchunk
  -- all chunks but its own leave the cell alone, so their order does not show
  rw [foldl_eq_of_mem (hperm.nodup_iff.mpr List.nodup_range) ((hmem _).mpr hin),
    if_pos ⟨by omega, by omega⟩]
  · congr 1
    omega
  · intro k _ hk y
    rw [if_neg]
    rintro ⟨hlo, hhi⟩
    apply hk
    symm
    apply Nat.div_eq_of_lt_le
    · exact hlo
    · rw [Nat.succ_mul]
      exact hhi

theorem fills_onChunks {chunk count : Nat} (schedule : Schedule) (hchunk : 0 < chunk)
    (hn : n = count * chunk) {task : ChunkTask α} {f : Nat → α}
    (h : ∀ k < count, Fills (task k chunk) fun j => f (k * chunk + j)) :
    Fills (onChunks schedule chunk task : BufferM α n Unit) f := by
  apply Acts.congr (acts_onChunks schedule hchunk hn h)
  intro i _ _
  exact congrArg f (Nat.div_add_mod' i chunk)

/-!
## Rows at a stride
-/

/-- The effect of `g r c` on column `c` of row `r`; the cells between the rows and after them are
kept. -/
def inRows (count stride width : Nat) (g : Nat → Nat → α → α) (i : Nat) (x : α) : α :=
  if i / stride < count ∧ i % stride < width then g (i / stride) (i % stride) x else x

section

variable {count stride width : Nat} {g : Nat → Nat → α → α} (hwidth : width ≤ stride)
include hwidth

theorem inRows_of_lt {r c : Nat} (hr : r < count) (hc : c < width) (x : α) :
    inRows count stride width g (r * stride + c) x = g r c x := by
  have hstride := Nat.lt_of_lt_of_le hc hwidth
  rw [inRows, Loop.add_mul_div_of_lt hstride, Loop.add_mul_mod_of_lt hstride, if_pos ⟨hr, hc⟩]

omit hwidth in
theorem inRows_of_ne {i : Nat} (h : ∀ r < count, ∀ c < width, i ≠ r * stride + c) (x : α) :
    inRows count stride width g i x = x := by
  rw [inRows, if_neg]
  rintro ⟨hr, hc⟩
  exact h _ hr _ hc (Nat.div_add_mod' i stride).symm

omit hwidth in
theorem mapIdx_inRows_empty (hempty : count = 0 ∨ width = 0) (v : Vector α n) :
    v.mapIdx (inRows count stride width g) = v := by
  apply Vector.ext
  intro i hi
  rw [Vector.getElem_mapIdx, inRows_of_ne]
  intro r hr c hc
  rcases hempty with hcount | hwidth
  · rw [hcount] at hr
    exact absurd hr (Nat.not_lt_zero r)
  · rw [hwidth] at hc
    exact absurd hc (Nat.not_lt_zero c)

theorem acts_rows {act : Nat → BufferM α width Unit} (hfit : ∀ r < count, r * stride + width ≤ n)
    (h : ∀ r < count, Acts (act r) (g r)) :
    Acts (Loop.forRange 0 count fun r => onSlice (r * stride) width (act r) : BufferM α n Unit)
      (inRows count stride width g) := by
  apply Acts.congr (acts_forRange_zero fun r hr => acts_onSlice (hfit r hr) (h r hr))
  intro i _ x
  -- a cell lies in the row with the number of its quotient, or in no row
  have hrow : ∀ r, r * stride ≤ i ∧ i < r * stride + width →
      r = i / stride ∧ i % stride < width := by
    rintro r ⟨hlo, hhi⟩
    have hoffset : i - r * stride < stride := by omega
    have hsplit : i = r * stride + (i - r * stride) := by omega
    rw [hsplit, Loop.add_mul_div_of_lt hoffset, Loop.add_mul_mod_of_lt hoffset]
    constructor
    · rfl
    · omega
  have hsplit := Nat.div_add_mod' i stride
  by_cases hin : i / stride < count ∧ i % stride < width
  · rw [inRows, if_pos hin, foldl_range_of_lt hin.1, if_pos ⟨by omega, by omega⟩]
    · congr 1
      omega
    · intro r _ hne y
      rw [if_neg]
      intro hmem
      exact hne (hrow r hmem).1
  · rw [inRows, if_neg hin]
    apply foldl_range_idle
    intro r hr y
    rw [if_neg]
    intro hmem
    rcases hrow r hmem with ⟨hEq, hmod⟩
    rw [hEq] at hr
    exact hin ⟨hr, hmod⟩

/-- Rows without gaps are chunks, and rows with gaps run one after the other: the cells do not
tell. -/
theorem acts_chunksOrRows (schedule : Schedule) (hcount : 0 < count) (hpos : 0 < width)
    {act : Nat → BufferM α width Unit} (h : ∀ r < count, Acts (act r) (g r)) :
    Acts (if stride = width then
        onChunks schedule stride fun r _ => onSlice 0 width (act r)
      else
        Loop.forRange 0 count fun r => onSlice (r * stride) width (act r) :
          BufferM α ((count - 1) * stride + width) Unit) (inRows count stride width g) := by
  by_cases hclose : stride = width
  · subst hclose
    have hchunks : (count - 1) * stride + stride = count * stride := by
      rw [← Nat.succ_mul, Nat.succ_eq_add_one, Nat.sub_add_cancel hcount]
    rw [if_pos rfl]
    apply Acts.congr (acts_onChunks schedule hpos hchunks fun r hr =>
      acts_onSlice (Nat.le_of_eq (Nat.zero_add _)) (h r hr))
    intro i hi x
    rw [hchunks] at hi
    simp only [inRows, Loop.div_lt_of_lt_mul hi, Loop.mod_lt_of_lt_mul hi, Nat.zero_le,
      Nat.zero_add, Nat.sub_zero, and_self, if_true]
  · rw [if_neg hclose]
    exact acts_rows hwidth (fun r hr => Loop.row_end_le (Nat.le_refl _) hr) h

omit hwidth in
/-- Rows in the front part of a buffer. -/
theorem acts_onSlice_inRows {act : BufferM α ((count - 1) * stride + width) Unit}
    (hfit : (count - 1) * stride + width ≤ n) (h : Acts act (inRows count stride width g)) :
    Acts (onSlice 0 ((count - 1) * stride + width) act : BufferM α n Unit)
      (inRows count stride width g) := by
  have hfit' : 0 + ((count - 1) * stride + width) ≤ n := by
    rw [Nat.zero_add]
    exact hfit
  apply Acts.congr (acts_onSlice hfit' h)
  intro i _ x
  rw [Nat.zero_add, Nat.sub_zero]
  by_cases hin : i < (count - 1) * stride + width
  · rw [if_pos ⟨Nat.zero_le i, hin⟩]
  · -- behind the last row there is no column of a row
    rw [if_neg fun h => hin h.2, inRows_of_ne]
    intro r hr c hc hEq
    rw [hEq] at hin
    exact hin (Loop.row_place_lt (Nat.le_refl _) hr hc)

end

end BufferM
end ConvSweep
