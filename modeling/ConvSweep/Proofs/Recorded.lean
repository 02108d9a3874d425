import Mathlib
import ConvSweep.Proofs.Cellwise

/-!
# Recorded writes

The final buffer of an action shows the last write to each cell, but not how many
there were.  A recorded action keeps a list of its writes next to its buffer: the
place and the value of each.  It is written like the action that it records, with
the same loops, and `Erases` says that it is this action once the record is
dropped: on every buffer, and also where the action ends in a fault.
-/

namespace ConvSweep

open Loop

variable {α β : Type}

/-- A buffer and the writes that made it, from the first to the last. -/
structure Recorded (α : Type) (n : Nat) where
  buffer : Vector α n
  writes : List (Nat × α)

/-- Actions on a buffer that record their writes. -/
abbrev RecordM (α : Type) (n : Nat) : Type → Type :=
  EStateM Fault (Recorded α n)

/-- The writes to a stretch, with the places that they have in the whole buffer. -/
def shiftWrites (start : Nat) (writes : List (Nat × α)) : List (Nat × α) :=
  writes.map fun (i, x) => (start + i, x)

namespace RecordM

variable {n : Nat}

/-!
## Actions
-/

def lift (x : Except Fault β) : RecordM α n β := fun s =>
  match x with
  | .ok b => .ok b s
  | .error f => .error f s

instance : MonadLift (Except Fault) (RecordM α n) where
  monadLift := lift

def write (i : Nat) (x : α) : RecordM α n Unit := fun s =>
  match BufferM.write i x s.buffer with
  | .ok _ v => .ok () ⟨v, s.writes ++ [(i, x)]⟩
  | .error f v => .error f ⟨v, s.writes⟩

def onSlice (start len : Nat) (act : RecordM α len β) : RecordM α n β := fun s =>
  if h : start + len ≤ n then
    match act ⟨window s.buffer start len h, []⟩ with
    | .ok b t => .ok b ⟨splice s.buffer start t.buffer h, s.writes ++ shiftWrites start t.writes⟩
    | .error f t =>
        .error f ⟨splice s.buffer start t.buffer h, s.writes ++ shiftWrites start t.writes⟩
  else
    .error .outOfRange s

def runChunks (chunk : Nat) (task : Nat → (len : Nat) → RecordM α len Unit) :
    List Nat → RecordM α n Unit
  | [] => pure ()
  | i :: rest => do
      onSlice (i * chunk) (min chunk (n - i * chunk)) (task i _)
      runChunks chunk task rest

def onChunks (schedule : Schedule) (chunk : Nat) (task : Nat → (len : Nat) → RecordM α len Unit) :
    RecordM α n Unit :=
  if chunk = 0 then
    pure ()
  else
    runChunks chunk task (schedule.order (chunkCount n chunk))

/-!
## Without the record
-/

/-- A result without its record. -/
def erase : EStateM.Result Fault (Recorded α n) β → EStateM.Result Fault (Vector α n) β
  | .ok b s => .ok b s.buffer
  | .error f s => .error f s.buffer

/-- The recorded action is `act`, with a record of its writes. -/
def Erases (recorded : RecordM α n β) (act : BufferM α n β) : Prop :=
  ∀ s, act s.buffer = erase (recorded s)

theorem erases_pure (b : β) : Erases (pure b : RecordM α n β) (pure b) := fun _ => rfl

theorem erases_lift (x : Except Fault β) :
    Erases (liftM x : RecordM α n β) (liftM x : BufferM α n β) := by
  intro s
  cases x with
  | error f =>
      rfl
  | ok b =>
      rfl

theorem Erases.bind {γ : Type} {recorded : RecordM α n β} {act : BufferM α n β}
    {k : β → RecordM α n γ} {l : β → BufferM α n γ} (h : Erases recorded act)
    (hk : ∀ b, Erases (k b) (l b)) : Erases (recorded >>= k) (act >>= l) := by
  intro s
  show EStateM.bind act l s.buffer = erase (EStateM.bind recorded k s)
  rw [EStateM.bind, EStateM.bind, h s]
  cases recorded s with
  | error f t =>
      rfl
  | ok b t =>
      exact hk b t

theorem erases_write (i : Nat) (x : α) :
    Erases (write i x : RecordM α n Unit) (BufferM.write i x) := by
  intro s
  rw [write, BufferM.write]
  by_cases hi : i < n
  · rw [dif_pos hi]
    rfl
  · rw [dif_neg hi]
    rfl

theorem erases_forRange {start count : Nat} {body : Nat → RecordM α n Unit}
    {act : Nat → BufferM α n Unit} (h : ∀ i, Erases (body i) (act i)) :
    Erases (forRange start count body) (forRange start count act) := by
  induction count generalizing start with
  | zero =>
      exact erases_pure ()
  | succ count ih =>
      exact (h start).bind fun _ => ih

theorem Erases.onSlice {len : Nat} {recorded : RecordM α len β} {act : BufferM α len β}
    (h : Erases recorded act) (start : Nat) :
    Erases (onSlice start len recorded : RecordM α n β) (BufferM.onSlice start len act) := by
  intro s
  rw [RecordM.onSlice, BufferM.onSlice]
  by_cases hfit : start + len ≤ n
  · rw [dif_pos hfit, dif_pos hfit, h ⟨window s.buffer start len hfit, []⟩]
    cases recorded ⟨window s.buffer start len hfit, []⟩ with
    | error f t =>
        rfl
    | ok b t =>
        rfl
  · rw [dif_neg hfit, dif_neg hfit]
    rfl

theorem erases_onChunks {chunk : Nat} {task : Nat → (len : Nat) → RecordM α len Unit}
    {act : ChunkTask α} (schedule : Schedule) (h : ∀ i len, Erases (task i len) (act i len)) :
    Erases (onChunks schedule chunk task : RecordM α n Unit)
      (BufferM.onChunks schedule chunk act) := by
  have hruns : ∀ order : List Nat,
      Erases (runChunks chunk task order : RecordM α n Unit)
        (BufferM.runChunks chunk act order) := by
    intro order
    induction order with
    | nil =>
        exact erases_pure ()
    | cons i rest ih =>
        exact ((h i _).onSlice (i * chunk)).bind fun _ => ih
  rw [onChunks, BufferM.onChunks]
  by_cases hchunk : chunk = 0
  · rw [if_pos hchunk, if_pos hchunk]
    exact erases_pure ()
  · rw [if_neg hchunk, if_neg hchunk]
    exact hruns _

/-!
## The record
-/

/-- On every buffer the action ends without a fault, and it makes these writes. -/
def Records (recorded : RecordM α n Unit) (writes : List (Nat × α)) : Prop :=
  ∀ s, ∃ v, recorded s = .ok () ⟨v, s.writes ++ writes⟩

theorem records_pure : Records (pure () : RecordM α n Unit) [] := by
  intro s
  refine ⟨s.buffer, ?_⟩
  rw [List.append_nil]
  rfl

theorem Records.bind {a : RecordM α n Unit} {b : Unit → RecordM α n Unit}
    {first second : List (Nat × α)} (ha : Records a first) (hb : Records (b ()) second) :
    Records (a >>= b) (first ++ second) := by
  intro s
  rcases ha s with ⟨v, hv⟩
  rcases hb ⟨v, s.writes ++ first⟩ with ⟨w, hw⟩
  refine ⟨w, ?_⟩
  show EStateM.bind a b s = _
  rw [EStateM.bind, hv, ← List.append_assoc]
  exact hw

theorem lift_bind {x : Except Fault β} {b : β} (h : x = .ok b) (k : β → RecordM α n Unit) :
    ((liftM x : RecordM α n β) >>= k) = k b := by
  rw [h]
  rfl

theorem records_write {i : Nat} (hi : i < n) (x : α) :
    Records (write i x : RecordM α n Unit) [(i, x)] := by
  intro s
  refine ⟨s.buffer.set i x hi, ?_⟩
  rw [write, BufferM.write, dif_pos hi]

theorem records_forRange {start count : Nat} {body : Nat → RecordM α n Unit}
    {writes : Nat → List (Nat × α)}
    (h : ∀ i, start ≤ i → i < start + count → Records (body i) (writes i)) :
    Records (forRange start count body) ((List.range' start count).flatMap writes) := by
  induction count generalizing start with
  | zero =>
      exact records_pure
  | succ count ih =>
      have hfirst := h start (Nat.le_refl _) (by omega)
      have hrest : Records (forRange (start + 1) count body) _ :=
        ih fun i hi hi' => h i (by omega) (by omega)
      rw [List.range'_succ, List.flatMap_cons]
      exact hfirst.bind (b := fun _ => forRange (start + 1) count body) hrest

theorem records_forRange_zero {count : Nat} {body : Nat → RecordM α n Unit}
    {writes : Nat → List (Nat × α)} (h : ∀ i < count, Records (body i) (writes i)) :
    Records (forRange 0 count body) ((List.range count).flatMap writes) := by
  rw [List.range_eq_range']
  apply records_forRange
  intro i _ hi
  exact h i (by omega)

theorem Records.onSlice {start len : Nat} {recorded : RecordM α len Unit}
    {writes : List (Nat × α)} (h : Records recorded writes) (hfit : start + len ≤ n) :
    Records (onSlice start len recorded : RecordM α n Unit) (shiftWrites start writes) := by
  intro s
  rcases h ⟨window s.buffer start len hfit, []⟩ with ⟨v, hv⟩
  refine ⟨splice s.buffer start v hfit, ?_⟩
  rw [RecordM.onSlice, dif_pos hfit, hv, List.nil_append]

theorem records_onChunks {chunk count : Nat} (schedule : Schedule) (hchunk : 0 < chunk)
    (hn : n = count * chunk) {task : Nat → (len : Nat) → RecordM α len Unit}
    {writes : Nat → List (Nat × α)} (h : ∀ i < count, Records (task i chunk) (writes i)) :
    Records (onChunks schedule chunk task : RecordM α n Unit)
      ((schedule.order count).flatMap fun i => shiftWrites (i * chunk) (writes i)) := by
  have hcount := BufferM.chunkCount_eq hchunk hn
  have hruns : ∀ order : List Nat, (∀ i ∈ order, i < count) →
      Records (runChunks chunk task order : RecordM α n Unit)
        (order.flatMap fun i => shiftWrites (i * chunk) (writes i)) := by
    intro order
    induction order with
    | nil =>
        intro _
        exact records_pure
    | cons i rest ih =>
        intro horder
        have hi := horder i List.mem_cons_self
        have hend : i * chunk + chunk ≤ n := by
          rw [hn]
          exact mul_add_le chunk hi
        have hlen : min chunk (n - i * chunk) = chunk := by omega
        have hrest := ih fun j hj => horder j (List.mem_cons_of_mem i hj)
        rw [runChunks, hlen, List.flatMap_cons]
        exact ((h i hi).onSlice hend).bind (b := fun _ => runChunks chunk task rest) hrest
  rw [onChunks, if_neg (Nat.ne_of_gt hchunk), hcount]
  apply hruns
  intro i hi
  exact List.mem_range.mp ((schedule.order_perm count).mem_iff.mp hi)

/-- A recorded action ends in the buffer of the action, with its writes. -/
theorem Records.run {recorded : RecordM α n Unit} {act : BufferM α n Unit}
    {writes : List (Nat × α)} (h : Records recorded writes) (herases : Erases recorded act)
    {v w : Vector α n} (hact : act v = .ok () w) : recorded ⟨v, []⟩ = .ok () ⟨w, writes⟩ := by
  rcases h ⟨v, []⟩ with ⟨u, hu⟩
  have herased := herases ⟨v, []⟩
  rw [hu, hact] at herased
  cases herased
  exact hu

end RecordM
end ConvSweep
