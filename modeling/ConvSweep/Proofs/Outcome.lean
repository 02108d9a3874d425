import Mathlib
import ConvSweep.Error
import ConvSweep.Size

/-!
# Computations that succeed

A sequence of checked steps succeeds exactly when its steps do.  The lemmas below
take such a sequence apart at its first step, also where the step is an error or a
fault of its own type.
-/

namespace ConvSweep

variable {α β ε : Type}

theorem bind_eq_ok {x : Except ε α} {f : α → Except ε β} {b : β} (h : (x >>= f) = .ok b) :
    ∃ a, x = .ok a ∧ f a = .ok b := by
  cases x with
  | error e =>
      cases h
  | ok a =>
      exact ⟨a, rfl, h⟩

theorem bind_eq_error {x : Except ε α} {f : α → Except ε β} {e : ε} (h : (x >>= f) = .error e) :
    x = .error e ∨ ∃ a, x = .ok a ∧ f a = .error e := by
  cases x with
  | error e' =>
      cases h
      exact .inl rfl
  | ok a =>
      exact .inr ⟨a, rfl, h⟩

theorem exists_of_isOk {x : Except ε α} (h : x.isOk = true) : ∃ a, x = .ok a := by
  cases x with
  | error e =>
      cases h
  | ok a =>
      exact ⟨a, rfl⟩

theorem ok_bind (a : α) (f : α → Except ε β) : ((Except.ok a : Except ε α) >>= f) = f a := rfl

theorem mapM_ok {items : List α} {f : α → Except ε β} {g : α → β}
    (h : ∀ item ∈ items, f item = .ok (g item)) : items.mapM f = .ok (items.map g) := by
  induction items with
  | nil =>
      rfl
  | cons item rest ih =>
      rw [List.mapM_cons, h item List.mem_cons_self, ok_bind,
        ih fun item' hitem => h item' (List.mem_cons_of_mem item hitem)]
      rfl

theorem of_mapM {items : List α} {results : List β} {f : α → Except ε β}
    (h : items.mapM f = .ok results) {item : α} (hitem : item ∈ items) :
    ∃ result ∈ results, f item = .ok result := by
  induction items generalizing results with
  | nil =>
      cases hitem
  | cons first rest ih =>
      rw [List.mapM_cons] at h
      rcases bind_eq_ok h with ⟨result, hresult, h⟩
      rcases bind_eq_ok h with ⟨others, hothers, h⟩
      cases h
      rcases List.mem_cons.mp hitem with rfl | hitem
      · exact ⟨result, List.mem_cons_self, hresult⟩
      · rcases ih hothers hitem with ⟨other, hother, heq⟩
        exact ⟨other, List.mem_cons_of_mem result hother, heq⟩

theorem of_mapError {ε' : Type} {x : Except ε α} {f : ε → ε'} {a : α}
    (h : x.mapError f = .ok a) : x = .ok a := by
  cases x with
  | error e =>
      cases h
  | ok b =>
      cases h
      rfl

theorem mapError_eq_error_iff {ε' : Type} {x : Except ε α} {f : ε → ε'} {e' : ε'} :
    x.mapError f = .error e' ↔ ∃ e, x = .error e ∧ e' = f e := by
  cases x with
  | error e =>
      simp [Except.mapError, eq_comm]
  | ok a =>
      simp [Except.mapError]

theorem error_step {x : Except Error α} {f : α → Outcome β} {b : β}
    (h : ((liftM x : Outcome α) >>= f) = .ok b) : ∃ a, x = .ok a ∧ f a = .ok b := by
  cases x with
  | error e =>
      cases h
  | ok a =>
      exact ⟨a, rfl, h⟩

theorem of_error_lift {x : Except Error α} {a : α} (h : (liftM x : Outcome α) = .ok a) :
    x = .ok a := by
  cases x with
  | error e =>
      cases h
  | ok b =>
      cases h
      rfl

theorem fault_step {x : Except Fault α} {f : α → Outcome β} {b : β}
    (h : ((liftM x : Outcome α) >>= f) = .ok b) : ∃ a, x = .ok a ∧ f a = .ok b := by
  cases x with
  | error e =>
      cases h
  | ok a =>
      exact ⟨a, rfl, h⟩

theorem error_ok_bind (a : α) (f : α → Outcome β) :
    ((liftM (Except.ok a : Except Error α) : Outcome α) >>= f) = f a := rfl

theorem fault_ok_bind (a : α) (f : α → Outcome β) :
    ((liftM (Except.ok a : Except Fault α) : Outcome α) >>= f) = f a := rfl

/-!
Only what follows a success of the first step matters.
-/

theorem bind_congr_ok {x : Except ε α} {f g : α → Except ε β}
    (h : ∀ a, x = .ok a → f a = g a) : (x >>= f) = (x >>= g) := by
  cases x with
  | error e =>
      rfl
  | ok a =>
      exact h a rfl

theorem error_bind_congr {x : Except Error α} {f g : α → Outcome β}
    (h : ∀ a, x = .ok a → f a = g a) :
    ((liftM x : Outcome α) >>= f) = (liftM x >>= g) := by
  cases x with
  | error e =>
      rfl
  | ok a =>
      exact h a rfl

theorem fault_bind_congr {x : Except Fault α} {f g : α → Outcome β}
    (h : ∀ a, x = .ok a → f a = g a) :
    ((liftM x : Outcome α) >>= f) = (liftM x >>= g) := by
  cases x with
  | error e =>
      rfl
  | ok a =>
      exact h a rfl

theorem of_check {fault : Fault} {condition : Prop} [Decidable condition] {u : Unit}
    (h : fault.check condition = .ok u) : condition := by
  by_cases hc : condition
  · exact hc
  · rw [Fault.check, if_neg hc] at h
    cases h

theorem check_of {condition : Prop} [Decidable condition] (fault : Fault) (h : condition) :
    fault.check condition = .ok () := by
  rw [Fault.check, if_pos h]

theorem check_bind {condition : Prop} [Decidable condition] {fault : Fault} (h : condition)
    (f : Unit → Except Fault β) : (fault.check condition >>= f) = f () := by
  rw [check_of fault h]
  rfl

/-!
## Computations on a state
-/

theorem bind_run {σ : Type} {x : EStateM ε σ α} {f : α → EStateM ε σ β} {a : α} {s s' : σ}
    (h : x s = .ok a s') : (x >>= f) s = f a s' := by
  show EStateM.bind x f s = _
  rw [EStateM.bind, h]

theorem bind_error {σ : Type} {x : EStateM ε σ α} {f : α → EStateM ε σ β} {e : ε} {s s' : σ}
    (h : x s = .error e s') : (x >>= f) s = .error e s' := by
  show EStateM.bind x f s = _
  rw [EStateM.bind, h]

theorem get_run {σ : Type} (f : σ → EStateM ε σ β) (s : σ) :
    ((get : EStateM ε σ σ) >>= f) s = f s s := rfl

theorem ofExcept_run {σ : Type} {x : Except ε α} {a : α} (h : x = .ok a) (s : σ) :
    (MonadExcept.ofExcept x : EStateM ε σ α) s = .ok a s := by
  rw [h]
  rfl

theorem ofExcept_error {σ : Type} {x : Except ε α} {e : ε} (h : x = .error e) (s : σ) :
    (MonadExcept.ofExcept x : EStateM ε σ α) s = .error e s := by
  rw [h]
  rfl

theorem lift_run {σ : Type} {x : Except Fault α} {a : α} (h : x = .ok a) (s : σ) :
    (MonadExcept.ofExcept (liftM x : Outcome α) : EStateM Failure σ α) s = .ok a s := by
  apply ofExcept_run
  rw [h]
  rfl

/-!
## Sizes
-/

namespace Size

theorem checked_of_lt {n : Nat} (h : n < limit) : checked n = .ok n := by
  rw [checked, if_pos (show Fits n from h)]

theorem checked_bind {n : Nat} (h : n < limit) (f : Nat → Except Fault β) :
    (checked n >>= f) = f n := by
  rw [checked_of_lt h]
  rfl

theorem checked_of_not_fits {n : Nat} (h : ¬ Fits n) : checked n = .error .overflow :=
  if_neg h

theorem of_checked {n m : Nat} (h : checked n = .ok m) : n < limit ∧ m = n := by
  rw [checked] at h
  split at h
  · cases h
    exact ⟨‹_›, rfl⟩
  · cases h

theorem reserve_of_lt {n : Nat} (h : n < bufferLimit) : reserve n = .ok () :=
  check_of _ h

theorem reserve_of_le {n : Nat} (h : bufferLimit ≤ n) : reserve n = .error .capacity :=
  if_neg (Nat.not_lt.mpr h)

theorem bufferLimit_lt_limit : bufferLimit < limit := by
  decide

end Size
end ConvSweep
