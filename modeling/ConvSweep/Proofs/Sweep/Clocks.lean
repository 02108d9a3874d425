import Mathlib
import ConvSweep.Proofs.Outcome
import ConvSweep.Sweep.Case

/-!
# Cases under other clocks

The clock shows in the times of a record and nowhere else, and what was written
before is never looked at.  So one case, run in two sessions with any clocks and any
lines, ends in the same way and writes the same lines up to their times.
-/

namespace ConvSweep

variable {α β γ δ : Type}

/-!
## Sessions with any clock
-/

/-- A session whose clock may show anything. -/
structure Timed where
  readings : Nat → Duration
  /-- How often the clock was read. -/
  taken : Nat
  files : List (String × ByteArray)
  lines : List String

abbrev TimedM : Type → Type :=
  EStateM Failure Timed

instance : MonadSweep TimedM where
  now s := .ok (s.readings s.taken) { s with taken := s.taken + 1 }
  writeLine line s := .ok () { s with lines := s.lines ++ [line] }
  readFile name s :=
    match s.files.lookup name with
    | some bytes => .ok bytes s
    | none => .error (.error (.stream .notFound)) s

namespace Timed

abbrev Ending (α : Type) : Type :=
  EStateM.Result Failure Timed α

def Ending.failure? : Ending α → Option Failure
  | .ok _ _ => none
  | .error f _ => some f

def Ending.session : Ending α → Timed
  | .ok _ s => s
  | .error _ s => s

/-- The lines that were written since `s`. -/
def Ending.printed (ending : Ending α) (s : Timed) : List String :=
  ending.session.lines.drop s.lines.length

end Timed

open Timed

/-!
## Two runs of one computation
-/

/-- The same record, up to its two times. -/
def ConvRecord.SameRun (r r' : ConvRecord) : Prop :=
  ∃ convert compute, r' = { r with convert, compute }

/-- Equal lines, or the lines of one record with other times. -/
def SameButTimes (line line' : String) : Prop :=
  line = line' ∨ ∃ r r' : ConvRecord, r.SameRun r' ∧ line = r.text ∧ line' = r'.text

/-- Both endings are successes with related values or the same failure, with the given lines. -/
inductive EndsAlike (R : α → β → Prop) (lines lines' : List String) :
    Ending α → Ending β → Prop
  | ok {a : α} {b : β} {t t' : Timed} (related : R a b) (written : t.lines = lines)
      (written' : t'.lines = lines') : EndsAlike R lines lines' (.ok a t) (.ok b t')
  | error {f : Failure} {t t' : Timed} (written : t.lines = lines)
      (written' : t'.lines = lines') : EndsAlike R lines lines' (.error f t) (.error f t')

/-- From any two sessions, both computations end alike and write the same lines up to times. -/
def Alike (R : α → β → Prop) (x : TimedM α) (y : TimedM β) : Prop :=
  ∀ s s' : Timed, ∃ new new', List.Forall₂ SameButTimes new new' ∧
    EndsAlike R (s.lines ++ new) (s'.lines ++ new') (x s) (y s')

theorem Alike.bind {R : α → β → Prop} {S : γ → δ → Prop} {x : TimedM α} {y : TimedM β}
    {f : α → TimedM γ} {g : β → TimedM δ} (h : Alike R x y)
    (hrest : ∀ a b, R a b → Alike S (f a) (g b)) : Alike S (x >>= f) (y >>= g) := by
  intro s s'
  rcases h s s' with ⟨new, new', hnew, hends⟩
  show ∃ new new', _ ∧ EndsAlike S _ _ (EStateM.bind x f s) (EStateM.bind y g s')
  unfold EStateM.bind
  generalize x s = ending at hends ⊢
  generalize y s' = ending' at hends ⊢
  cases hends with
  | error hwritten hwritten' =>
      exact ⟨new, new', hnew, .error hwritten hwritten'⟩
  | ok hrelated hwritten hwritten' =>
      rename_i a b t t'
      rcases hrest a b hrelated t t' with ⟨more, more', hmore, hends⟩
      rw [hwritten, hwritten', List.append_assoc, List.append_assoc] at hends
      exact ⟨new ++ more, new' ++ more', List.rel_append hnew hmore, hends⟩

theorem alike_pure {R : α → β → Prop} {a : α} {b : β} (h : R a b) :
    Alike R (pure a : TimedM α) (pure b) :=
  fun _ _ => ⟨[], [], .nil, .ok h (List.append_nil _).symm (List.append_nil _).symm⟩

theorem alike_now :
    Alike (fun _ _ => True) (MonadSweep.now : TimedM Duration) MonadSweep.now :=
  fun _ _ => ⟨[], [], .nil, .ok trivial (List.append_nil _).symm (List.append_nil _).symm⟩

theorem alike_writeLine {line line' : String} (h : SameButTimes line line') :
    Alike (fun _ _ => True) (MonadSweep.writeLine line : TimedM Unit)
      (MonadSweep.writeLine line') :=
  fun _ _ => ⟨[line], [line'], .cons h .nil, .ok trivial rfl rfl⟩

theorem alike_ofExcept (x : Outcome α) :
    Alike Eq (MonadExcept.ofExcept x : TimedM α) (MonadExcept.ofExcept x) := by
  cases x with
  | ok a =>
      exact alike_pure rfl
  | error f =>
      exact fun _ _ => ⟨[], [], .nil, .error (List.append_nil _).symm (List.append_nil _).symm⟩

theorem alike_foldlM {step : β → α → TimedM β}
    (h : ∀ b b' a, Alike (fun _ _ => True) (step b a) (step b' a)) (items : List α) (b b' : β) :
    Alike (fun _ _ => True) (items.foldlM step b) (items.foldlM step b') := by
  induction items generalizing b b' with
  | nil =>
      exact alike_pure trivial
  | cons item rest ih =>
      rw [List.foldlM_cons, List.foldlM_cons]
      exact (h b b' item).bind fun b b' _ => ih b b'

/-- What two runs of alike computations have in common. -/
theorem Alike.endings {R : α → β → Prop} {x : TimedM α} {y : TimedM β} (h : Alike R x y)
    (s s' : Timed) :
    Ending.failure? (x s) = Ending.failure? (y s') ∧
      (Ending.session (x s)).lines = s.lines ++ Ending.printed (x s) s ∧
      (Ending.session (y s')).lines = s'.lines ++ Ending.printed (y s') s' ∧
      List.Forall₂ SameButTimes (Ending.printed (x s) s) (Ending.printed (y s') s') := by
  rcases h s s' with ⟨new, new', hnew, hends⟩
  generalize x s = ending at hends ⊢
  generalize y s' = ending' at hends ⊢
  cases hends with
  | error hwritten hwritten' =>
      simp only [Ending.failure?, Ending.printed, Ending.session, hwritten, hwritten',
        List.drop_left, hnew, and_self]
  | ok hrelated hwritten hwritten' =>
      simp only [Ending.failure?, Ending.printed, Ending.session, hwritten, hwritten',
        List.drop_left, hnew, and_self]

/-!
## One case
-/

theorem alike_compute (e : Executor Binary32) :
    Alike (fun p q => p.1 = q.1 ∧ p.2.SameRun q.2)
      (e.compute : TimedM (Executor Binary32 × ConvRecord)) e.compute := by
  unfold Executor.compute
  apply alike_now.bind
  intro t₁ t₁' _
  apply (alike_ofExcept _).bind
  rintro filled _ rfl
  apply alike_now.bind
  intro t₂ t₂' _
  apply (alike_ofExcept _).bind
  rintro multiplied _ rfl
  apply alike_now.bind
  intro t₃ t₃' _
  exact alike_pure ⟨rfl, _, _, rfl⟩

namespace Sweep

/-- The executor after timed runs does not depend on the clock; the reports are never read. -/
theorem alike_runTimed (e : Executor Binary32) (report report' : CaseReport) (count : Nat) :
    Alike (fun p q => p.1 = q.1) (runTimed e report count : TimedM _)
      (runTimed e report' count) := by
  induction count generalizing e report report' with
  | zero =>
      exact alike_pure rfl
  | succ count ih =>
      apply (alike_compute e).bind
      rintro ⟨next, record⟩ ⟨_, record'⟩ ⟨rfl, hrecord⟩
      apply (alike_writeLine (.inr ⟨record, record', hrecord, rfl, rfl⟩)).bind
      intro _ _ _
      exact ih next _ _

theorem alike_runCompared (base : ExecutorConfig) (repeats : Nat)
    (input weight reference : Tensor Binary32) (report report' : CaseReport)
    (variant : Layout × Algorithm) :
    Alike (fun _ _ => True)
      (runCompared base repeats input weight reference report variant : TimedM CaseReport)
      (runCompared base repeats input weight reference report' variant) := by
  unfold runCompared
  apply (alike_ofExcept _).bind
  rintro e _ rfl
  apply (alike_runTimed e report report' repeats).bind
  rintro ⟨e, report⟩ ⟨_, report'⟩ rfl
  apply (alike_ofExcept _).bind
  rintro result _ rfl
  apply (alike_ofExcept _).bind
  rintro squares _ rfl
  apply (alike_ofExcept _).bind
  rintro maxRelative _ rfl
  apply (alike_writeLine (.inl rfl)).bind
  intro _ _ _
  exact alike_pure trivial

theorem alike_runPercentiles (repeats : Nat) (e : Executor Binary32) (report report' : CaseReport)
    (percentiles : List Binary32) :
    Alike (fun _ _ => True) (runPercentiles repeats e report percentiles : TimedM CaseReport)
      (runPercentiles repeats e report' percentiles) := by
  induction percentiles generalizing e report report' with
  | nil =>
      exact alike_pure trivial
  | cons percentile rest ih =>
      apply (alike_ofExcept _).bind
      rintro e _ rfl
      apply (alike_runTimed e report report' repeats).bind
      rintro ⟨e, report⟩ ⟨_, report'⟩ rfl
      exact ih e report report'

theorem alike_runCase (config : SweepConfig) (shape : FilterShape) (weight : Tensor Binary32)
    (pool : Array Binary32) :
    Alike (fun _ _ => True) (runCase config shape weight pool : TimedM CaseReport)
      (runCase config shape weight pool) := by
  unfold runCase
  apply (alike_ofExcept _).bind
  rintro input _ rfl
  apply (alike_ofExcept _).bind
  rintro e _ rfl
  apply (alike_runTimed e .empty .empty _).bind
  rintro ⟨e, report⟩ ⟨_, report'⟩ rfl
  apply (alike_ofExcept _).bind
  rintro reference _ rfl
  apply (alike_foldlM (fun report report' variant =>
    alike_runCompared _ _ input weight reference report report' variant) _ report report').bind
  intro report report' _
  cases config.percentiles with
  | nil =>
      exact alike_pure trivial
  | cons first rest =>
      apply (alike_ofExcept _).bind
      rintro e _ rfl
      exact alike_runPercentiles _ e report report' _

/-- A case only adds to the lines. -/
theorem lines_of_runCase {config : SweepConfig} {shape : FilterShape} {weight : Tensor Binary32}
    {pool : Array Binary32} {s : Timed} {ending : Ending CaseReport}
    (h : (runCase config shape weight pool : TimedM CaseReport) s = ending) :
    ending.session.lines = s.lines ++ ending.printed s := by
  rw [← h]
  exact ((alike_runCase config shape weight pool).endings s s).2.1

end Sweep
end ConvSweep
