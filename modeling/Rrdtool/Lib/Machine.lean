import Mathlib.Data.List.Basic

/-!
# Labelled transition systems

A concurrent program is a partial step function `step : σ → α → Option σ`: an action is one
atomic section of one of its threads, `none` says that the section cannot run in that
state, and an interleaving is a list of actions. `run` executes an interleaving.

A property of all interleavings is proved with `run_invariant`. Where it only holds for
interleavings that stay out of some races, the race is a predicate `guard` on the state and
the action about to be taken, and `Guarded` says that every action of the run met it.
-/

namespace Machine

universe u v

variable {σ : Type u} {α : Type v}

/-- Execute an interleaving; `none` when one of its actions is not enabled. -/
def run (step : σ → α → Option σ) : σ → List α → Option σ
  | s, [] => some s
  | s, a :: as => (step s a).bind fun t => run step t as

/-- Every action of the interleaving meets `guard` in the state it is taken in. -/
def Guarded (step : σ → α → Option σ) (guard : σ → α → Prop) : σ → List α → Prop
  | _, [] => True
  | s, a :: as => guard s a ∧ ∀ t, step s a = some t → Guarded step guard t as

/-- The same for a guard that can be evaluated, along one run. -/
def checked (step : σ → α → Option σ) (guard : σ → α → Bool) : σ → List α → Bool
  | _, [] => true
  | s, a :: as => guard s a && (step s a).all fun t => checked step guard t as

variable {step : σ → α → Option σ}

@[simp] theorem run_nil (s : σ) : run step s [] = some s := rfl

theorem run_cons (s : σ) (a : α) (as : List α) :
    run step s (a :: as) = (step s a).bind fun t => run step t as := rfl

/-- Inversion for a run that starts with `a`. -/
theorem run_cons_eq_some {s t : σ} {a : α} {as : List α} :
    run step s (a :: as) = some t ↔ ∃ u, step s a = some u ∧ run step u as = some t := by
  rw [run_cons, Option.bind_eq_some_iff]

/-- **Guarded invariant rule**: what one guarded step keeps, a guarded run keeps. -/
theorem run_invariant {guard : σ → α → Prop} (I : σ → Prop)
    (hstep : ∀ s a t, guard s a → I s → step s a = some t → I t) :
    ∀ {s t : σ} {as : List α}, Guarded step guard s as → I s →
      run step s as = some t → I t := by
  intro s t as
  induction as generalizing s with
  | nil =>
    intro _ hI h
    obtain rfl : s = t := by simpa using h
    exact hI
  | cons a as ih =>
    intro hg hI h
    obtain ⟨u, hu, ht⟩ := run_cons_eq_some.mp h
    exact ih (hg.2 u hu) (hstep s a u hg.1 hI hu) ht

/-- Where an invariant implies the guard of every enabled action, every run is guarded. -/
theorem guarded_of_run {guard : σ → α → Prop} (I : σ → Prop)
    (hguard : ∀ s a t, I s → step s a = some t → guard s a)
    (hstep : ∀ s a t, I s → step s a = some t → I t) :
    ∀ {s t : σ} {as : List α}, I s → run step s as = some t → Guarded step guard s as := by
  intro s t as
  induction as generalizing s with
  | nil => exact fun _ _ => trivial
  | cons a as ih =>
    intro hI h
    obtain ⟨u, hu, ht⟩ := run_cons_eq_some.mp h
    refine ⟨hguard s a u hI hu, fun v hv => ?_⟩
    obtain rfl := Option.some.inj (hu.symm.trans hv)
    exact ih (hstep s a u hI hu) ht

/-- A run that was checked is guarded, where the check implies the guard. -/
theorem guarded_of_checked {guard : σ → α → Prop} (check : σ → α → Bool) (I : σ → Prop)
    (hguard : ∀ s a, I s → check s a = true → guard s a)
    (hstep : ∀ s a t, I s → step s a = some t → I t) :
    ∀ {s : σ} {as : List α}, I s → checked step check s as = true → Guarded step guard s as := by
  intro s as
  induction as generalizing s with
  | nil => exact fun _ _ => trivial
  | cons a as ih =>
    intro hI h
    obtain ⟨ha, hrest⟩ := Bool.and_eq_true_iff.mp h
    refine ⟨hguard s a hI ha, fun t ht => ih (hstep s a t hI ht) ?_⟩
    rw [ht] at hrest
    exact hrest

end Machine
