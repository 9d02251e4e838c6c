import Mathlib.Data.Nat.Basic
import Mathlib.Logic.Function.Basic

/-!
# Counted loops over a mutable state

Imperative code walks its arrays with `for (i = 0; i < n; i++)`. This file keeps such a
loop as a recursion on the bound, in two forms:

* `forLoop n body s` — the body always succeeds;
* `forLoopE n body s` — the body may fail, and a failure **keeps the state it failed in**
  (`Outcome.fail`). There is no rollback, so what a failed run leaves behind can be stated.

Arrays are functions from the index; a store into one is `Function.update`. The rules at
the end of each section are all that later proofs use: an invariant rule indexed by the
loop counter, and the description of a loop whose `i`-th pass touches cell `i` only.
-/

namespace Loop

universe u v w

/-! ## Outcomes -/

/-- The result of code that may fail: the state reached, with an error if it failed. -/
inductive Outcome (ε : Type u) (σ : Type v) : Type (max u v) where
  /-- normal return -/
  | ok : σ → Outcome ε σ
  /-- error return, in the state the error was met in -/
  | fail : ε → σ → Outcome ε σ
  deriving DecidableEq

namespace Outcome

variable {ε : Type u} {σ : Type v}

/-- The state the code left, on either exit. -/
def state : Outcome ε σ → σ
  | ok s => s
  | fail _ s => s

/-- Did the code return normally? -/
def isOk : Outcome ε σ → Bool
  | ok _ => true
  | fail _ _ => false

/-- Sequencing: an error return skips what follows. -/
def andThen (o : Outcome ε σ) (f : σ → Outcome ε σ) : Outcome ε σ :=
  match o with
  | ok s => f s
  | fail e s => fail e s

@[simp] theorem state_ok (s : σ) : (ok s : Outcome ε σ).state = s := rfl

@[simp] theorem state_fail (e : ε) (s : σ) : (fail e s).state = s := rfl

@[simp] theorem isOk_ok (s : σ) : (ok s : Outcome ε σ).isOk = true := rfl

@[simp] theorem isOk_fail (e : ε) (s : σ) : (fail e s).isOk = false := rfl

@[simp] theorem ok_andThen (s : σ) (f : σ → Outcome ε σ) : (ok s).andThen f = f s := rfl

@[simp] theorem fail_andThen (e : ε) (s : σ) (f : σ → Outcome ε σ) :
    (fail e s).andThen f = fail e s := rfl

/-- A normal return is the state it left. -/
theorem eq_ok_state {o : Outcome ε σ} (h : o.isOk = true) : o = ok o.state := by
  cases o with
  | ok s => rfl
  | fail e s => exact absurd h (by simp)

/-- Inversion for a sequence that returned normally. -/
theorem andThen_eq_ok {o : Outcome ε σ} {f : σ → Outcome ε σ} {t : σ} :
    o.andThen f = ok t ↔ ∃ s, o = ok s ∧ f s = ok t := by
  cases o with
  | ok s => simp
  | fail e s => simp

/-- Inversion for a sequence that failed: the first part did, or the second one after it. -/
theorem andThen_eq_fail {o : Outcome ε σ} {f : σ → Outcome ε σ} {e : ε} {t : σ} :
    o.andThen f = fail e t ↔ o = fail e t ∨ ∃ s, o = ok s ∧ f s = fail e t := by
  cases o with
  | ok s => simp
  | fail e s => simp

/-- What both parts of a sequence keep, on either exit, the sequence keeps. -/
theorem andThen_state {o : Outcome ε σ} {f : σ → Outcome ε σ} {P : σ → Prop} (h : P o.state)
    (hf : ∀ s, P s → P (f s).state) : P (o.andThen f).state := by
  cases o with
  | ok s => exact hf s h
  | fail e s => exact h

/-- What holds of the state left on either exit holds of a normal result. -/
theorem of_state_ok {o : Outcome ε σ} {t : σ} {P : σ → Prop} (h : o = ok t) (hP : P o.state) :
    P t := by
  subst h
  exact hP

/-- What holds of the state left on either exit holds where the code failed. -/
theorem of_state_fail {o : Outcome ε σ} {e : ε} {t : σ} {P : σ → Prop} (h : o = fail e t)
    (hP : P o.state) : P t := by
  subst h
  exact hP

/-- An outcome, seen through a view of the state. -/
def map {τ : Type w} (view : σ → τ) : Outcome ε σ → Outcome ε τ
  | ok s => ok (view s)
  | fail e s => fail e (view s)

@[simp] theorem map_ok {τ : Type w} (view : σ → τ) (s : σ) :
    (ok s : Outcome ε σ).map view = ok (view s) := rfl

@[simp] theorem map_fail {τ : Type w} (view : σ → τ) (e : ε) (s : σ) :
    (fail e s).map view = fail e (view s) := rfl

theorem isOk_map {τ : Type w} (view : σ → τ) (o : Outcome ε σ) : (o.map view).isOk = o.isOk := by
  cases o with
  | ok s => rfl
  | fail e s => rfl

/-- A sequence through a view, where the view determines what follows. -/
theorem map_andThen {τ : Type w} {view : σ → τ} {o : Outcome ε σ} {f : σ → Outcome ε σ}
    {g : τ → Outcome ε τ} (h : ∀ s, o = ok s → (f s).map view = g (view s)) :
    (o.andThen f).map view = (o.map view).andThen g := by
  cases o with
  | ok s => exact h s rfl
  | fail e s => rfl

/-- Two outcomes are the same but for a part of the state: `R` relates the states of two normal
returns, `S` those of two error returns. -/
def Rel (R S : σ → σ → Prop) : Outcome ε σ → Outcome ε σ → Prop
  | ok s, ok t => R s t
  | fail e s, fail e' t => e = e' ∧ S s t
  | _, _ => False

/-- Related code in sequence, where what follows may use how it got there. -/
theorem Rel.andThen_of_ok {R R' S : σ → σ → Prop} {o o' : Outcome ε σ} {f g : σ → Outcome ε σ}
    (h : Rel R S o o') (hf : ∀ s t, o = ok s → o' = ok t → R s t → Rel R' S (f s) (g t)) :
    Rel R' S (o.andThen f) (o'.andThen g) := by
  cases o with
  | ok s =>
    cases o' with
    | ok t => exact hf s t rfl rfl h
    | fail e' t => exact h.elim
  | fail e s =>
    cases o' with
    | ok t => exact h.elim
    | fail e' t => exact h

/-- Related code in sequence. -/
theorem Rel.andThen {R R' S : σ → σ → Prop} {o o' : Outcome ε σ} {f g : σ → Outcome ε σ}
    (h : Rel R S o o') (hf : ∀ s t, R s t → Rel R' S (f s) (g t)) :
    Rel R' S (o.andThen f) (o'.andThen g) :=
  h.andThen_of_ok fun s t _ _ hst => hf s t hst

end Outcome

/-! ## Results without a state -/

/-- Inversion for a sequence that produced a value. -/
theorem bind_eq_ok {ε : Type u} {α : Type v} {β : Type w} {x : Except ε α} {f : α → Except ε β}
    {b : β} : x.bind f = .ok b ↔ ∃ a, x = .ok a ∧ f a = .ok b := by
  cases x with
  | error e => simp [Except.bind]
  | ok a => simp [Except.bind]

/-- Inversion for a sequence that failed. -/
theorem bind_eq_error {ε : Type u} {α : Type v} {β : Type w} {x : Except ε α}
    {f : α → Except ε β} {e : ε} :
    x.bind f = .error e ↔ x = .error e ∨ ∃ a, x = .ok a ∧ f a = .error e := by
  cases x with
  | error e' => simp [Except.bind]
  | ok a => simp [Except.bind]

/-- Inversion for a function applied to a value. -/
theorem map_eq_ok {ε : Type u} {α : Type v} {β : Type w} {x : Except ε α} {f : α → β} {b : β} :
    x.map f = .ok b ↔ ∃ a, x = .ok a ∧ f a = b := by
  cases x with
  | error e => simp [Except.map]
  | ok a => simp [Except.map]

/-- A function applied to a value does not fail. -/
theorem map_eq_error {ε : Type u} {α : Type v} {β : Type w} {x : Except ε α} {f : α → β} {e : ε} :
    x.map f = .error e ↔ x = .error e := by
  cases x with
  | error e' => simp [Except.map]
  | ok a => simp [Except.map]

/-! ## Loops that cannot fail -/

variable {ε : Type u} {σ : Type v} {α : Type w}

/-- `for (i = 0; i < n; i++) s = body i s`. -/
def forLoop : ℕ → (ℕ → σ → σ) → σ → σ
  | 0, _, s => s
  | n + 1, body, s => body n (forLoop n body s)

@[simp] theorem forLoop_zero (body : ℕ → σ → σ) (s : σ) : forLoop 0 body s = s := rfl

theorem forLoop_succ (n : ℕ) (body : ℕ → σ → σ) (s : σ) :
    forLoop (n + 1) body s = body n (forLoop n body s) := rfl

/-- **Invariant rule**: what holds before pass `0`, and is carried by pass `i` from `i` to
`i + 1`, holds at the end for the bound. -/
theorem forLoop_invariant {n : ℕ} {body : ℕ → σ → σ} {s : σ} (I : ℕ → σ → Prop)
    (h0 : I 0 s) (hstep : ∀ i t, i < n → I i t → I (i + 1) (body i t)) :
    I n (forLoop n body s) := by
  induction n with
  | zero => exact h0
  | succ n ih =>
    rw [forLoop_succ]
    exact hstep n _ (Nat.lt_succ_self n)
      (ih fun i t hi ht => hstep i t (Nat.lt_succ_of_lt hi) ht)

/-- **Relational rule**: two loops whose passes keep the states related. -/
theorem forLoop_rel {τ : Type w} {n : ℕ} {body : ℕ → σ → σ} {body' : ℕ → τ → τ} {s : σ} {t : τ}
    (R : ℕ → σ → τ → Prop) (h0 : R 0 s t)
    (hstep : ∀ i u v, i < n → R i u v → R (i + 1) (body i u) (body' i v)) :
    R n (forLoop n body s) (forLoop n body' t) := by
  induction n with
  | zero => exact h0
  | succ n ih =>
    exact hstep n _ _ (Nat.lt_succ_self n)
      (ih fun i u v hi => hstep i u v (Nat.lt_succ_of_lt hi))

/-- What every pass leaves alone, the loop leaves alone. -/
theorem forLoop_frame {β : Type w} {n : ℕ} {body : ℕ → σ → σ} {s : σ} (get : σ → β)
    (h : ∀ i t, i < n → get (body i t) = get t) : get (forLoop n body s) = get s :=
  forLoop_invariant (fun _ t => get t = get s) rfl fun i t hi ht => (h i t hi).trans ht

/-- A loop whose `i`-th pass rewrites cell `i` of an array, from that cell alone. -/
theorem forLoop_pointwise {n : ℕ} {body : ℕ → σ → σ} {s : σ} (get : σ → ℕ → α)
    (f : ℕ → α → α)
    (h : ∀ i t, i < n → get (body i t) = Function.update (get t) i (f i (get t i)))
    (j : ℕ) : get (forLoop n body s) j = if j < n then f j (get s j) else get s j := by
  refine forLoop_invariant
    (fun i t => get t j = if j < i then f j (get s j) else get s j) (by simp) ?_
  intro i t hi ht
  rw [h i t hi]
  by_cases hij : j = i
  · subst hij
    have hjj : get t j = get s j := by simpa using ht
    simp [hjj]
  · rw [Function.update_of_ne hij, ht]
    have : j < i + 1 ↔ j < i := by omega
    simp [this]

/-! ## Loops that may fail -/

/-- `for (i = 0; i < n; i++) if (body i s == -1) return -1;`. -/
def forLoopE : ℕ → (ℕ → σ → Outcome ε σ) → σ → Outcome ε σ
  | 0, _, s => .ok s
  | n + 1, body, s => (forLoopE n body s).andThen (body n)

@[simp] theorem forLoopE_zero (body : ℕ → σ → Outcome ε σ) (s : σ) :
    forLoopE 0 body s = .ok s := rfl

theorem forLoopE_succ (n : ℕ) (body : ℕ → σ → Outcome ε σ) (s : σ) :
    forLoopE (n + 1) body s = (forLoopE n body s).andThen (body n) := rfl

/-- **Invariant rule** for a loop that returned normally. -/
theorem forLoopE_invariant {n : ℕ} {body : ℕ → σ → Outcome ε σ} {s t : σ}
    (I : ℕ → σ → Prop) (h0 : I 0 s)
    (hstep : ∀ i u v, i < n → I i u → body i u = .ok v → I (i + 1) v)
    (h : forLoopE n body s = .ok t) : I n t := by
  induction n generalizing t with
  | zero =>
    obtain rfl : s = t := by simpa using h
    exact h0
  | succ n ih =>
    rw [forLoopE_succ] at h
    obtain ⟨u, hu, hv⟩ := Outcome.andThen_eq_ok.mp h
    have hI := ih (fun i u v hi => hstep i u v (Nat.lt_succ_of_lt hi)) hu
    exact hstep n u t (Nat.lt_succ_self n) hI hv

/-- **Relational rule** for loops that may fail. -/
theorem forLoopE_rel {n : ℕ} {body body' : ℕ → σ → Outcome ε σ} {s t : σ} {S : σ → σ → Prop}
    (R : ℕ → σ → σ → Prop) (h0 : R 0 s t)
    (hstep : ∀ i u v, i < n → R i u v → Outcome.Rel (R (i + 1)) S (body i u) (body' i v)) :
    Outcome.Rel (R n) S (forLoopE n body s) (forLoopE n body' t) := by
  induction n with
  | zero => exact h0
  | succ n ih =>
    exact (ih fun i u v hi => hstep i u v (Nat.lt_succ_of_lt hi)).andThen fun u v huv =>
      hstep n u v (Nat.lt_succ_self n) huv

/-- A loop through a view: what the view shows of a pass, it shows of the loop. -/
theorem forLoopE_map {τ : Type w} {view : σ → τ} {n : ℕ} {body : ℕ → σ → Outcome ε σ}
    {body' : ℕ → τ → Outcome ε τ} {s : σ}
    (h : ∀ i t, i < n → forLoopE i body s = .ok t → (body i t).map view = body' i (view t)) :
    (forLoopE n body s).map view = forLoopE n body' (view s) := by
  induction n with
  | zero => rfl
  | succ n ih =>
    rw [forLoopE_succ, forLoopE_succ, ← ih fun i t hi => h i t (Nat.lt_succ_of_lt hi)]
    exact Outcome.map_andThen fun t ht => h n t (Nat.lt_succ_self n) ht

/-- What every pass keeps, on either exit, the loop keeps, on either exit. -/
theorem forLoopE_state {n : ℕ} {body : ℕ → σ → Outcome ε σ} {s : σ} (I : σ → Prop)
    (h0 : I s) (hstep : ∀ i t, i < n → I t → I (body i t).state) :
    I (forLoopE n body s).state := by
  induction n with
  | zero => exact h0
  | succ n ih =>
    have hI := ih fun i t hi => hstep i t (Nat.lt_succ_of_lt hi)
    rw [forLoopE_succ]
    cases h : forLoopE n body s with
    | ok t =>
      rw [h] at hI
      exact hstep n t (Nat.lt_succ_self n) hI
    | fail e t =>
      rw [h] at hI
      exact hI

/-- A loop none of whose passes can fail returns. -/
theorem forLoopE_total {n : ℕ} {body : ℕ → σ → Outcome ε σ} {s : σ} (I : ℕ → σ → Prop)
    (h0 : I 0 s) (hstep : ∀ i t, i < n → I i t → ∃ u, body i t = .ok u ∧ I (i + 1) u) :
    ∃ t, forLoopE n body s = .ok t ∧ I n t := by
  induction n with
  | zero => exact ⟨s, rfl, h0⟩
  | succ n ih =>
    obtain ⟨t, ht, hI⟩ := ih fun i t hi => hstep i t (Nat.lt_succ_of_lt hi)
    obtain ⟨u, hu, hJ⟩ := hstep n t (Nat.lt_succ_self n) hI
    exact ⟨u, by rw [forLoopE_succ, ht, Outcome.ok_andThen, hu], hJ⟩

/-- **Where a loop failed**: some pass `i` failed, after the passes before it returned. -/
theorem forLoopE_eq_fail {n : ℕ} {body : ℕ → σ → Outcome ε σ} {s t : σ} {e : ε} :
    forLoopE n body s = .fail e t ↔
      ∃ i u, i < n ∧ forLoopE i body s = .ok u ∧ body i u = .fail e t := by
  induction n with
  | zero => simp
  | succ n ih =>
    rw [forLoopE_succ, Outcome.andThen_eq_fail, ih]
    constructor
    · rintro (⟨i, u, hi, hu, hf⟩ | ⟨u, hu, hf⟩)
      · exact ⟨i, u, Nat.lt_succ_of_lt hi, hu, hf⟩
      · exact ⟨n, u, Nat.lt_succ_self n, hu, hf⟩
    · rintro ⟨i, u, hi, hu, hf⟩
      rcases Nat.lt_succ_iff_lt_or_eq.mp hi with hlt | rfl
      · exact .inl ⟨i, u, hlt, hu, hf⟩
      · exact .inr ⟨u, hu, hf⟩

/-- A loop whose passes all return is the loop of their results. -/
theorem forLoopE_eq_ok {n : ℕ} {body : ℕ → σ → Outcome ε σ} {body' : ℕ → σ → σ}
    (h : ∀ i t, i < n → body i t = .ok (body' i t)) (s : σ) :
    forLoopE n body s = .ok (forLoop n body' s) := by
  induction n with
  | zero => rfl
  | succ n ih =>
    rw [forLoopE_succ, ih fun i t hi => h i t (Nat.lt_succ_of_lt hi), Outcome.ok_andThen,
      h n _ (Nat.lt_succ_self n), forLoop_succ]

/-- A loop that returned has done what its passes do where they return. -/
theorem forLoop_of_forLoopE {n : ℕ} {body : ℕ → σ → Outcome ε σ} {body' : ℕ → σ → σ} {s t : σ}
    (hb : ∀ i s t, body i s = .ok t → body' i s = t) (h : forLoopE n body s = .ok t) :
    forLoop n body' s = t := by
  induction n generalizing t with
  | zero => exact Outcome.ok.inj h
  | succ n ih =>
    rw [forLoopE_succ] at h
    obtain ⟨u, hu, ht⟩ := Outcome.andThen_eq_ok.mp h
    rw [forLoop_succ, ih hu]
    exact hb n u t ht

/-- Storing the next cell of an array that is new below `k`. -/
theorem update_below {k : ℕ} (f g : ℕ → α) :
    Function.update (fun i => if i < k then f i else g i) k (f k) =
      fun i => if i < k + 1 then f i else g i := by
  funext i
  by_cases hik : i = k
  · subst hik
    simp
  · rw [Function.update_of_ne hik]
    have : i < k + 1 ↔ i < k := by omega
    simp [this]

end Loop
