import Mathlib.Data.List.Basic
import Mathlib.Tactic.SplitIfs

/-!
# Parsers that hand back their state in any case

A parser hands back a value, unless it has failed, and in any case the state it has left. The loop of a recursive
descent asks for an item and hands it to its body, until there is none or the body has had enough.

* `bind_eq_some`, `map_eq_some` — inversion;
* `loop`, `loop_invariant` — the loop, and what it keeps;
* `loop_fuel` — passes enough are enough, if every item uses up some of the input.
-/

universe u v w

namespace Parse

/-- What takes a state, and hands back a state and perhaps a value. -/
def Parser (σ : Type u) (α : Type v) : Type (max u v) := σ → Option α × σ

variable {σ : Type u} {α : Type v} {β : Type w}

/-- Nothing is read. -/
def ret (a : α) : Parser σ α := fun s => (some a, s)

/-- It goes wrong here. -/
def fail : Parser σ α := fun s => (none, s)

/-- One after the other. -/
def bind (x : Parser σ α) (f : α → Parser σ β) : Parser σ β := fun s =>
  match x s with
  | (some a, t) => f a t
  | (none, t) => (none, t)

/-- The value is changed. -/
def map (x : Parser σ α) (f : α → β) : Parser σ β := bind x fun a => ret (f a)

/-- A failure is made up for. -/
def orElse (x : Parser σ α) (a : α) : Parser σ α := fun s =>
  match x s with
  | (some b, t) => (some b, t)
  | (none, t) => (some a, t)

/-- As often as `n`, with the number of the pass. -/
def times : ℕ → (ℕ → Parser σ Unit) → Parser σ Unit
  | 0, _ => ret ()
  | n + 1, f => bind (times n f) fun _ => f n

/-- How a pass of a loop ends: with another one, or with the loop. -/
inductive Pass (α : Type v) : Type v where
  | next : α → Pass α
  | done : α → Pass α

/-- `while ((item = ..) != NULL)`: what the body does with an item, and what comes out where there is none. -/
def loop (item : Parser σ β) (onEnd : α → Parser σ α) (body : β → α → Parser σ (Pass α)) : ℕ → α → Parser σ α
  | 0, a, s =>
    match item s with
    | (some _, t) => (none, t)
    | (none, t) => onEnd a t
  | fuel + 1, a, s =>
    match item s with
    | (some b, t) =>
      match body b a t with
      | (some (.next a), t) => loop item onEnd body fuel a t
      | (some (.done a), t) => (some a, t)
      | (none, t) => (none, t)
    | (none, t) => onEnd a t

variable {s t : σ}

@[simp] theorem ret_eq_some {a b : α} : (ret a : Parser σ α) s = (some b, t) ↔ a = b ∧ s = t := by
  rw [ret, Prod.mk.injEq, Option.some.injEq]

@[simp] theorem fail_eq_some {a : α} : (fail : Parser σ α) s = (some a, t) ↔ False := by
  rw [fail, Prod.mk.injEq]
  exact iff_of_false (fun h => by cases h.1) id

theorem bind_eq_some {x : Parser σ α} {f : α → Parser σ β} {b : β} :
    bind x f s = (some b, t) ↔ ∃ a r, x s = (some a, r) ∧ f a r = (some b, t) := by
  rw [bind]
  constructor
  · intro h
    cases hx : x s with
    | mk o r =>
      rw [hx] at h
      cases o with
      | none => cases h
      | some a => exact ⟨a, r, rfl, h⟩
  · rintro ⟨a, r, hx, hf⟩
    rw [hx]
    exact hf

theorem map_eq_some {x : Parser σ α} {f : α → β} {b : β} :
    map x f s = (some b, t) ↔ ∃ a, x s = (some a, t) ∧ f a = b := by
  rw [map, bind_eq_some]
  constructor
  · rintro ⟨a, r, hx, hb⟩
    obtain ⟨rfl, rfl⟩ := ret_eq_some.mp hb
    exact ⟨a, hx, rfl⟩
  · rintro ⟨a, hx, rfl⟩
    exact ⟨a, t, hx, rfl⟩

/-! ## The loop -/

variable {item : Parser σ β} {onEnd : α → Parser σ α} {body : β → α → Parser σ (Pass α)}

/-- What a pass hands back: `I` with another pass to come, `Q` at the end. -/
def Pass.Meets (I Q : α → Prop) : Pass α → Prop
  | .next a => I a
  | .done a => Q a

/-- **What a loop makes of its value**: `I` is kept by the passes, and `Q` comes out at the end. -/
theorem loop_invariant (I Q : α → Prop) (hend : ∀ {a a' s t}, I a → onEnd a s = (some a', t) → Q a')
    (hbody : ∀ {b a p s t}, I a → body b a s = (some p, t) → p.Meets I Q) {fuel : ℕ} {a a' : α} (ha : I a)
    (h : loop item onEnd body fuel a s = (some a', t)) : Q a' := by
  induction fuel generalizing a s with
  | zero =>
    rw [loop] at h
    cases hitem : item s with
    | mk o r =>
      rw [hitem] at h
      cases o with
      | none => exact hend ha h
      | some b => cases h
  | succ fuel ih =>
    rw [loop] at h
    cases hitem : item s with
    | mk o r =>
      rw [hitem] at h
      cases o with
      | none => exact hend ha h
      | some b =>
        dsimp only at h
        cases hb : body b a r with
        | mk p q =>
          rw [hb] at h
          cases p with
          | none => cases h
          | some p =>
            have hp := hbody ha hb
            cases p with
            | next a₁ => exact ih hp h
            | done a₁ =>
              obtain ⟨ha', -⟩ := Prod.mk.inj h
              rw [← Option.some.inj ha']
              exact hp

/-- **Passes enough**: more of them make no difference, if the body gives back nothing of what an item uses up. -/
theorem loop_fuel (size : σ → ℕ) (hitem : ∀ {s b t}, item s = (some b, t) → size t < size s)
    (hbody : ∀ {b a p s t}, body b a s = (some p, t) → size t ≤ size s) {m n : ℕ} {a : α} (hm : size s ≤ m)
    (hn : size s ≤ n) : loop item onEnd body m a s = loop item onEnd body n a s := by
  induction m generalizing n a s with
  | zero =>
    cases n with
    | zero => rfl
    | succ n =>
      rw [loop, loop]
      cases h : item s with
      | mk o t =>
        cases o with
        | none => rfl
        | some b => exact absurd (hitem h) (by omega)
  | succ m ih =>
    cases n with
    | zero =>
      rw [loop, loop]
      cases h : item s with
      | mk o t =>
        cases o with
        | none => rfl
        | some b => exact absurd (hitem h) (by omega)
    | succ n =>
      rw [loop, loop]
      cases h : item s with
      | mk o t =>
        cases o with
        | none => rfl
        | some b =>
          have hlt := hitem h
          dsimp only
          cases hb : body b a t with
          | mk p r =>
            cases p with
            | none => rfl
            | some p =>
              have hle := hbody hb
              cases p with
              | next a₁ => exact ih (by omega) (by omega)
              | done a₁ => rfl

/-! ## Pre- and postconditions -/

/-- What comes out meets `Q` with its value, or `E` without one. -/
def Meets (Q : α → σ → Prop) (E : σ → Prop) : Option α × σ → Prop
  | (some a, s) => Q a s
  | (none, s) => E s

/-- From a state that meets `P`, the parser hands back what meets `Q`, or fails in a state that meets `E`. -/
def Spec (P : σ → Prop) (x : Parser σ α) (Q : α → σ → Prop) (E : σ → Prop) : Prop := ∀ s, P s → Meets Q E (x s)

variable {P P' : σ → Prop} {Q Q' : α → σ → Prop} {R : β → σ → Prop} {E E' : σ → Prop} {x : Parser σ α}

theorem Spec.some (h : Spec P x Q E) (hs : P s) {a : α} (hx : x s = (some a, t)) : Q a t := by
  have hmeets := h s hs
  rw [hx] at hmeets
  exact hmeets

theorem Spec.none (h : Spec P x Q E) (hs : P s) (hx : x s = (Option.none, t)) : E t := by
  have hmeets := h s hs
  rw [hx] at hmeets
  exact hmeets

theorem Spec.weaken (h : Spec P x Q E) (hP : ∀ s, P' s → P s) (hQ : ∀ a s, Q a s → Q' a s) (hE : ∀ s, E s → E' s) :
    Spec P' x Q' E' := by
  intro s hs
  have hmeets := h s (hP s hs)
  cases hx : x s with
  | mk o r =>
    rw [hx] at hmeets
    cases o with
    | none => exact hE r hmeets
    | some a => exact hQ a r hmeets

/-- What is known of every value comes with it. -/
theorem Spec.value {V : α → Prop} (h : Spec P x Q E) (hV : ∀ {s a t}, x s = (Option.some a, t) → V a) :
    Spec P x (fun a s => V a ∧ Q a s) E := by
  intro s hs
  have hmeets := h s hs
  cases hx : x s with
  | mk o r =>
    rw [hx] at hmeets
    cases o with
    | none => exact hmeets
    | some a => exact ⟨hV hx, hmeets⟩

theorem spec_ret {a : α} (h : ∀ s, P s → Q a s) : Spec P (ret a) Q E := h

theorem spec_fail (h : ∀ s, P s → E s) : Spec P (fail : Parser σ α) Q E := h

theorem spec_bind {f : α → Parser σ β} (hx : Spec P x Q E) (hf : ∀ a, Spec (Q a) (f a) R E) :
    Spec P (bind x f) R E := by
  intro s hs
  have hmeets := hx s hs
  rw [bind]
  cases h : x s with
  | mk o r =>
    rw [h] at hmeets
    cases o with
    | none => exact hmeets
    | some a => exact hf a r hmeets

theorem spec_map {f : α → β} (hx : Spec P x (fun a => R (f a)) E) : Spec P (map x f) R E :=
  spec_bind hx fun _ => spec_ret fun _ hs => hs

theorem spec_orElse {a : α} (hx : Spec P x Q (Q a)) : Spec P (orElse x a) Q E := by
  intro s hs
  have hmeets := hx s hs
  rw [orElse]
  cases h : x s with
  | mk o r =>
    rw [h] at hmeets
    cases o with
    | none => exact hmeets
    | some b => exact hmeets

theorem spec_ite {p : Prop} [Decidable p] {y : Parser σ α} (hx : p → Spec P x Q E) (hy : ¬ p → Spec P y Q E) :
    Spec P (if p then x else y) Q E := by
  split_ifs with h
  · exact hx h
  · exact hy h

/-- **The loop**: `I` in front of an item, `J` behind it, `T` where there is none. -/
theorem spec_loop (I : α → σ → Prop) (J : β → α → σ → Prop) (T : α → σ → Prop)
    (hitem : ∀ a, Spec (I a) item (fun b => J b a) (T a)) (hend : ∀ a, Spec (T a) (onEnd a) Q E)
    (hbody : ∀ b a, Spec (J b a) (body b a) (fun p s => p.Meets (I · s) (Q · s)) E)
    (hstuck : ∀ b a s, J b a s → E s) (fuel : ℕ) (a : α) : Spec (I a) (loop item onEnd body fuel a) Q E := by
  induction fuel generalizing a with
  | zero =>
    intro s hs
    have hmeets := hitem a s hs
    rw [loop]
    cases h : item s with
    | mk o r =>
      rw [h] at hmeets
      cases o with
      | none => exact hend a r hmeets
      | some b => exact hstuck b a r hmeets
  | succ fuel ih =>
    intro s hs
    have hmeets := hitem a s hs
    rw [loop]
    cases h : item s with
    | mk o r =>
      rw [h] at hmeets
      cases o with
      | none => exact hend a r hmeets
      | some b =>
        have hpass := hbody b a r hmeets
        dsimp only
        cases hb : body b a r with
        | mk p q =>
          rw [hb] at hpass
          cases p with
          | none => exact hpass
          | some p =>
            cases p with
            | next a₁ => exact ih a₁ q hpass
            | done a₁ => exact hpass

end Parse
