import Mathlib.Init

/-!
# Weakest preconditions

Programs over a state that may fault, as `StateT σ (Except ε)`. `wp p Q s` says that `p`, started
in `s`, does not fault and ends with a result and a state that meet `Q`; `wlp p Q s` says the same of
a `p` that may fault. The rules below take a program apart; `wp_mono` and `wlp_mono` are used at a call,
with the specification of what is called.
-/

namespace Wp

universe u

variable {σ ε α β : Type u}

/-- `p` does not fault and ends with `Q`. -/
def wp (p : StateT σ (Except ε) α) (Q : α → σ → Prop) (s : σ) : Prop :=
  ∃ a t, p s = .ok (a, t) ∧ Q a t

variable {p : StateT σ (Except ε) α} {f : α → StateT σ (Except ε) β} {Q R : α → σ → Prop} {s : σ}

/-- **Consequence.** -/
theorem wp_mono (h : wp p Q s) (hQR : ∀ a t, Q a t → R a t) : wp p R s := by
  obtain ⟨a, t, hp, hQ⟩ := h
  exact ⟨a, t, hp, hQR a t hQ⟩

@[simp] theorem wp_pure {a : α} : wp (pure a : StateT σ (Except ε) α) Q s ↔ Q a s := by
  constructor
  · rintro ⟨b, t, h, hQ⟩
    obtain ⟨rfl, rfl⟩ := Prod.mk.inj (Except.ok.inj h)
    exact hQ
  · exact fun h => ⟨a, s, rfl, h⟩

theorem bind_eq_ok {b : β} {u : σ} :
    (p >>= f) s = .ok (b, u) ↔ ∃ a t, p s = .ok (a, t) ∧ f a t = .ok (b, u) := by
  have hbind : (p >>= f) s = (p s).bind fun r => f r.1 r.2 := rfl
  rw [hbind]
  cases hp : p s with
  | error e => simp [Except.bind]
  | ok r =>
    constructor
    · exact fun h => ⟨r.1, r.2, rfl, h⟩
    · rintro ⟨a, t, ha, h⟩
      obtain rfl := Except.ok.inj ha
      exact h

/-- **Sequence.** -/
@[simp] theorem wp_bind {Q : β → σ → Prop} :
    wp (p >>= f) Q s ↔ wp p (fun a t => wp (f a) Q t) s := by
  constructor
  · rintro ⟨b, u, h, hQ⟩
    obtain ⟨a, t, ha, hb⟩ := bind_eq_ok.mp h
    exact ⟨a, t, ha, b, u, hb, hQ⟩
  · rintro ⟨a, t, ha, b, u, hb, hQ⟩
    exact ⟨b, u, bind_eq_ok.mpr ⟨a, t, ha, hb⟩, hQ⟩

@[simp] theorem wp_get {Q : σ → σ → Prop} : wp (get : StateT σ (Except ε) σ) Q s ↔ Q s s := by
  constructor
  · rintro ⟨b, t, h, hQ⟩
    obtain ⟨rfl, rfl⟩ := Prod.mk.inj (Except.ok.inj h)
    exact hQ
  · exact fun h => ⟨s, s, rfl, h⟩

@[simp] theorem wp_set {t : σ} {Q : PUnit → σ → Prop} :
    wp (set t : StateT σ (Except ε) PUnit) Q s ↔ Q ⟨⟩ t := by
  constructor
  · rintro ⟨b, u, h, hQ⟩
    obtain ⟨rfl, rfl⟩ := Prod.mk.inj (Except.ok.inj h)
    exact hQ
  · exact fun h => ⟨⟨⟩, t, rfl, h⟩

@[simp] theorem wp_modify {g : σ → σ} {Q : PUnit → σ → Prop} :
    wp (modify g : StateT σ (Except ε) PUnit) Q s ↔ Q ⟨⟩ (g s) := by
  constructor
  · rintro ⟨b, u, h, hQ⟩
    obtain ⟨rfl, rfl⟩ := Prod.mk.inj (Except.ok.inj h)
    exact hQ
  · exact fun h => ⟨⟨⟩, g s, rfl, h⟩

@[simp] theorem wp_throw {e : ε} : ¬wp (throw e : StateT σ (Except ε) α) Q s := by
  rintro ⟨a, t, h, -⟩
  exact absurd h (by simp [throw, throwThe, MonadExceptOf.throw, StateT.lift, bind, Except.bind])

theorem wp_ite {c : Prop} [Decidable c] {q : StateT σ (Except ε) α} :
    wp (if c then p else q) Q s ↔ if c then wp p Q s else wp q Q s := by
  by_cases h : c <;> simp [h]

/-- **Loops over a list**, with an invariant of what is left of it. -/
theorem wp_forM {γ : Type u} {body : γ → StateT σ (Except ε) PUnit} (I : List γ → σ → Prop)
    (hstep : ∀ a l s, I (a :: l) s → wp (body a) (fun _ => I l) s) {l : List γ} (h : I l s) :
    wp (l.forM body) (fun _ => I []) s := by
  induction l generalizing s with
  | nil => exact wp_pure.mpr h
  | cons a l ih =>
    exact wp_bind.mpr (wp_mono (hstep a l s h) fun _ t ht => ih ht)

/-- What a program that is known to end well ends with. -/
theorem wp_of_eq {a : α} {t : σ} (h : p s = .ok (a, t)) : wp p Q s ↔ Q a t := by
  constructor
  · rintro ⟨b, u, hb, hQ⟩
    obtain ⟨rfl, rfl⟩ := Prod.mk.inj (Except.ok.inj (h.symm.trans hb))
    exact hQ
  · exact fun hQ => ⟨a, t, h, hQ⟩

/-! ## Partial correctness -/

/-- If `p` does not fault, it ends with `Q`. -/
def wlp (p : StateT σ (Except ε) α) (Q : α → σ → Prop) (s : σ) : Prop :=
  ∀ a t, p s = .ok (a, t) → Q a t

theorem wlp_mono (h : wlp p Q s) (hQR : ∀ a t, Q a t → R a t) : wlp p R s :=
  fun a t hp => hQR a t (h a t hp)

theorem wlp_pure {a : α} (h : Q a s) : wlp (pure a : StateT σ (Except ε) α) Q s := by
  intro b t hp
  obtain ⟨rfl, rfl⟩ := Prod.mk.inj (Except.ok.inj hp)
  exact h

theorem wlp_bind {Q : β → σ → Prop} (h : wlp p (fun a t => wlp (f a) Q t) s) : wlp (p >>= f) Q s := by
  intro b u hp
  obtain ⟨a, t, ha, hb⟩ := bind_eq_ok.mp hp
  exact h a t ha b u hb

theorem wlp_get {Q : σ → σ → Prop} (h : Q s s) : wlp (get : StateT σ (Except ε) σ) Q s := by
  intro b t hp
  obtain ⟨rfl, rfl⟩ := Prod.mk.inj (Except.ok.inj hp)
  exact h

theorem wlp_set {t : σ} {Q : PUnit → σ → Prop} (h : Q ⟨⟩ t) :
    wlp (set t : StateT σ (Except ε) PUnit) Q s := by
  intro b u hp
  obtain ⟨rfl, rfl⟩ := Prod.mk.inj (Except.ok.inj hp)
  exact h

theorem wlp_modify {g : σ → σ} {Q : PUnit → σ → Prop} (h : Q ⟨⟩ (g s)) :
    wlp (modify g : StateT σ (Except ε) PUnit) Q s := by
  intro b u hp
  obtain ⟨rfl, rfl⟩ := Prod.mk.inj (Except.ok.inj hp)
  exact h

theorem wlp_throw {e : ε} : wlp (throw e : StateT σ (Except ε) α) Q s := by
  intro a t hp
  exact absurd hp (by simp [throw, throwThe, MonadExceptOf.throw, StateT.lift, bind, Except.bind])

end Wp
