import Mathlib.Order.Lattice

/-!
# The first of the best

A search loop that keeps the candidate with the least key, and the first of several.

* `FirstBest.keep`, `FirstBest.replace` — one more index is looked at;
* `FirstBest.unique` — there is only one such candidate.
-/

universe u

variable {κ : Type u} [LinearOrder κ]

/-- Index `i` is the first below `n` that has the least key of those that meet `p`. -/
structure FirstBest (p : ℕ → Prop) (key : ℕ → κ) (n i : ℕ) : Prop where
  lt : i < n
  holds : p i
  least : ∀ j, j < n → p j → key i ≤ key j
  first : ∀ j, j < i → p j → key i < key j

namespace FirstBest

variable {p : ℕ → Prop} {key : ℕ → κ} {n i j : ℕ}

/-- The first index that meets `p`. -/
theorem start (hp : p n) (hnone : ∀ j, j < n → ¬p j) : FirstBest p key (n + 1) n where
  lt := Nat.lt_succ_self n
  holds := hp
  least j hj hpj := by
    rcases Nat.lt_succ_iff_lt_or_eq.mp hj with hlt | rfl
    · exact absurd hpj (hnone j hlt)
    · exact le_refl _
  first j hj hpj := absurd hpj (hnone j hj)

/-- An index that does not meet `p`, or is not better, is passed over. -/
theorem keep (h : FirstBest p key n i) (hn : p n → ¬key n < key i) : FirstBest p key (n + 1) i where
  lt := Nat.lt_succ_of_lt h.lt
  holds := h.holds
  least j hj hpj := by
    rcases Nat.lt_succ_iff_lt_or_eq.mp hj with hlt | rfl
    · exact h.least j hlt hpj
    · exact not_lt.mp (hn hpj)
  first := h.first

/-- A better one takes its place. -/
theorem replace (h : FirstBest p key n i) (hp : p n) (hlt : key n < key i) :
    FirstBest p key (n + 1) n where
  lt := Nat.lt_succ_self n
  holds := hp
  least j hj hpj := by
    rcases Nat.lt_succ_iff_lt_or_eq.mp hj with hjn | rfl
    · exact hlt.le.trans (h.least j hjn hpj)
    · exact le_refl _
  first j hj hpj := hlt.trans_le (h.least j hj hpj)

/-- There is only one. -/
theorem unique (hi : FirstBest p key n i) (hj : FirstBest p key n j) : i = j := by
  rcases Nat.lt_trichotomy i j with hlt | heq | hgt
  · exact absurd (hi.least j hj.lt hj.holds) (hj.first i hlt hi.holds).not_ge
  · exact heq
  · exact absurd (hj.least i hi.lt hi.holds) (hi.first j hgt hj.holds).not_ge

end FirstBest
