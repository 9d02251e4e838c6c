import Mathlib.Logic.Function.Basic
import Mathlib.Order.Nat
import Mathlib.Tactic.SplitIfs

/-!
# Filling an array

`fill a first n v` is the array `a` with `n` elements of `v` from place `first` on.

* `update_fill`, `fill_add` — one element more, and a stretch more;
* `fill_get`, `fill_of_lt`, `fill_of_le` — what is found in it.
-/

universe u

namespace Fill

variable {α : Type u} {a v w : ℕ → α} {first m n p : ℕ}

/-- `n` elements, from place `first` on. -/
def fill (a : ℕ → α) (first n : ℕ) (v : ℕ → α) : ℕ → α :=
  fun p => if first ≤ p ∧ p < first + n then v (p - first) else a p

@[simp] theorem fill_zero (a : ℕ → α) (first : ℕ) (v : ℕ → α) : fill a first 0 v = a := by
  funext p
  exact if_neg fun h => absurd h.2 (Nat.not_lt.mpr h.1)

theorem fill_get (h : p < n) : fill a first n v (first + p) = v p := by
  rw [fill, if_pos ⟨Nat.le_add_right _ _, Nat.add_lt_add_left h _⟩, Nat.add_sub_cancel_left]

theorem fill_of_lt (h : p < first) : fill a first n v p = a p := if_neg fun hp => absurd hp.1 (Nat.not_le.mpr h)

theorem fill_of_le (h : first + n ≤ p) : fill a first n v p = a p := if_neg fun hp => absurd hp.2 (Nat.not_lt.mpr h)

theorem fill_congr (h : ∀ p < n, v p = w p) : fill a first n v = fill a first n w := by
  funext p
  rw [fill, fill]
  split_ifs with hp
  · exact h _ (by omega)
  · rfl

/-- A stretch behind another one. -/
theorem fill_add (a : ℕ → α) (first m n : ℕ) (v : ℕ → α) :
    fill (fill a first m v) (first + m) n (fun p => v (m + p)) = fill a first (m + n) v := by
  funext p
  simp only [fill]
  split_ifs with h1 h2 h3 h4
  · congr 1
    omega
  · omega
  · rfl
  · omega
  · omega
  · rfl

/-- One element behind a stretch. -/
theorem update_fill (a : ℕ → α) (first n : ℕ) (v : ℕ → α) :
    Function.update (fill a first n v) (first + n) (v n) = fill a first (n + 1) v := by
  rw [← fill_add]
  funext p
  by_cases hp : p = first + n
  · subst hp
    have hlast : fill (fill a first n v) (first + n) 1 (fun p => v (n + p)) (first + n + 0) = v (n + 0) :=
      fill_get Nat.one_pos
    rw [Function.update_self]
    exact hlast.symm
  · rw [Function.update_of_ne hp]
    exact (if_neg fun h => hp (by omega)).symm

/-- What was there before does not matter. -/
theorem fill_fill (a : ℕ → α) (first n : ℕ) (v w : ℕ → α) : fill (fill a first n v) first n w = fill a first n w := by
  funext p
  rw [fill]
  split_ifs with hp
  · rw [fill, if_pos hp]
  · rw [fill, if_neg hp, fill, if_neg hp]

end Fill
