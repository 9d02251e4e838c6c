import Mathlib.Algebra.BigOperators.Group.Finset.Basic
import Mathlib.Algebra.BigOperators.Ring.Finset
import Mathlib.Algebra.CharZero.Defs
import Mathlib.Algebra.Field.Basic
import Mathlib.Algebra.Order.BigOperators.Group.Finset
import Mathlib.Algebra.Order.Field.Basic
import Mathlib.Data.Nat.Cast.Field
import Mathlib.Data.Nat.Cast.Order.Field

/-!
# Moving means of a ring

A ring of `n` values is replaced by its moving means, `w` values to each side. Done in place and in
one pass, the last `w` windows reach over the end of the ring to its first `w` places, where the
means already stand.

* `inPlaceMean_of_lt` — the windows before that are right;
* `inPlaceMean_eq_iff` — all of them are only where the first `w` values are their own means;
* `sum_inPlaceMean_single_pos` — a single value is spread, and its sum does not vanish.
-/

namespace Ring

universe u

variable {K : Type u} [Field K]

open scoped BigOperators

/-- The place `d` places into the window around `r`. -/
def window (w n r d : ℕ) : ℕ := (r + d + (n - w)) % n

/-- The mean of the `2 * w + 1` values circularly centred on place `r`. -/
def circularMean (w n : ℕ) (x : ℕ → K) (r : ℕ) : K :=
  (∑ d ∈ Finset.range (2 * w + 1), x (window w n r d)) / (2 * w + 1 : ℕ)

/-- The `m`-th value that enters the window: after the wrap it is a mean. -/
def entered (w n : ℕ) (x : ℕ → K) (m : ℕ) : K :=
  if m < n + w then x (window w n m 0) else circularMean w n x (m - w - n)

/-- What stands in place `r` afterwards. -/
def inPlaceMean (w n : ℕ) (x : ℕ → K) (r : ℕ) : K :=
  (∑ d ∈ Finset.range (2 * w + 1), entered w n x (r + d)) / (2 * w + 1 : ℕ)

variable {w n r m : ℕ} {x : ℕ → K}

theorem window_add (w n r d : ℕ) : window w n r d = window w n (r + d) 0 := rfl

theorem window_lt (hn : 0 < n) (d : ℕ) : window w n r d < n := Nat.mod_lt _ hn

/-- The places before the wrap. -/
theorem window_of_le (hw : w ≤ n) (hle : w ≤ m) (hm : m < n + w) : window w n m 0 = m - w := by
  have h : m + 0 + (n - w) = m - w + n := by omega
  rw [window, h, Nat.add_mod_right]
  exact Nat.mod_eq_of_lt (by omega)

/-- The places after it. -/
theorem window_of_ge (hw : w ≤ n) (hle : n + w ≤ m) (hm : m < 2 * n + w) :
    window w n m 0 = m - w - n := by
  have h : m + 0 + (n - w) = m - w - n + n + n := by omega
  rw [window, h, Nat.add_mod_right, Nat.add_mod_right]
  exact Nat.mod_eq_of_lt (by omega)

theorem entered_of_lt (hm : m < n + w) : entered w n x m = x (window w n m 0) := if_pos hm

theorem entered_of_ge (hm : n + w ≤ m) : entered w n x m = circularMean w n x (m - w - n) :=
  if_neg (Nat.not_lt.mpr hm)

/-- A window that does not reach over the end. -/
theorem inPlaceMean_of_lt (hr : r + w < n) : inPlaceMean w n x r = circularMean w n x r := by
  unfold inPlaceMean circularMean
  congr 1
  apply Finset.sum_congr rfl
  intro d hd
  have hd : d < 2 * w + 1 := Finset.mem_range.mp hd
  exact entered_of_lt (by omega)

/-- A mean computed in place is right where the values that entered sum up to those of the window. -/
theorem inPlaceMean_eq [CharZero K] : inPlaceMean w n x r = circularMean w n x r ↔
    ∑ d ∈ Finset.range (2 * w + 1), (entered w n x (r + d) - x (window w n r d)) = 0 := by
  have hne : ((2 * w + 1 : ℕ) : K) ≠ 0 := Nat.cast_ne_zero.mpr (Nat.succ_ne_zero _)
  rw [Finset.sum_sub_distrib, sub_eq_zero, inPlaceMean, circularMean, div_left_inj' hne]

/-- Means that are right give the first values: each is its own mean when those before it are. -/
theorem fixed_of_inPlaceMean [CharZero K] (hw : 2 * w + 1 ≤ n)
    (h : ∀ r, r < n → inPlaceMean w n x r = circularMean w n x r) {s : ℕ} (hs : s < w) :
    circularMean w n x s = x s := by
  induction s using Nat.strong_induction_on with
  | _ s ih =>
    have hsum := inPlaceMean_eq.mp (h (n - w + s) (by omega))
    rw [Finset.sum_range_succ] at hsum
    -- the terms before the last are those before the wrap and those of the induction hypothesis
    have hzero : ∑ d ∈ Finset.range (2 * w),
        (entered w n x (n - w + s + d) - x (window w n (n - w + s) d)) = 0 := by
      apply Finset.sum_eq_zero
      intro d hd
      have hd : d < 2 * w := Finset.mem_range.mp hd
      rw [window_add]
      rcases Nat.lt_or_ge (n - w + s + d) (n + w) with hlt | hge
      · rw [entered_of_lt hlt, sub_self]
      · rw [entered_of_ge hge, window_of_ge (by omega) hge (by omega), sub_eq_zero]
        exact ih _ (by omega) (by omega)
    have hge : n + w ≤ n - w + s + 2 * w := by omega
    rw [hzero, zero_add, window_add, entered_of_ge hge, window_of_ge (by omega) hge (by omega),
      sub_eq_zero] at hsum
    have hlast : n - w + s + 2 * w - w - n = s := by omega
    rwa [hlast] at hsum

/-- **All means are right** exactly where the first `w` values are their own means. -/
theorem inPlaceMean_eq_iff [CharZero K] (hw : 2 * w + 1 ≤ n) :
    (∀ r, r < n → inPlaceMean w n x r = circularMean w n x r) ↔
      ∀ s, s < w → circularMean w n x s = x s := by
  refine ⟨fun h s hs => fixed_of_inPlaceMean hw h hs, fun h r hr => ?_⟩
  apply inPlaceMean_eq.mpr
  apply Finset.sum_eq_zero
  intro d hd
  have hd : d < 2 * w + 1 := Finset.mem_range.mp hd
  rw [window_add]
  rcases Nat.lt_or_ge (r + d) (n + w) with hlt | hge
  · rw [entered_of_lt hlt, sub_self]
  · rw [entered_of_ge hge, window_of_ge (by omega) hge (by omega), sub_eq_zero]
    exact h _ (by omega)

/-- A single value is spread over its window. -/
theorem inPlaceMean_single (hw : 2 * w + 1 ≤ n) :
    inPlaceMean w n (fun i => if i = 0 then (1 : K) else 0) 0 = 1 / (2 * w + 1 : ℕ) := by
  rw [inPlaceMean_of_lt (by omega), circularMean]
  congr 1
  rw [Finset.sum_eq_single w]
  · apply if_pos
    rw [window_add, Nat.zero_add, window_of_le (by omega) (le_refl w) (by omega), Nat.sub_self]
  · intro d hd hne
    have hd : d < 2 * w + 1 := Finset.mem_range.mp hd
    apply if_neg
    rw [window, Nat.zero_add]
    rcases Nat.lt_or_gt_of_ne hne with hlt | hgt
    · rw [Nat.mod_eq_of_lt (by omega)]
      omega
    · have hplace : d + (n - w) = d - w + n := by omega
      rw [hplace, Nat.add_mod_right, Nat.mod_eq_of_lt (by omega)]
      omega
  · intro h
    exact absurd (Finset.mem_range.mpr (by omega)) h

/-! ## Values that are not negative -/

section Nonneg

variable [LinearOrder K] [IsStrictOrderedRing K]

theorem circularMean_nonneg (hx : ∀ i, 0 ≤ x i) (r : ℕ) : 0 ≤ circularMean w n x r :=
  div_nonneg (Finset.sum_nonneg fun _ _ => hx _) (Nat.cast_nonneg _)

theorem inPlaceMean_nonneg (hx : ∀ i, 0 ≤ x i) (r : ℕ) : 0 ≤ inPlaceMean w n x r := by
  refine div_nonneg (Finset.sum_nonneg fun _ _ => ?_) (Nat.cast_nonneg _)
  unfold entered
  split_ifs
  · exact hx _
  · exact circularMean_nonneg hx _

/-- The baseline of a single value is not zero. -/
theorem sum_inPlaceMean_single_pos (hw : 2 * w + 1 ≤ n) :
    0 < ∑ r ∈ Finset.range n, inPlaceMean w n (fun i => if i = 0 then (1 : K) else 0) r := by
  have hsingle : ∀ i, (0 : K) ≤ if i = 0 then 1 else 0 := fun i => by split_ifs <;> simp
  apply Finset.sum_pos' fun r _ => inPlaceMean_nonneg hsingle r
  refine ⟨0, Finset.mem_range.mpr (by omega), ?_⟩
  rw [inPlaceMean_single hw]
  exact one_div_pos.mpr (Nat.cast_pos.mpr (Nat.succ_pos _))

end Nonneg

end Ring
