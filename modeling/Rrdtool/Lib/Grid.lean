import Mathlib.Algebra.Order.Ring.Int
import Mathlib.Data.Int.GCD

/-!
# Rows of a time series

A series has rows of `s` seconds, and time moves on in steps of `g` seconds, where `g` divides `s`. The
row that begins at or before `t` is row `t / s`; it is the row of the next `g` seconds. Moving on changes
the row exactly at the multiples of `s`.
-/

namespace Grid

variable {g s t : ℤ}

/-- The row that begins at or before `t` contains the next step. -/
theorem lt_next (hg : 0 < g) (hs : 0 < s) (t : ℤ) : t / s * s < t + g := by
  have := Int.ediv_mul_le t hs.ne'
  omega

theorem next_le (hs : 0 < s) (hgs : g ∣ s) (hgt : g ∣ t) : t + g ≤ (t / s + 1) * s := by
  have hlt : t < (t / s + 1) * s := Int.lt_ediv_add_one_mul_self t hs
  -- both sides are multiples of `g`
  have hdvd : g ∣ (t / s + 1) * s - t := Int.dvd_sub (Dvd.dvd.mul_left hgs _) hgt
  have := Int.le_of_dvd (by omega) hdvd
  omega

/-- **Moving on** changes the row at the multiples of `s`. -/
theorem ediv_step (hg : 0 < g) (hs : 0 < s) (hgs : g ∣ s) (hgt : g ∣ t) :
    (t + g) / s = t / s + if s ∣ t + g then 1 else 0 := by
  have hlo := lt_next hg hs t
  have hhi := next_le hs hgs hgt
  split_ifs with hdvd
  · obtain ⟨k, hk⟩ := hdvd
    have hlt : t / s < k := by
      rw [hk, mul_comm s k] at hlo
      exact lt_of_mul_lt_mul_right hlo hs.le
    have hle : k ≤ t / s + 1 := by
      rw [hk, mul_comm s k] at hhi
      exact le_of_mul_le_mul_right hhi hs
    rw [hk, Int.mul_ediv_cancel_left k hs.ne']
    omega
  · have hne : t + g ≠ (t / s + 1) * s := fun heq => hdvd (heq ▸ Dvd.intro_left _ rfl)
    rw [add_zero]
    refine le_antisymm ?_ (Int.ediv_le_ediv hs (by omega))
    exact Int.lt_add_one_iff.mp (Int.ediv_lt_of_lt_mul hs (lt_of_le_of_ne hhi hne))

/-- The row of a time counts from the row of the start. -/
theorem ediv_sub_start {a : ℤ} (hs : 0 < s) (ha : s ∣ a) : (t - a) / s = t / s - a / s := by
  obtain ⟨k, rfl⟩ := ha
  rw [Int.mul_ediv_cancel_left k hs.ne', Int.sub_ediv_of_dvd _ (Dvd.intro k rfl), Int.mul_ediv_cancel_left k hs.ne']

end Grid
