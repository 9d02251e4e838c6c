import Mathlib.Tactic.Linarith

/-!
# The civil calendar

The proleptic Gregorian calendar: the years, by the days since the first of January of the year 1, and the fields of a
point in time.

* `yearOf`, `yearOf_eq_iff` — the year of a day;
* `yearDay`, `next_day` — the day of the year, and the step from one day to the next;
* `Tm`, `gmtime` — the fields.
-/

namespace Civil

/-! ## Years -/

/-- The days before the first of January. -/
def yearStart (y : ℤ) : ℤ := 365 * (y - 1) + (y - 1) / 4 - (y - 1) / 100 + (y - 1) / 400

/-- A leap year. -/
def IsLeap (y : ℤ) : Prop := y % 4 = 0 ∧ y % 100 ≠ 0 ∨ y % 400 = 0

instance (y : ℤ) : Decidable (IsLeap y) := inferInstanceAs (Decidable (_ ∨ _))

/-- The number of days. -/
def yearLength (y : ℤ) : ℤ := if IsLeap y then 366 else 365

theorem yearStart_succ (y : ℤ) : yearStart (y + 1) = yearStart y + yearLength y := by
  unfold yearStart yearLength IsLeap
  split_ifs <;> omega

theorem yearLength_bounds (y : ℤ) : 365 ≤ yearLength y ∧ yearLength y ≤ 366 := by
  unfold yearLength
  split_ifs <;> omega

theorem yearStart_lt {x y : ℤ} : yearStart x < yearStart y ↔ x < y := by
  unfold yearStart
  omega

/-- The year of a day: whole cycles of 400, 100 and 4 years, and the years behind them. The last day of the longest
cycle is not a cycle more. -/
def yearOf (d : ℤ) : ℤ :=
  let r400 := d % 146097
  let n100 := min (r400 / 36524) 3
  let r100 := r400 - 36524 * n100
  let n1 := min (r100 % 1461 / 365) 3
  400 * (d / 146097) + 100 * n100 + 4 * (r100 / 1461) + n1 + 1

/-- The first of January behind whole cycles. -/
theorem yearStart_cycles {a b c e : ℤ} (hb : 0 ≤ b ∧ b ≤ 3) (hc : 0 ≤ c ∧ c ≤ 24) (he : 0 ≤ e ∧ e ≤ 3) :
    yearStart (400 * a + 100 * b + 4 * c + e + 1) = 146097 * a + 36524 * b + 1461 * c + 365 * e := by
  unfold yearStart
  omega

/-- Behind whole cycles, a year is a leap year at the end of a cycle of 4 years, but not of one of 100 that is not
also one of 400. -/
theorem isLeap_cycles {a b c e : ℤ} (hb : 0 ≤ b ∧ b ≤ 3) (hc : 0 ≤ c ∧ c ≤ 24) (he : 0 ≤ e ∧ e ≤ 3) :
    IsLeap (400 * a + 100 * b + 4 * c + e + 1) ↔ e = 3 ∧ (c = 24 → b = 3) := by
  have h4 : (400 * a + 100 * b + 4 * c + e + 1) % 4 = 0 ↔ e = 3 := by omega
  have h100 : (400 * a + 100 * b + 4 * c + e + 1) % 100 = 0 ↔ e = 3 ∧ c = 24 := by omega
  have h400 : (400 * a + 100 * b + 4 * c + e + 1) % 400 = 0 ↔ e = 3 ∧ c = 24 ∧ b = 3 := by omega
  rw [IsLeap, ne_eq, h4, h100, h400]
  tauto

theorem yearOf_bounds (d : ℤ) : yearStart (yearOf d) ≤ d ∧ d < yearStart (yearOf d + 1) := by
  obtain ⟨a, ha⟩ : ∃ a, a = d / 146097 := ⟨_, rfl⟩
  obtain ⟨b, hb⟩ : ∃ b, b = min (d % 146097 / 36524) 3 := ⟨_, rfl⟩
  obtain ⟨r, hr⟩ : ∃ r, r = d % 146097 - 36524 * b := ⟨_, rfl⟩
  obtain ⟨c, hc⟩ : ∃ c, c = r / 1461 := ⟨_, rfl⟩
  obtain ⟨e, he⟩ : ∃ e, e = min (r % 1461 / 365) 3 := ⟨_, rfl⟩
  have hyear : yearOf d = 400 * a + 100 * b + 4 * c + e + 1 := by
    rw [ha, he, hc, hr, hb]
    rfl
  -- what is left behind the cycles of 400 and of 100 years, and behind those of 4 years
  have hd : d = 146097 * a + 36524 * b + r := by omega
  have hr' : 0 ≤ r ∧ r < 36525 ∧ (b ≠ 3 → r < 36524) := by omega
  have hb' : 0 ≤ b ∧ b ≤ 3 := by omega
  clear ha hb hr
  have hc' : 0 ≤ c ∧ c ≤ 24 := by omega
  have he' : 0 ≤ e ∧ e ≤ 3 := by omega
  obtain ⟨q, hq⟩ : ∃ q, q = r - 1461 * c - 365 * e := ⟨_, rfl⟩
  have hq' : 0 ≤ q ∧ q ≤ 365 ∧ (e ≠ 3 → q < 365) := by
    have hm : r - 1461 * c = r % 1461 := by omega
    have hm' : 0 ≤ r % 1461 ∧ r % 1461 < 1461 := by omega
    rw [hq, hm]
    clear hd hr' hc hc' hq hm
    generalize r % 1461 = m at he hm'
    omega
  clear hc he
  have hleap := isLeap_cycles (a := a) hb' hc' he'
  rw [yearStart_succ, hyear, yearStart_cycles hb' hc' he', yearLength, hd]
  split_ifs with h
  · exact ⟨by linarith, by linarith⟩
  · have hshort : q < 365 := by
      by_cases hlast : e = 3
      · obtain ⟨hc, hb⟩ := Classical.not_imp.mp fun himp => h (hleap.mpr ⟨hlast, himp⟩)
        have := hr'.2.2 hb
        linarith
      · exact hq'.2.2 hlast
    exact ⟨by linarith, by linarith⟩

/-- **The year of a day** is the one that it is in. -/
theorem yearOf_eq_iff {d y : ℤ} : yearOf d = y ↔ yearStart y ≤ d ∧ d < yearStart (y + 1) := by
  constructor
  · rintro rfl
    exact yearOf_bounds d
  · rintro ⟨hle, hlt⟩
    obtain ⟨hle', hlt'⟩ := yearOf_bounds d
    have h := yearStart_lt.mp (hle.trans_lt hlt')
    have h' := yearStart_lt.mp (hle'.trans_lt hlt)
    omega

/-- The day of the year, from 0. -/
def yearDay (d : ℤ) : ℤ := d - yearStart (yearOf d)

theorem yearDay_bounds (d : ℤ) : 0 ≤ yearDay d ∧ yearDay d < yearLength (yearOf d) := by
  have := yearOf_bounds d
  rw [yearStart_succ] at this
  unfold yearDay
  omega

/-- **The next day** is one of the same year, or the first of the next. -/
theorem next_day (d : ℤ) :
    yearOf (d + 1) = yearOf d ∧ yearDay (d + 1) = yearDay d + 1
    ∨ yearOf (d + 1) = yearOf d + 1 ∧ yearDay (d + 1) = 0 ∧ yearDay d = yearLength (yearOf d) - 1 := by
  obtain ⟨hle, hlt⟩ := yearOf_bounds d
  by_cases hlast : d + 1 < yearStart (yearOf d + 1)
  · have hyear : yearOf (d + 1) = yearOf d := yearOf_eq_iff.mpr ⟨by omega, hlast⟩
    left
    refine ⟨hyear, ?_⟩
    rw [yearDay, hyear, yearDay]
    omega
  · have hfirst : d + 1 = yearStart (yearOf d + 1) := by omega
    have hyear : yearOf (d + 1) = yearOf d + 1 :=
      yearOf_eq_iff.mpr ⟨hfirst.ge, by rw [hfirst]; exact yearStart_lt.mpr (lt_add_one _)⟩
    right
    refine ⟨hyear, ?_, ?_⟩
    · rw [yearDay, hyear]
      omega
    · rw [yearStart_succ] at hfirst
      unfold yearDay
      omega

/-! ## Fields -/

/-- `struct tm`, without the month and the days of the month and of the week. -/
structure Tm : Type where
  /-- `tm_sec` -/
  sec : ℤ
  /-- `tm_min` -/
  min : ℤ
  /-- `tm_hour` -/
  hour : ℤ
  /-- `tm_yday` -/
  yday : ℤ
  /-- `tm_year`, from 1900 -/
  year : ℤ

/-- The day of a point in time, which is given in seconds since 1970. -/
def dayOf (t : ℤ) : ℤ := t / 86400 + 719162

/-- **The civil fields.** -/
def gmtime (t : ℤ) : Tm where
  sec := t % 60
  min := t / 60 % 60
  hour := t / 3600 % 24
  yday := yearDay (dayOf t)
  year := yearOf (dayOf t) - 1900

/-- The fields of the clock are the seconds of the day. -/
theorem gmtime_clock (t : ℤ) : (gmtime t).sec + (gmtime t).min * 60 + (gmtime t).hour * 3600 = t - t / 86400 * 86400 := by
  simp only [gmtime]
  omega

example : (gmtime 951782400).year = 100 ∧ (gmtime 951782400).yday = 59 := by decide

end Civil
