import Rrdtool.Lib.Civil
import Rrdtool.Rpn.Calc

/-!
# `LTIME`

`tzoffset` takes the offset of the local time from the fields of the two clocks. It compares the days of the year
before the years, so a local time that is still in the year before is taken to be a day ahead.

* `tzoffset` — the code;
* `tzoffset_iff` — when the offset is that of the zone.
-/

namespace Rrdtool

open Civil

/-- `localtime_r`, in a zone that is given by its offset at each time. -/
def localtime (zone : ℤ → ℤ) (now : ℤ) : Tm := gmtime (now + zone now)

/-- `tzoffset` -/
def tzoffset (zone : ℤ → ℤ) (now : ℤ) : ℤ :=
  let gm := gmtime now
  let l := localtime zone now
  let off := (l.sec - gm.sec) + (l.min - gm.min) * 60 + (l.hour - gm.hour) * 3600
  if l.yday > gm.yday ∨ l.year > gm.year then off + 24 * 3600
  else if l.yday < gm.yday ∨ l.year < gm.year then off - 24 * 3600
  else off

variable {zone : ℤ → ℤ} {t : ℤ}

/-- The comparison of the days. -/
def dayOffset (gm l : Tm) : ℤ :=
  if l.yday > gm.yday ∨ l.year > gm.year then 24 * 3600
  else if l.yday < gm.yday ∨ l.year < gm.year then -(24 * 3600)
  else 0

/-- The offset is right if the comparison finds how many days the clocks are apart. -/
theorem tzoffset_eq_iff_dayOffset :
    tzoffset zone t = zone t ↔
      dayOffset (gmtime t) (localtime zone t) = ((t + zone t) / 86400 - t / 86400) * 86400 := by
  have hgm := gmtime_clock t
  have hl : (localtime zone t).sec + (localtime zone t).min * 60 + (localtime zone t).hour * 3600
      = t + zone t - (t + zone t) / 86400 * 86400 := gmtime_clock _
  unfold tzoffset dayOffset
  dsimp only
  split_ifs <;> omega

theorem gmtime_yday (t : ℤ) : (gmtime t).yday = yearDay (dayOf t) := rfl

theorem gmtime_year (t : ℤ) : (gmtime t).year = yearOf (dayOf t) - 1900 := rfl

/-- **The days are compared rightly**, but for a local time in the year before. -/
theorem dayOffset_iff {t' : ℤ} (h : |t' - t| < 24 * 3600) :
    dayOffset (gmtime t) (gmtime t') = (t' / 86400 - t / 86400) * 86400 ↔ ¬ (gmtime t').year < (gmtime t).year := by
  obtain ⟨hlo, hhi⟩ := abs_lt.mp h
  have hdays : t' / 86400 = t / 86400 ∨ t' / 86400 = t / 86400 + 1 ∨ t / 86400 = t' / 86400 + 1 := by omega
  rw [dayOffset, gmtime_yday, gmtime_yday, gmtime_year, gmtime_year]
  rcases hdays with hday | hday | hday
  · have hsame : dayOf t' = dayOf t := by rw [dayOf, hday, dayOf]
    simp [hsame, hday]
  · have hnext : dayOf t' = dayOf t + 1 := by
      rw [dayOf, hday, dayOf]
      omega
    rw [hnext, hday]
    rcases next_day (dayOf t) with ⟨hyear, hyday⟩ | ⟨hyear, hyday, -⟩
    · rw [if_pos (Or.inl (by omega)), hyear]
      omega
    · rw [if_pos (Or.inr (by omega)), hyear]
      omega
  · have hnext : dayOf t = dayOf t' + 1 := by
      rw [dayOf, hday, dayOf]
      omega
    rw [hnext, hday]
    rcases next_day (dayOf t') with ⟨hyear, hyday⟩ | ⟨hyear, hyday, hlast⟩
    · rw [if_neg (by omega), if_pos (Or.inl (by omega)), hyear]
      omega
    · -- the last day of a year is compared with the first day of the next
      have := yearLength_bounds (yearOf (dayOf t'))
      rw [if_pos (Or.inl (by omega)), hyear]
      omega

/-- **The offset is that of the zone**, and `LTIME` is the local time, exactly if the local time is not in the year
before. -/
theorem tzoffset_iff (zone : ℤ → ℤ) (t : ℤ) (h : |zone t| < 24 * 3600) :
    (tzoffset zone t = zone t
      ∧ ∀ (env : RpnEnv) (call : RpnCall) (prog : List RpnNode) (rpi : ℕ) (n : RpnNode) (c : RpnState),
        env.tzoffset = tzoffset zone → call.dataIdx = t → n.op = .ltime →
          rpnOp env call prog rpi n c = .ok (c.push (.num (t + zone t : ℤ))))
      ↔ ¬ (localtime zone t).year < (gmtime t).year := by
  have hoffset : tzoffset zone t = zone t ↔ ¬ (localtime zone t).year < (gmtime t).year := by
    rw [tzoffset_eq_iff_dayOffset]
    exact dayOffset_iff (by rwa [add_sub_cancel_left])
  rw [← hoffset]
  constructor
  · exact fun h => h.1
  · intro heq
    refine ⟨heq, fun env call prog rpi n c henv hcall hop => ?_⟩
    rw [rpnOp, hop]
    dsimp only
    rw [henv, hcall, heq, Dbl.num_add, ← Int.cast_add, add_comm]

theorem tzoffset_east : tzoffset (fun _ => 3600) 1700000000 = 3600 :=
  ((tzoffset_iff (fun _ => 3600) 1700000000 (by norm_num)).mpr (by decide)).1

/-- An hour west of Greenwich, at midnight of a new year. -/
theorem tzoffset_west :
    tzoffset (fun _ => -3600) 0 = 169200 ∧ |(-3600 : ℤ)| < 24 * 3600 ∧ tzoffset (fun _ => -3600) 0 ≠ -3600 := by
  decide

end Rrdtool
