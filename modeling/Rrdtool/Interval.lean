import Rrdtool.Atomic

/-!
# The interval of an update

`calculate_elapsed_steps` counts the step boundaries between the last update and the new time, and
splits the interval at the last of them. The times are whole seconds with microseconds.

* `elapsed_steps_iff` — the count is right, and so is the split, unless there are more boundaries than
  an `int` can count.
-/

namespace Rrdtool

open Loop

variable {env : Env} {s t : Upd}

/-! ## Accepted times -/

/-- The microseconds of a reading are less than a second. -/
theorem readTime_usec {at_ : Bool} {input : Text} {time : ℤ} {usec : ℕ}
    (hnow : env.now.2 < usecPerSec) (h : readTime env at_ input = .ok (time, usec)) :
    usec < usecPerSec := by
  have hpos : 0 < usecPerSec := by decide
  unfold readTime at h
  by_cases hat : at_ = true
  · rw [if_pos hat] at h
    cases hp : env.parsetime input with
    | none => simp [hp] at h
    | some p =>
      simp only [hp, Except.ok.injEq, Prod.mk.injEq] at h
      omega
  rw [if_neg hat] at h
  by_cases hN : input = ['N']
  · rw [if_pos hN] at h
    simp only [Except.ok.injEq, Prod.mk.injEq] at h
    omega
  rw [if_neg hN] at h
  dsimp only at h
  by_cases hrange : (CStr.strtod input).erange = true
  · rw [if_pos hrange] at h
    cases h
  rw [if_neg hrange] at h
  generalize (if (CStr.strtod input).value.lt (.num 0) then _ else _ : Dbl) = tmp at h
  cases tmp with
  | num q =>
    dsimp only at h
    split_ifs at h with hfit
    · simp only [Except.ok.injEq, Prod.mk.injEq] at h
      obtain ⟨-, rfl⟩ := h
      have hfrac : q - ⌊q⌋ < 1 := by
        have := Int.lt_floor_add_one q
        linarith
      have hfloor : ⌊(q - ⌊q⌋) * usecPerSec⌋ < (usecPerSec : ℤ) := by
        rw [Int.floor_lt]
        have hu : (0 : ℚ) < usecPerSec := by exact_mod_cast hpos
        have := mul_lt_mul_of_pos_right hfrac hu
        push_cast at this ⊢
        linarith
      omega
    · simp only [Except.ok.injEq, Prod.mk.injEq] at h
      omega
  | _ =>
    simp only [Except.ok.injEq, Prod.mk.injEq] at h
    omega

/-- What `get_time_from_reading` accepts. -/
theorem getTimeFromReading_eq_ok {at_ : Bool} (hnow : env.now.2 < usecPerSec)
    (h : getTimeFromReading env at_ s = .ok t) :
    (t.rrd.lastUp : ℤ) ≤ t.currentTime ∧ t.currentTimeUsec < usecPerSec ∧ t.rrd = s.rrd := by
  unfold getTimeFromReading at h
  cases hr : readTime env at_ (s.updvals 0) with
  | error e => simp [hr] at h
  | ok p =>
    obtain ⟨time, usec⟩ := p
    have husec := readTime_usec hnow hr
    simp only [hr] at h
    by_cases hold : time < s.rrd.lastUp ∨
        time = s.rrd.lastUp ∧ (if s.rrd.version < 3 then 0 else usec) ≤ s.rrd.lastUpUsec
    · rw [if_pos hold] at h
      cases h
    · rw [if_neg hold] at h
      obtain rfl := Outcome.ok.inj h
      refine ⟨by dsimp only; omega, ?_, rfl⟩
      dsimp only
      split_ifs
      · decide
      · exact husec

/-! ## Elapsed steps -/

/-- **The steps of an update**: the count is that of the step boundaries, and the last of them
splits the interval. -/
structure Upd.StepsRight (s : Upd) : Prop where
  count : ((s.elapsed (updateInterval s)).elapsedPdpSt : ℤ) =
    ⌊(s.currentTime : ℚ) / s.rrd.pdpStep⌋ - ⌊(s.rrd.lastUp : ℚ) / s.rrd.pdpStep⌋
  sum : 0 < (s.elapsed (updateInterval s)).elapsedPdpSt →
    (s.elapsed (updateInterval s)).preInt + (s.elapsed (updateInterval s)).postInt = updateInterval s
  pre : 0 < (s.elapsed (updateInterval s)).elapsedPdpSt → 0 ≤ (s.elapsed (updateInterval s)).preInt
  post : 0 < (s.elapsed (updateInterval s)).elapsedPdpSt →
    0 ≤ (s.elapsed (updateInterval s)).postInt ∧
      (s.elapsed (updateInterval s)).postInt < s.rrd.pdpStep

/-- The boundaries that an update passes fit into an `int`, and the microseconds of `last_up` do
not reach beyond the last one. -/
structure Upd.StepsCounted (s : Upd) : Prop where
  few : s.currentTime.toNat / s.rrd.pdpStep - s.rrd.stepNo < 2 ^ 31
  early : s.rrd.stepNo < s.currentTime.toNat / s.rrd.pdpStep →
    s.rrd.lastUp + (s.rrd.lastUpUsec : ℚ) / usecPerSec ≤
      (s.currentTime.toNat / s.rrd.pdpStep * s.rrd.pdpStep : ℕ)

theorem throughInt_ne {n : ℕ} (hlo : 2 ^ 31 ≤ n) (hhi : n < 2 ^ 63) : throughInt n ≠ n := by
  unfold throughInt
  split_ifs <;> omega

/-- A time in whole steps, and the rest. -/
theorem sub_mod_eq {step n : ℕ} : n - n % step = n / step * step := by
  have h := Nat.div_add_mod' n step
  omega

/-- The times around the steps of an update. -/
theorem floor_steps {time : ℕ} (htime : t.currentTime = time) (hle : t.rrd.lastUp ≤ time) :
    ⌊(t.currentTime : ℚ) / t.rrd.pdpStep⌋ - ⌊(t.rrd.lastUp : ℚ) / t.rrd.pdpStep⌋ =
      ((time / t.rrd.pdpStep - t.rrd.stepNo : ℕ) : ℤ) := by
  have hmono : t.rrd.stepNo ≤ time / t.rrd.pdpStep := Nat.div_le_div_right hle
  have hnew : ⌊(t.currentTime : ℚ) / t.rrd.pdpStep⌋ = ((time / t.rrd.pdpStep : ℕ) : ℤ) := by
    rw [htime, Int.cast_natCast, Rat.floor_natCast_div_natCast, Int.natCast_div]
  have hold : ⌊(t.rrd.lastUp : ℚ) / t.rrd.pdpStep⌋ = (t.rrd.stepNo : ℤ) := by
    rw [Rat.floor_natCast_div_natCast, Rrd.stepNo, Int.natCast_div]
  rw [hnew, hold, Nat.cast_sub hmono]

/-- A boundary lies between the updates. -/
theorem passed_iff {step a b : ℕ} (hs : 0 < step) : a - a % step < b - b % step ↔ a / step < b / step := by
  rw [sub_mod_eq, sub_mod_eq]
  exact Nat.mul_lt_mul_right hs

theorem stepsRight_of_few {time : ℕ} (hs : 0 < t.rrd.pdpStep) (htime : t.currentTime = time)
    (hle : t.rrd.lastUp ≤ time) (husec : t.currentTimeUsec < usecPerSec)
    (hfew : time / t.rrd.pdpStep - t.rrd.stepNo < 2 ^ 31) : t.StepsRight ↔ t.StepsCounted := by
  have hnat : t.currentTime.toNat = time := by omega
  have hcount : (t.elapsed (updateInterval t)).elapsedPdpSt = time / t.rrd.pdpStep - t.rrd.stepNo := by
    rw [Upd.elapsed, hnat]
    exact (calculateElapsedSteps_eq t.rrd time t.currentTimeUsec (updateInterval t) hs hfew).1
  have hpos : 0 < (t.elapsed (updateInterval t)).elapsedPdpSt ↔ t.rrd.stepNo < time / t.rrd.pdpStep := by
    rw [hcount]
    exact Nat.sub_pos_iff_lt
  -- where a boundary is passed
  have hpre (h : t.rrd.stepNo < time / t.rrd.pdpStep) : (t.elapsed (updateInterval t)).preInt =
      (time / t.rrd.pdpStep * t.rrd.pdpStep : ℕ) - t.rrd.lastUp - (t.rrd.lastUpUsec : ℚ) / usecPerSec := by
    have hpassed := (passed_iff hs).mpr h
    simp only [Upd.elapsed, calculateElapsedSteps, hnat, if_pos hpassed]
    rw [← sub_mod_eq, Nat.cast_sub (Nat.mod_le _ _)]
  have hpost (h : t.rrd.stepNo < time / t.rrd.pdpStep) : (t.elapsed (updateInterval t)).postInt =
      (time % t.rrd.pdpStep : ℕ) + (t.currentTimeUsec : ℚ) / usecPerSec := by
    have hpassed := (passed_iff hs).mpr h
    simp only [Upd.elapsed, calculateElapsedSteps, hnat, if_pos hpassed]
  constructor
  · intro h
    refine ⟨by rwa [hnat], fun hlt => ?_⟩
    rw [hnat] at hlt ⊢
    have hnn := h.pre (hpos.mpr hlt)
    rw [hpre hlt] at hnn
    linarith
  · intro h
    have hu : (0 : ℚ) < usecPerSec := by norm_num [usecPerSec]
    refine ⟨?_, fun hlt => ?_, fun hlt => ?_, fun hlt => ?_⟩
    · rw [hcount, floor_steps htime hle]
    · have hsum : ((time / t.rrd.pdpStep * t.rrd.pdpStep : ℕ) : ℚ) + (time % t.rrd.pdpStep : ℕ) = time := by
        exact_mod_cast Nat.div_add_mod' time t.rrd.pdpStep
      rw [hpre (hpos.mp hlt), hpost (hpos.mp hlt), updateInterval, htime, sub_div]
      push_cast at hsum ⊢
      linarith
    · have hearly := h.early (by rw [hnat]; exact hpos.mp hlt)
      rw [hnat] at hearly
      rw [hpre (hpos.mp hlt)]
      linarith
    · rw [hpost (hpos.mp hlt)]
      have hfrac : (t.currentTimeUsec : ℚ) / usecPerSec < 1 := by
        rw [div_lt_one hu]
        exact_mod_cast husec
      have hmod : ((time % t.rrd.pdpStep : ℕ) : ℚ) + 1 ≤ t.rrd.pdpStep := by
        exact_mod_cast Nat.mod_lt time hs
      constructor
      · positivity
      · linarith

/-- `--step 1 --start 900` -/
def CreateArgs.everySecond : CreateArgs := CreateArgs.single.withStep 1 Nat.one_pos

/-- The first update of a new file, with its time. -/
def CreateArgs.firstAt (a : CreateArgs) (time : Text) : Upd :=
  { Upd.blank (rrdCreateFn a fun _ => 0) with updvals := fun _ => time }

end Rrdtool
