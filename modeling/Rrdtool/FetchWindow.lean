import Rrdtool.Fetch
import Rrdtool.Lib.FirstBest
import Mathlib.Data.Prod.Lex

/-!
# The window of a fetch

`rrd_fetch_fn` in the arithmetic of the machine: times are stored into a `time_t`, row lengths and counts
are `unsigned long`s, and the size of the result is a product in a `size_t`.

* `rrdFetchMachine_window_iff` — a fetch returns the rows of its window, in memory it has allocated,
  exactly where the window fits into these types.
-/

namespace Rrdtool

open Loop

/-! ## The function -/

/-- A value stored into a `time_t`, a `long` or an `off_t`. -/
def long (x : ℤ) : ℤ := x.bmod (2 ^ 64)

/-- The errors of a fetch, with those of the machine. -/
inductive MachineError : Type where
  /-- `the RRD does not contain an RRA matching the chosen CF` -/
  | noMatch
  /-- `malloc fetch data area` -/
  | malloc
  /-- `fetching cdp from rra` -/
  | shortRead
  /-- a row length of zero: the process is gone -/
  | divideByZero
  deriving DecidableEq

/-- `pdp_cnt * pdp_step` -/
def Rrd.rowSecsU (r : Rrd) (i : ℕ) : ℕ := ulong ((r.rraDef i).pdpCnt * r.pdpStep)

/-- `cal_end`, and `rra_end_time`. -/
def Rrd.calEnd (r : Rrd) (i : ℕ) : ℤ := long (r.lastUp - umod r.lastUp (r.rowSecsU i))

/-- `cal_start` -/
def Rrd.calStart (r : Rrd) (i : ℕ) : ℤ :=
  long (r.calEnd i - ulong ((r.rraDef i).pdpCnt * (r.rraDef i).rowCnt * r.pdpStep))

/-- One pass of the search loop. -/
def machineConsider (r : Rrd) (cf : Cf) (start stop : ℤ) (step : ℕ) (i : ℕ) (m : FetchMatch) :
    FetchMatch :=
  if (r.rraDef i).cf = cf then
    let tmpStepDiff := (long (step - r.rowSecsU i)).natAbs
    if r.calStart i ≤ start then
      if !m.full || tmpStepDiff < m.bestFullStepDiff then
        { m with full := true, bestFullStepDiff := tmpStepDiff, bestFullRra := i }
      else m
    else
      let tmpMatch := long (stop - start - long (r.calStart i - start))
      if !m.part || m.bestMatch < tmpMatch ||
          (m.bestMatch = tmpMatch && tmpStepDiff < m.bestPartStepDiff) then
        { m with
          part := true, bestMatch := tmpMatch, bestPartStepDiff := tmpStepDiff, bestPartRra := i }
      else m
  else m

/-- The RRA it chooses. -/
def machineChoose (r : Rrd) (cf : Cf) (start stop : ℤ) (step : ℕ) : Option ℕ :=
  let m := forLoop r.rraCnt (machineConsider r cf start stop step) ⟨false, 0, 0, false, 0, 0, 0⟩
  if m.full then some m.bestFullRra else if m.part then some m.bestPartRra else none

/-- What a fetch returns, with the size of its data area. -/
structure MachineFetched : Type where
  fetched : Fetched
  /-- what `malloc` was asked for -/
  allocated : ℕ

/-- `*start`, as changed. -/
def Rrd.startTime (r : Rrd) (i : ℕ) (start : ℤ) : ℤ := long (start - umod start (r.rowSecsU i))

/-- `*end`, as changed. -/
def Rrd.stopTime (r : Rrd) (i : ℕ) (stop : ℤ) : ℤ :=
  long (stop + (r.rowSecsU i - umod stop (r.rowSecsU i)))

/-- The size of the data area for `rows` rows. -/
def Rrd.dataSize (r : Rrd) (i : ℕ) (start stop : ℤ) : ℕ :=
  let rows := ulong ((long (stop - start) % 2 ^ 64 / r.rowSecsU i).toNat + 1)
  ulong (r.dsCnt * rows * 8)

/-- `rra_start_time` -/
def Rrd.oldestTime (r : Rrd) (i : ℕ) : ℤ :=
  long (r.calEnd i - ulong (r.rowSecsU i * ((r.rraDef i).rowCnt - 1)))

/-- `start_offset` -/
def Rrd.firstIndex (r : Rrd) (i : ℕ) (start : ℤ) : ℤ :=
  (long (start + r.rowSecsU i - r.oldestTime i)).tdiv (long (r.rowSecsU i))

/-- `(signed) row_cnt - end_offset` -/
def Rrd.behindIndex (r : Rrd) (i : ℕ) (stop : ℤ) : ℤ :=
  long (signed (r.rraDef i).rowCnt - (long (r.calEnd i - stop)).tdiv (long (r.rowSecsU i)))

/-- The first seek: `rra_pointer` and the position. Without it the file is at its first value. -/
def Rrd.firstSeek (r : Rrd) (i : ℕ) (start stop : ℤ) : ℕ × ℕ :=
  if start ≤ r.calEnd i ∧ long (r.oldestTime i - r.rowSecsU i) ≤ stop then
    let ptr := ((long (r.curRow i + 1 + max 0 (r.firstIndex i start))).tmod
      (signed (r.rraDef i).rowCnt)).toNat
    (ptr, r.rraStart i + ptr * r.dsCnt)
  else (0, 0)

/-- `rrd_fetch_fn` from the choice of RRA `i` on. -/
def machineFetchFrom (malloc : ℕ → Bool) (r : Rrd) (i : ℕ) (start stop : ℤ) :
    Except MachineError MachineFetched :=
  let start := r.startTime i start
  let stop := r.stopTime i stop
  if malloc (r.dataSize i start stop) then
    match fetchRows r i (signed (r.rraDef i).rowCnt)
        (r.behindIndex i stop - r.firstIndex i start).toNat (r.firstIndex i start)
        (r.firstSeek i start stop).1 (r.firstSeek i start stop).2 with
    | .ok data => .ok ⟨⟨i, start, stop, r.rowSecsU i, data⟩, r.dataSize i start stop⟩
    | .error _ => .error .shortRead
  else .error .malloc

/-- **`rrd_fetch_fn`** -/
def rrdFetchMachine (malloc : ℕ → Bool) (r : Rrd) (cf : Cf) (start stop : ℤ) (step : ℕ) :
    Except MachineError MachineFetched :=
  -- the search divides by the row length of every RRA of the CF
  if (List.range r.rraCnt).any fun i => (r.rraDef i).cf = cf && r.rowSecsU i = 0 then
    .error .divideByZero
  else
    match machineChoose r cf start stop step with
    | none => .error .noMatch
    | some i => machineFetchFrom malloc r i start stop

/-! ## What a fetch is to return -/

/-- Where the archive of RRA `i` starts. -/
def Rrd.archiveStart (r : Rrd) (i : ℕ) : ℤ := r.rraEndTime i - (r.rowSecs i * (r.rraDef i).rowCnt : ℕ)

/-- The step difference. -/
def Rrd.stepDiff (r : Rrd) (step i : ℕ) : ℕ := ((step : ℤ) - r.rowSecs i).natAbs

/-- How much of the window lies behind the start of the archive. -/
def Rrd.covered (r : Rrd) (stop : ℤ) (i : ℕ) : ℤ := stop - r.archiveStart i

/-- An RRA of the CF whose archive reaches back to `start`. -/
def Rrd.Reaches (r : Rrd) (cf : Cf) (start : ℤ) (i : ℕ) : Prop :=
  (r.rraDef i).cf = cf ∧ r.archiveStart i ≤ start

/-- The order of the others: the more is covered the better, then the less the step differs. -/
def Rrd.partKey (r : Rrd) (stop : ℤ) (step i : ℕ) : ℤ ×ₗ ℕ :=
  toLex (-r.covered stop i, r.stepDiff step i)

/-- **The RRA to choose**: the first with the smallest step difference of those that reach back; if there
is none, the first that covers most of the window, ties broken by the step difference. -/
def Rrd.Chosen (r : Rrd) (cf : Cf) (start stop : ℤ) (step i : ℕ) : Prop :=
  FirstBest (r.Reaches cf start) (r.stepDiff step) r.rraCnt i ∨
    (∀ j, j < r.rraCnt → ¬r.Reaches cf start j) ∧
      FirstBest (fun j => (r.rraDef j).cf = cf) (r.partKey stop step) r.rraCnt i

/-- The row of RRA `i` for time `t`. -/
def Rrd.rowFor (r : Rrd) (i : ℕ) (t : ℤ) : ℕ → RrdValue :=
  if r.rraEndTime i - (((r.rraDef i).rowCnt : ℤ) - 1) * r.rowSecs i ≤ t ∧ t ≤ r.rraEndTime i then
    fun d => r.values (r.cellPos i
      ((r.curRow i - (r.rraEndTime i - t) / r.rowSecs i) % (r.rraDef i).rowCnt).toNat d)
  else fun _ => dnan

/-- **The window of a fetch.** -/
structure MachineFetched.Window (r : Rrd) (cf : Cf) (start stop : ℤ) (step : ℕ)
    (m : MachineFetched) : Prop where
  chosen : r.Chosen cf start stop step m.fetched.rra
  step : m.fetched.step = r.rowSecs m.fetched.rra
  start_le : m.fetched.start ≤ start
  lt_stop : stop < m.fetched.stop
  dvd_start : (m.fetched.step : ℤ) ∣ m.fetched.start
  dvd_stop : (m.fetched.step : ℤ) ∣ m.fetched.stop
  length : (m.fetched.data.length : ℤ) = (m.fetched.stop - m.fetched.start) / m.fetched.step
  allocated : r.dsCnt * m.fetched.data.length * 8 ≤ m.allocated
  row : ∀ k : ℕ, 1 ≤ k → k ≤ m.fetched.data.length → m.fetched.data[k - 1]? =
    some (r.rowFor m.fetched.rra (m.fetched.start + k * m.fetched.step))

/-! ## The choice -/

/-- A request, and a file in which the archives of its CF end and start at times of the machine. -/
structure Fetchable (r : Rrd) (cf : Cf) (start stop : ℤ) (step : ℕ) : Prop where
  start_nonneg : 0 ≤ start
  le : start ≤ stop
  stop_lt : stop < 2 ^ 63
  step_lt : step < 2 ^ 63
  lastUp_lt : r.lastUp < 2 ^ 63
  curRow_lt : ∀ i, i < r.rraCnt → (r.rraDef i).cf = cf → r.curRow i < (r.rraDef i).rowCnt
  rowCnt_lt : ∀ i, i < r.rraCnt → (r.rraDef i).cf = cf → (r.rraDef i).rowCnt < 2 ^ 31
  secs_pos : ∀ i, i < r.rraCnt → (r.rraDef i).cf = cf → 0 < r.rowSecs i
  span_lt : ∀ i, i < r.rraCnt → (r.rraDef i).cf = cf → r.rowSecs i * (r.rraDef i).rowCnt < 2 ^ 63
  file : r.wantedCnt ≤ r.valueCnt
  file_lt : 8 * r.valueCnt < 2 ^ 63

theorem long_of_fits {x : ℤ} (hlo : -2 ^ 63 ≤ x) (hhi : x < 2 ^ 63) : long x = x :=
  Int.bmod_eq_of_le (by norm_num; omega) (by norm_num; omega)

theorem umod_of_fits {t : ℤ} (s : ℕ) (hlo : 0 ≤ t) (hhi : t < 2 ^ 63) : umod t s = t % s := by
  rw [umod, Int.emod_eq_of_lt hlo (by omega)]

variable {r : Rrd} {cf : Cf} {start stop : ℤ} {step i : ℕ}

namespace Fetchable

theorem rowCnt_pos (h : Fetchable r cf start stop step) (hi : i < r.rraCnt)
    (hcf : (r.rraDef i).cf = cf) : 0 < (r.rraDef i).rowCnt :=
  (Nat.zero_le _).trans_lt (h.curRow_lt i hi hcf)

theorem secs_lt (h : Fetchable r cf start stop step) (hi : i < r.rraCnt)
    (hcf : (r.rraDef i).cf = cf) : r.rowSecs i < 2 ^ 63 :=
  (Nat.le_mul_of_pos_right _ (h.rowCnt_pos hi hcf)).trans_lt (h.span_lt i hi hcf)

theorem rowSecsU_eq (h : Fetchable r cf start stop step) (hi : i < r.rraCnt)
    (hcf : (r.rraDef i).cf = cf) : r.rowSecsU i = r.rowSecs i :=
  Nat.mod_eq_of_lt ((h.secs_lt hi hcf).trans (by decide))

theorem rraEndTime_mem (h : Fetchable r cf start stop step) (i : ℕ) :
    0 ≤ r.rraEndTime i ∧ r.rraEndTime i < 2 ^ 63 := by
  have hle : r.lastUp % r.rowSecs i ≤ r.lastUp := Nat.mod_le _ _
  have hlast := h.lastUp_lt
  rw [Rrd.rraEndTime]
  omega

theorem calEnd_eq (h : Fetchable r cf start stop step) (hi : i < r.rraCnt)
    (hcf : (r.rraDef i).cf = cf) : r.calEnd i = r.rraEndTime i := by
  have hlast := h.lastUp_lt
  have hend := h.rraEndTime_mem i
  rw [Rrd.calEnd, h.rowSecsU_eq hi hcf, umod_of_fits _ (Int.natCast_nonneg _) (by omega)]
  exact long_of_fits (by rw [Rrd.rraEndTime] at hend; omega) (by rw [Rrd.rraEndTime] at hend; omega)

theorem calStart_eq (h : Fetchable r cf start stop step) (hi : i < r.rraCnt)
    (hcf : (r.rraDef i).cf = cf) : r.calStart i = r.archiveStart i := by
  have hend := h.rraEndTime_mem i
  have hspan := h.span_lt i hi hcf
  have hprod : (r.rraDef i).pdpCnt * (r.rraDef i).rowCnt * r.pdpStep =
      r.rowSecs i * (r.rraDef i).rowCnt := Nat.mul_right_comm _ _ _
  rw [Rrd.calStart, h.calEnd_eq hi hcf, hprod, ulong, Nat.mod_eq_of_lt (by omega)]
  exact long_of_fits (by omega) (by omega)

/-- The search does not see the machine. -/
theorem machineConsider_eq (h : Fetchable r cf start stop step) (hi : i < r.rraCnt)
    (m : FetchMatch) :
    machineConsider r cf start stop step i m = fetchConsider r cf start stop step i m := by
  unfold machineConsider fetchConsider
  by_cases hcf : (r.rraDef i).cf = cf
  · have hsecs := h.secs_lt hi hcf
    have hstep := h.step_lt
    have hend := h.rraEndTime_mem i
    have hspan := h.span_lt i hi hcf
    have h0 := h.start_nonneg
    have hle := h.le
    have hstop := h.stop_lt
    have hprod : (r.rraDef i).pdpCnt * (r.rraDef i).rowCnt * r.pdpStep =
        r.rowSecs i * (r.rraDef i).rowCnt := Nat.mul_right_comm _ _ _
    have hcomm : r.pdpStep * (r.rraDef i).pdpCnt = r.rowSecs i := Nat.mul_comm _ _
    have hstart : r.archiveStart i = r.rraEndTime i - (r.rowSecs i * (r.rraDef i).rowCnt : ℕ) := rfl
    rw [if_pos hcf, if_pos hcf, h.calStart_eq hi hcf, h.rowSecsU_eq hi hcf, hprod, hcomm, ← hstart,
      long_of_fits (by omega) (by omega)]
    by_cases hreach : r.archiveStart i ≤ start
    · rw [if_pos hreach, if_pos hreach]
    · rw [if_neg hreach, if_neg hreach, long_of_fits (x := r.archiveStart i - start) (by omega)
        (by omega), long_of_fits (by omega) (by omega)]
  · rw [if_neg hcf, if_neg hcf]

theorem machineChoose_eq (h : Fetchable r cf start stop step) :
    machineChoose r cf start stop step = chooseRra r cf start stop step := by
  have hloop : forLoop r.rraCnt (machineConsider r cf start stop step) ⟨false, 0, 0, false, 0, 0, 0⟩ =
      forLoop r.rraCnt (fetchConsider r cf start stop step) ⟨false, 0, 0, false, 0, 0, 0⟩ :=
    forLoop_rel (fun _ m m' => m = m') rfl fun i m m' hi heq => by
      rw [heq]
      exact h.machineConsider_eq hi m'
  unfold machineChoose chooseRra
  rw [hloop]

end Fetchable

/-- An RRA of the CF that does not reach back. -/
def Rrd.Partial (r : Rrd) (cf : Cf) (start : ℤ) (i : ℕ) : Prop :=
  (r.rraDef i).cf = cf ∧ ¬r.archiveStart i ≤ start

/-- What the search knows after `k` RRAs. -/
structure Searched (r : Rrd) (cf : Cf) (start stop : ℤ) (step k : ℕ) (m : FetchMatch) : Prop where
  full_none : m.full = false → ∀ j, j < k → ¬r.Reaches cf start j
  full_best : m.full = true → FirstBest (r.Reaches cf start) (r.stepDiff step) k m.bestFullRra ∧
    m.bestFullStepDiff = r.stepDiff step m.bestFullRra
  part_none : m.part = false → ∀ j, j < k → ¬r.Partial cf start j
  part_best : m.part = true →
    FirstBest (r.Partial cf start) (r.partKey stop step) k m.bestPartRra ∧
      toLex (-m.bestMatch, m.bestPartStepDiff) = r.partKey stop step m.bestPartRra

/-- One pass of the search, in the terms of the choice. -/
theorem fetchConsider_eq (r : Rrd) (cf : Cf) (start stop : ℤ) (step k : ℕ) (m : FetchMatch) :
    fetchConsider r cf start stop step k m =
      if (r.rraDef k).cf = cf then
        if r.archiveStart k ≤ start then
          if m.full = false ∨ r.stepDiff step k < m.bestFullStepDiff then
            { m with full := true, bestFullStepDiff := r.stepDiff step k, bestFullRra := k }
          else m
        else if m.part = false ∨
            r.partKey stop step k < toLex (-m.bestMatch, m.bestPartStepDiff) then
          { m with
            part := true, bestMatch := r.covered stop k, bestPartStepDiff := r.stepDiff step k,
            bestPartRra := k }
        else m
      else m := by
  have hprod : (r.rraDef k).pdpCnt * (r.rraDef k).rowCnt * r.pdpStep =
      r.rowSecs k * (r.rraDef k).rowCnt := Nat.mul_right_comm _ _ _
  have hcomm : r.pdpStep * (r.rraDef k).pdpCnt = r.rowSecs k := Nat.mul_comm _ _
  have hmatch : stop - start - (r.archiveStart k - start) = r.covered stop k := by
    rw [Rrd.covered]
    ring
  have hkey : r.partKey stop step k < toLex (-m.bestMatch, m.bestPartStepDiff) ↔
      m.bestMatch < r.covered stop k ∨
        (m.bestMatch = r.covered stop k ∧ r.stepDiff step k < m.bestPartStepDiff) := by
    rw [Rrd.partKey, Prod.Lex.toLex_lt_toLex, neg_lt_neg_iff, neg_inj, eq_comm (b := m.bestMatch)]
  have hdiff : ((step : ℤ) - r.rowSecs k).natAbs = r.stepDiff step k := rfl
  have hstart : r.rraEndTime k - (r.rowSecs k * (r.rraDef k).rowCnt : ℕ) = r.archiveStart k := rfl
  unfold fetchConsider
  simp only [hprod, hcomm, hdiff, hstart, hmatch, hkey, Bool.or_eq_true, Bool.and_eq_true,
    Bool.not_eq_true', decide_eq_true_eq, or_assoc]

theorem fetchConsider_searched {k : ℕ} {m : FetchMatch} (h : Searched r cf start stop step k m) :
    Searched r cf start stop step (k + 1) (fetchConsider r cf start stop step k m) := by
  have hpass {p : ℕ → Prop} (hk : ¬p k) (hp : ∀ j, j < k → ¬p j) (j : ℕ) (hj : j < k + 1) : ¬p j := by
    rcases Nat.lt_succ_iff_lt_or_eq.mp hj with hlt | rfl
    · exact hp j hlt
    · exact hk
  rw [fetchConsider_eq]
  by_cases hcf : (r.rraDef k).cf = cf
  · rw [if_pos hcf]
    by_cases hreach : r.archiveStart k ≤ start
    · -- a full match: the partial ones are passed over
      have hfull : r.Reaches cf start k := ⟨hcf, hreach⟩
      have hpart : ¬r.Partial cf start k := fun hp => hp.2 hreach
      have hnone (hm : m.part = false) := hpass hpart (h.part_none hm)
      have hbest (hm : m.part = true) : _ ∧ _ :=
        ⟨(h.part_best hm).1.keep fun hp => absurd hp hpart, (h.part_best hm).2⟩
      rw [if_pos hreach]
      by_cases hbetter : m.full = false ∨ r.stepDiff step k < m.bestFullStepDiff
      · rw [if_pos hbetter]
        refine ⟨fun hm => Bool.noConfusion hm, fun _ => ⟨?_, rfl⟩, hnone, hbest⟩
        cases hm : m.full with
        | false => exact .start hfull (h.full_none hm)
        | true =>
          obtain ⟨hfirst, hdiff⟩ := h.full_best hm
          rw [hm, hdiff] at hbetter
          exact hfirst.replace hfull (hbetter.resolve_left Bool.noConfusion)
      · rw [if_neg hbetter]
        obtain ⟨hm, hle⟩ := not_or.mp hbetter
        have hm : m.full = true := Bool.eq_true_of_not_eq_false hm
        obtain ⟨hfirst, hdiff⟩ := h.full_best hm
        rw [hdiff] at hle
        exact ⟨fun hf => absurd hf (by rw [hm]; exact Bool.noConfusion),
          fun _ => ⟨hfirst.keep fun _ => hle, hdiff⟩, hnone, hbest⟩
    · -- a partial match: the full ones are passed over
      have hpart : r.Partial cf start k := ⟨hcf, hreach⟩
      have hfull : ¬r.Reaches cf start k := fun hp => hreach hp.2
      have hnone (hm : m.full = false) := hpass hfull (h.full_none hm)
      have hbest (hm : m.full = true) : _ ∧ _ :=
        ⟨(h.full_best hm).1.keep fun hp => absurd hp hfull, (h.full_best hm).2⟩
      rw [if_neg hreach]
      by_cases hbetter : m.part = false ∨
          r.partKey stop step k < toLex (-m.bestMatch, m.bestPartStepDiff)
      · rw [if_pos hbetter]
        refine ⟨hnone, hbest, fun hm => Bool.noConfusion hm, fun _ => ⟨?_, rfl⟩⟩
        cases hm : m.part with
        | false => exact .start hpart (h.part_none hm)
        | true =>
          obtain ⟨hfirst, hkey⟩ := h.part_best hm
          rw [hm, hkey] at hbetter
          exact hfirst.replace hpart (hbetter.resolve_left Bool.noConfusion)
      · rw [if_neg hbetter]
        obtain ⟨hm, hle⟩ := not_or.mp hbetter
        have hm : m.part = true := Bool.eq_true_of_not_eq_false hm
        obtain ⟨hfirst, hkey⟩ := h.part_best hm
        rw [hkey] at hle
        exact ⟨hnone, hbest, fun hf => absurd hf (by rw [hm]; exact Bool.noConfusion),
          fun _ => ⟨hfirst.keep fun _ => hle, hkey⟩⟩
  · -- another CF
    have hfull : ¬r.Reaches cf start k := fun hp => hcf hp.1
    have hpart : ¬r.Partial cf start k := fun hp => hcf hp.1
    rw [if_neg hcf]
    exact ⟨fun hm => hpass hfull (h.full_none hm),
      fun hm => ⟨(h.full_best hm).1.keep fun hp => absurd hp hfull, (h.full_best hm).2⟩,
      fun hm => hpass hpart (h.part_none hm),
      fun hm => ⟨(h.part_best hm).1.keep fun hp => absurd hp hpart, (h.part_best hm).2⟩⟩

/-- **The search chooses** the RRA that is to be chosen. -/
theorem chooseRra_chosen (h : chooseRra r cf start stop step = some i) :
    r.Chosen cf start stop step i := by
  have hsearch : Searched r cf start stop step r.rraCnt
      (forLoop r.rraCnt (fetchConsider r cf start stop step) ⟨false, 0, 0, false, 0, 0, 0⟩) :=
    forLoop_invariant (Searched r cf start stop step)
      ⟨fun _ j hj => absurd hj (Nat.not_lt_zero j), fun hm => Bool.noConfusion hm,
        fun _ j hj => absurd hj (Nat.not_lt_zero j), fun hm => Bool.noConfusion hm⟩
      fun _ _ _ hm => fetchConsider_searched hm
  unfold chooseRra at h
  dsimp only at h
  split_ifs at h with hfull hpart
  · obtain rfl := Option.some.inj h
    exact .inl (hsearch.full_best hfull).1
  · obtain rfl := Option.some.inj h
    have hnone := hsearch.full_none (Bool.eq_false_of_not_eq_true hfull)
    obtain ⟨hlt, hp, hleast, hfirst⟩ := (hsearch.part_best hpart).1
    -- where none reaches back, all of the CF are partial matches
    have hall (j : ℕ) (hj : j < r.rraCnt) (hcf : (r.rraDef j).cf = cf) : r.Partial cf start j :=
      ⟨hcf, fun hreach => hnone j hj ⟨hcf, hreach⟩⟩
    exact .inr ⟨hnone, hlt, hp.1, fun j hj hcf => hleast j hj (hall j hj hcf),
      fun j hj hcf => hfirst j hj (hall j (hj.trans hlt) hcf)⟩

theorem Rrd.Chosen.lt (h : r.Chosen cf start stop step i) : i < r.rraCnt := by
  rcases h with h | ⟨-, h⟩
  · exact h.lt
  · exact h.lt

theorem Rrd.Chosen.cf_eq (h : r.Chosen cf start stop step i) : (r.rraDef i).cf = cf := by
  rcases h with h | ⟨-, h⟩
  · exact h.holds.1
  · exact h.holds

theorem Rrd.Chosen.unique {j : ℕ} (hi : r.Chosen cf start stop step i)
    (hj : r.Chosen cf start stop step j) : i = j := by
  rcases hi with hi | ⟨hnone, hi⟩
  · rcases hj with hj | ⟨hnone, -⟩
    · exact hi.unique hj
    · exact absurd hi.holds (hnone i hi.lt)
  · rcases hj with hj | ⟨-, hj⟩
    · exact absurd hj.holds (hnone j hj.lt)
    · exact hi.unique hj

/-! ## The rows -/

/-- A run over the ring reads inside the file, wherever it starts. -/
theorem fetchRows_total (hfile : r.rraStart (i + 1) ≤ r.valueCnt) {n : ℕ} {k : ℤ} {ptr pos : ℕ}
    (hptr : ptr ≤ (r.rraDef i).rowCnt) (hc : 0 < (r.rraDef i).rowCnt)
    (hpos : pos = r.rraStart i + ptr * r.dsCnt ∨ pos = ptr * r.dsCnt) :
    ∃ rows, fetchRows r i (r.rraDef i).rowCnt n k ptr pos = .ok rows ∧ rows.length = n := by
  induction n generalizing k ptr pos with
  | zero => exact ⟨[], rfl, rfl⟩
  | succ n ih =>
    simp only [fetchRows]
    by_cases hout : k < 0 ∨ ((r.rraDef i).rowCnt : ℤ) ≤ k
    · obtain ⟨rows, hrows, hlen⟩ := ih hptr hpos (k := k + 1)
      rw [if_pos hout, hrows]
      exact ⟨_, rfl, congrArg (· + 1) hlen⟩
    · rw [Rrd.rraStart_succ] at hfile
      have hread {p q : ℕ} (hp : p < (r.rraDef i).rowCnt)
          (hq : q = r.rraStart i + p * r.dsCnt ∨ q = p * r.dsCnt) : q + r.dsCnt ≤ r.valueCnt := by
        have hle := Nat.mul_le_mul_right r.dsCnt hp
        rw [Nat.succ_mul] at hle
        omega
      have hnext {p q : ℕ} (hq : q = r.rraStart i + p * r.dsCnt ∨ q = p * r.dsCnt) :
          q + r.dsCnt = r.rraStart i + (p + 1) * r.dsCnt ∨ q + r.dsCnt = (p + 1) * r.dsCnt := by
        rw [Nat.succ_mul]
        omega
      rw [if_neg hout]
      by_cases hwrap : ((r.rraDef i).rowCnt : ℤ) ≤ ptr
      · obtain rfl : ptr = (r.rraDef i).rowCnt := by omega
        have hzero : r.rraStart i + ((r.rraDef i).rowCnt - (r.rraDef i).rowCnt) * r.dsCnt =
            r.rraStart i + 0 * r.dsCnt := by rw [Nat.sub_self]
        have hone : 0 + 1 ≤ (r.rraDef i).rowCnt := hc
        obtain ⟨rows, hrows, hlen⟩ := ih (k := k + 1) hone
          (hnext (q := r.rraStart i + 0 * r.dsCnt) (.inl rfl))
        simp only [if_pos hwrap, Nat.sub_self, if_neg (Nat.not_lt.mpr (hread hc (.inl rfl))), hrows]
        exact ⟨_, rfl, congrArg (· + 1) hlen⟩
      · have hlt : ptr < (r.rraDef i).rowCnt := by omega
        have hle : ptr + 1 ≤ (r.rraDef i).rowCnt := hlt
        obtain ⟨rows, hrows, hlen⟩ := ih (k := k + 1) hle (hnext hpos)
        simp only [if_neg hwrap, if_neg (Nat.not_lt.mpr (hread hlt hpos)), hrows]
        exact ⟨_, rfl, congrArg (· + 1) hlen⟩

/-- `start`, rounded down to a row. -/
def Rrd.windowStart (r : Rrd) (i : ℕ) (start : ℤ) : ℤ := start - start % r.rowSecs i

/-- `stop`, rounded up to the next row. -/
def Rrd.windowStop (r : Rrd) (i : ℕ) (stop : ℤ) : ℤ := stop + (r.rowSecs i - stop % r.rowSecs i)

/-- **The window fits** into the types of the machine: its end into a `time_t`, the size of its data area
into a `size_t`, and the indices of its first row and behind its last one into an `off_t` and a `long`. Rows
of one second are the exception: where both indices wrap around, no row is in the ring either way. -/
def Rrd.WindowFits (r : Rrd) (i : ℕ) (start stop : ℤ) : Prop :=
  let first := r.windowStart i start - r.rraEndTime i + r.rowSecs i * (r.rraDef i).rowCnt
  let behind := (r.rraDef i).rowCnt + (r.windowStop i stop - r.rraEndTime i) / r.rowSecs i
  r.windowStop i stop < 2 ^ 63 ∧
    (r.dsCnt : ℤ) * ((r.windowStop i stop - r.windowStart i start) / r.rowSecs i + 1) * 8 < 2 ^ 64 ∧
    (first < 2 ^ 63 ∧ behind < 2 ^ 63 ∨ r.rowSecs i = 1 ∧ 2 ^ 63 ≤ first)

/-! ## The machine's numbers -/

theorem emod_le_self {t s : ℤ} (ht : 0 ≤ t) (hs : 0 < s) : t % s ≤ t := by
  have hdiv := Int.mul_ediv_add_emod t s
  have hq := Int.mul_nonneg hs.le (Int.ediv_nonneg ht hs.le)
  omega

theorem Rrd.windowStart_eq (r : Rrd) (i : ℕ) (start : ℤ) :
    r.windowStart i start = start / r.rowSecs i * r.rowSecs i := by
  rw [Rrd.windowStart, Int.emod_def, sub_sub_cancel, mul_comm]

theorem Rrd.windowStop_eq (r : Rrd) (i : ℕ) (stop : ℤ) :
    r.windowStop i stop = (stop / r.rowSecs i + 1) * r.rowSecs i := by
  rw [Rrd.windowStop, Int.emod_def]
  ring

/-- Behind the ring nothing is known. -/
theorem rowFor_past {t : ℤ} (ht : r.rraEndTime i < t) : r.rowFor i t = fun _ => dnan :=
  if_neg fun hmem => absurd hmem.2 (not_le.mpr ht)

section Numbers

variable (h : Fetchable r cf start stop step) (hi : i < r.rraCnt) (hcf : (r.rraDef i).cf = cf)
include h hi hcf

theorem startTime_eq : r.startTime i start = r.windowStart i start := by
  have hs : (0 : ℤ) < r.rowSecs i := by exact_mod_cast h.secs_pos i hi hcf
  have h0 := h.start_nonneg
  have hlt := h.le.trans_lt h.stop_lt
  have hmod := Int.emod_nonneg start hs.ne'
  have hle : start % r.rowSecs i ≤ start := emod_le_self h0 hs
  rw [Rrd.startTime, h.rowSecsU_eq hi hcf, umod_of_fits _ h0 hlt]
  exact long_of_fits (by omega) (by omega)

theorem windowStop_gt : stop < r.windowStop i stop ∧ r.windowStop i stop ≤ stop + r.rowSecs i := by
  have hs : (0 : ℤ) < r.rowSecs i := by exact_mod_cast h.secs_pos i hi hcf
  have hmod := Int.emod_nonneg stop hs.ne'
  have hlt := Int.emod_lt_of_pos stop hs
  rw [Rrd.windowStop]
  omega

theorem stopTime_eq_long : r.stopTime i stop = long (r.windowStop i stop) := by
  rw [Rrd.stopTime, h.rowSecsU_eq hi hcf,
    umod_of_fits _ (h.start_nonneg.trans h.le) h.stop_lt]
  rfl

/-- An end that does not fit is lost. -/
theorem windowStop_lt_of_stopTime (hlt : stop < r.stopTime i stop) : r.windowStop i stop < 2 ^ 63 := by
  by_contra hge
  have hsecs := h.secs_lt hi hcf
  have hstop := h.stop_lt
  have h0 := h.start_nonneg.trans h.le
  have hgt := windowStop_gt h hi hcf
  rw [stopTime_eq_long h hi hcf, long, Int.bmod_def] at hlt
  split_ifs at hlt <;> omega

theorem oldestTime_eq : r.oldestTime i = r.rraStartTime i := by
  have hend := h.rraEndTime_mem i
  have hspan := h.span_lt i hi hcf
  have hle : r.rowSecs i * ((r.rraDef i).rowCnt - 1) ≤ r.rowSecs i * (r.rraDef i).rowCnt :=
    Nat.mul_le_mul_left _ (Nat.sub_le _ _)
  rw [Rrd.oldestTime, h.rowSecsU_eq hi hcf, h.calEnd_eq hi hcf, ulong, Nat.mod_eq_of_lt (by omega),
    Rrd.rraStartTime]
  exact long_of_fits (by omega) (by omega)

/-- The distance of a row from the oldest one, in seconds. -/
theorem oldest_distance (a : ℤ) : a * r.rowSecs i + r.rowSecs i - r.rraStartTime i =
    (a - r.rowNo i + (r.rraDef i).rowCnt) * r.rowSecs i := by
  have hc := h.rowCnt_pos hi hcf
  have hpred : (((r.rraDef i).rowCnt - 1 : ℕ) : ℤ) = (r.rraDef i).rowCnt - 1 := by omega
  rw [Rrd.rraStartTime, Rrd.rraEndTime_eq, Nat.cast_mul, hpred]
  ring

theorem firstIndex_eq (a : ℤ) :
    r.firstIndex i (a * r.rowSecs i) =
      (long ((a - r.rowNo i + (r.rraDef i).rowCnt) * r.rowSecs i)).tdiv (r.rowSecs i) := by
  have hsecs := h.secs_lt hi hcf
  rw [Rrd.firstIndex, h.rowSecsU_eq hi hcf, oldestTime_eq h hi hcf, oldest_distance h hi hcf,
    long_of_fits (x := (r.rowSecs i : ℤ)) (by omega) (by omega)]

/-- The index of a row counts from the oldest one. -/
theorem firstIndex_of_lt {a : ℤ} (ha : 0 ≤ a)
    (hfits : (a - r.rowNo i + (r.rraDef i).rowCnt) * r.rowSecs i < 2 ^ 63) :
    r.firstIndex i (a * r.rowSecs i) = a - r.rowNo i + (r.rraDef i).rowCnt := by
  have hs : (0 : ℤ) < r.rowSecs i := by exact_mod_cast h.secs_pos i hi hcf
  have hend := h.rraEndTime_mem i
  rw [Rrd.rraEndTime_eq] at hend
  have hlo : -2 ^ 63 ≤ (a - r.rowNo i + (r.rraDef i).rowCnt) * (r.rowSecs i : ℤ) := by
    have hpart : 0 ≤ (a + (r.rraDef i).rowCnt) * (r.rowSecs i : ℤ) := by positivity
    have hsplit : (a - r.rowNo i + (r.rraDef i).rowCnt) * (r.rowSecs i : ℤ) =
        (a + (r.rraDef i).rowCnt) * r.rowSecs i - r.rowNo i * r.rowSecs i := by ring
    omega
  rw [firstIndex_eq h hi hcf, long_of_fits hlo hfits]
  exact Int.mul_tdiv_cancel _ hs.ne'

/-- One that does not fit comes out negative. -/
theorem firstIndex_of_ge {a : ℤ} (hlt : a * r.rowSecs i < 2 ^ 63)
    (hge : 2 ^ 63 ≤ (a - r.rowNo i + (r.rraDef i).rowCnt) * (r.rowSecs i : ℤ)) :
    r.firstIndex i (a * r.rowSecs i) =
      ((a - r.rowNo i + (r.rraDef i).rowCnt) * (r.rowSecs i : ℤ) - 2 ^ 64).tdiv (r.rowSecs i) ∧
    r.firstIndex i (a * r.rowSecs i) ≤ 0 := by
  have hend := h.rraEndTime_mem i
  rw [Rrd.rraEndTime_eq] at hend
  have hspan : (r.rowSecs i * (r.rraDef i).rowCnt : ℤ) < 2 ^ 63 := by
    exact_mod_cast h.span_lt i hi hcf
  have hsplit : (a - r.rowNo i + (r.rraDef i).rowCnt) * (r.rowSecs i : ℤ) =
      a * r.rowSecs i - r.rowNo i * r.rowSecs i + r.rowSecs i * (r.rraDef i).rowCnt := by ring
  have hwrap : long ((a - r.rowNo i + (r.rraDef i).rowCnt) * (r.rowSecs i : ℤ)) =
      (a - r.rowNo i + (r.rraDef i).rowCnt) * (r.rowSecs i : ℤ) - 2 ^ 64 := by
    rw [long, Int.bmod_def]
    split_ifs <;> omega
  rw [firstIndex_eq h hi hcf, hwrap]
  refine ⟨rfl, ?_⟩
  have hneg := Int.tdiv_nonneg (a := -((a - r.rowNo i + (r.rraDef i).rowCnt) * r.rowSecs i - 2 ^ 64))
    (b := r.rowSecs i) (by omega) (Int.natCast_nonneg _)
  rw [Int.neg_tdiv] at hneg
  omega

theorem behindIndex_eq {b : ℤ} (hb : 0 ≤ b) (hlt : b * r.rowSecs i < 2 ^ 63) :
    r.behindIndex i (b * r.rowSecs i) = long ((r.rraDef i).rowCnt + (b - r.rowNo i)) := by
  have hs : (0 : ℤ) < r.rowSecs i := by exact_mod_cast h.secs_pos i hi hcf
  have hsecs := h.secs_lt hi hcf
  have hend := h.rraEndTime_mem i
  have hmul : 0 ≤ b * (r.rowSecs i : ℤ) := by positivity
  have hdiff : r.rraEndTime i - b * r.rowSecs i = (r.rowNo i - b) * r.rowSecs i := by
    rw [Rrd.rraEndTime_eq]
    ring
  rw [Rrd.behindIndex, h.rowSecsU_eq hi hcf, h.calEnd_eq hi hcf, signed_of_lt (h.rowCnt_lt i hi hcf),
    long_of_fits (x := r.rraEndTime i - b * r.rowSecs i) (by omega) (by omega),
    long_of_fits (x := (r.rowSecs i : ℤ)) (by omega) (by omega), hdiff, Int.mul_tdiv_cancel _ hs.ne']
  congr 1
  ring

/-- The size of the data area, for the rows of the window and one more. -/
theorem dataSize_eq {a b : ℤ} (ha : 0 ≤ a) (hab : a ≤ b) (hlt : b * r.rowSecs i < 2 ^ 63) :
    (r.dataSize i (a * r.rowSecs i) (b * r.rowSecs i) : ℤ) = (r.dsCnt * (b - a + 1) * 8) % 2 ^ 64 := by
  have hs : (0 : ℤ) < r.rowSecs i := by exact_mod_cast h.secs_pos i hi hcf
  have hdiff : b * r.rowSecs i - a * r.rowSecs i = (b - a) * r.rowSecs i := by ring
  have hnn : 0 ≤ (b - a) * (r.rowSecs i : ℤ) := mul_nonneg (by omega) hs.le
  have ha0 : 0 ≤ a * (r.rowSecs i : ℤ) := mul_nonneg ha hs.le
  have hle : b - a ≤ (b - a) * (r.rowSecs i : ℤ) := le_mul_of_one_le_right (by omega) (by omega)
  have hrows : (long (b * r.rowSecs i - a * r.rowSecs i) % 2 ^ 64 / r.rowSecs i).toNat + 1 =
      (b - a + 1).toNat := by
    rw [hdiff, long_of_fits (by omega) (by omega), Int.emod_eq_of_lt hnn (by omega),
      Int.mul_ediv_cancel _ hs.ne']
    omega
  rw [Rrd.dataSize, h.rowSecsU_eq hi hcf, hrows]
  rw [ulong, ulong, Nat.mod_eq_of_lt (by omega : (b - a + 1).toNat < 2 ^ 64)]
  push_cast
  rw [Int.toNat_of_nonneg (by omega)]

/-! ## The run -/

/-- The first seek goes to a row of the ring, or nowhere. -/
theorem firstSeek_readable (start stop : ℤ) :
    (r.firstSeek i start stop).1 ≤ (r.rraDef i).rowCnt ∧
      ((r.firstSeek i start stop).2 = r.rraStart i + (r.firstSeek i start stop).1 * r.dsCnt ∨
        (r.firstSeek i start stop).2 = (r.firstSeek i start stop).1 * r.dsCnt) := by
  have hc : (0 : ℤ) < (r.rraDef i).rowCnt := by exact_mod_cast h.rowCnt_pos hi hcf
  unfold Rrd.firstSeek
  rw [signed_of_lt (h.rowCnt_lt i hi hcf)]
  split_ifs
  · refine ⟨?_, .inl rfl⟩
    have hlt := Int.tmod_lt_of_pos (long (r.curRow i + 1 + max 0 (r.firstIndex i start))) hc
    dsimp only
    omega
  · exact ⟨Nat.zero_le _, .inr (Nat.zero_mul _).symm⟩

omit hcf in
theorem fetchable_file : r.rraStart (i + 1) ≤ r.valueCnt := (r.rraStart_mono hi).trans h.file

/-- **A fetch returns** where it gets its memory, with the number of rows that the machine computes. -/
theorem machineFetchFrom_ok (malloc : ℕ → Bool) (start stop : ℤ) : ∃ data,
    fetchRows r i (r.rraDef i).rowCnt
        (r.behindIndex i (r.stopTime i stop) - r.firstIndex i (r.startTime i start)).toNat
        (r.firstIndex i (r.startTime i start))
        (r.firstSeek i (r.startTime i start) (r.stopTime i stop)).1
        (r.firstSeek i (r.startTime i start) (r.stopTime i stop)).2 = .ok data ∧
      data.length =
        (r.behindIndex i (r.stopTime i stop) - r.firstIndex i (r.startTime i start)).toNat ∧
      machineFetchFrom malloc r i start stop =
        if malloc (r.dataSize i (r.startTime i start) (r.stopTime i stop)) then
          .ok ⟨⟨i, r.startTime i start, r.stopTime i stop, r.rowSecs i, data⟩,
            r.dataSize i (r.startTime i start) (r.stopTime i stop)⟩
        else .error .malloc := by
  obtain ⟨hptr, hpos⟩ := firstSeek_readable h hi hcf (r.startTime i start) (r.stopTime i stop)
  obtain ⟨data, hdata, hlen⟩ := fetchRows_total (fetchable_file h hi)
    (n := (r.behindIndex i (r.stopTime i stop) - r.firstIndex i (r.startTime i start)).toNat)
    (k := r.firstIndex i (r.startTime i start)) hptr (h.rowCnt_pos hi hcf) hpos
  refine ⟨data, hdata, hlen, ?_⟩
  unfold machineFetchFrom
  dsimp only
  rw [signed_of_lt (h.rowCnt_lt i hi hcf), hdata, h.rowSecsU_eq hi hcf]

/-- The rows of a run whose indices are those of the window where they are inside the ring. -/
theorem machineRows_eq {a b : ℤ} {n : ℕ}
    (hring : ∀ k : ℕ, k < n → 0 ≤ r.firstIndex i (a * r.rowSecs i) + k →
      r.firstIndex i (a * r.rowSecs i) + k < (r.rraDef i).rowCnt →
      r.firstIndex i (a * r.rowSecs i) = a - r.rowNo i + (r.rraDef i).rowCnt ∧ (n : ℤ) ≤ b - a) :
    fetchRows r i (r.rraDef i).rowCnt n (r.firstIndex i (a * r.rowSecs i))
        (r.firstSeek i (a * r.rowSecs i) (b * r.rowSecs i)).1
        (r.firstSeek i (a * r.rowSecs i) (b * r.rowSecs i)).2 =
      .ok ((List.range n).map fun k : ℕ => fetchedRow r i (r.firstIndex i (a * r.rowSecs i) + k)) := by
  have hs : (0 : ℤ) < r.rowSecs i := by exact_mod_cast h.secs_pos i hi hcf
  have hc := h.rowCnt_pos hi hcf
  have hclt := h.rowCnt_lt i hi hcf
  have hrow := h.curRow_lt i hi hcf
  have hend := h.rraEndTime_mem i
  have hspan : (r.rowSecs i * (r.rraDef i).rowCnt : ℤ) < 2 ^ 63 := by
    exact_mod_cast h.span_lt i hi hcf
  apply fetchRows_eq hc (fetchable_file h hi)
  intro k hk hlo hhi
  obtain ⟨hfirst, hn⟩ := hring k hk hlo hhi
  -- an index inside the ring means that the seek was made
  have holdest : r.rraStartTime i - r.rowSecs i =
      (r.rowNo i - (r.rraDef i).rowCnt) * r.rowSecs i := by
    have hzero := oldest_distance h hi hcf 0
    rw [zero_mul, zero_add] at hzero
    rw [← neg_sub, hzero]
    ring
  have hguard : a * r.rowSecs i ≤ r.calEnd i ∧
      long (r.oldestTime i - r.rowSecsU i) ≤ b * r.rowSecs i := by
    rw [h.calEnd_eq hi hcf, oldestTime_eq h hi hcf, h.rowSecsU_eq hi hcf, holdest,
      Rrd.rraEndTime_eq]
    have hsplit : (r.rowNo i - (r.rraDef i).rowCnt) * (r.rowSecs i : ℤ) =
        r.rowNo i * r.rowSecs i - r.rowSecs i * (r.rraDef i).rowCnt := by ring
    have hpos : 0 ≤ (r.rowSecs i * (r.rraDef i).rowCnt : ℤ) := by positivity
    rw [Rrd.rraEndTime_eq] at hend
    rw [long_of_fits (by omega) (by omega)]
    constructor
    · exact mul_le_mul_of_nonneg_right (by omega) hs.le
    · exact mul_le_mul_of_nonneg_right (by omega) hs.le
  have hptr : ((long (r.curRow i + 1 + max 0 (r.firstIndex i (a * r.rowSecs i)))).tmod
      (signed (r.rraDef i).rowCnt)).toNat =
      (r.curRow i + 1 + (r.firstIndex i (a * r.rowSecs i)).toNat) % (r.rraDef i).rowCnt := by
    have hmax : (r.curRow i : ℤ) + 1 + max 0 (r.firstIndex i (a * r.rowSecs i)) =
        (r.curRow i + 1 + (r.firstIndex i (a * r.rowSecs i)).toNat : ℕ) := by omega
    rw [hmax, signed_of_lt hclt, long_of_fits (by omega) (by omega),
      Int.tmod_eq_emod_of_nonneg (Int.natCast_nonneg _), ← Int.natCast_mod, Int.toNat_natCast]
  unfold Rrd.firstSeek
  rw [if_pos hguard, hptr]
  exact ⟨rfl, (Nat.mod_lt _ hc).le, Nat.mod_mod _ _⟩

/-- The row of an index is the row of its time. -/
theorem fetchedRow_eq_rowFor (a : ℤ) (k : ℕ) :
    fetchedRow r i (a - r.rowNo i + (r.rraDef i).rowCnt + k) =
      r.rowFor i (a * r.rowSecs i + (k + 1 : ℕ) * r.rowSecs i) := by
  have hs : (0 : ℤ) < r.rowSecs i := by exact_mod_cast h.secs_pos i hi hcf
  have hc : (0 : ℤ) < (r.rraDef i).rowCnt := by exact_mod_cast h.rowCnt_pos hi hcf
  have htime : a * r.rowSecs i + (k + 1 : ℕ) * r.rowSecs i = (a + k + 1) * (r.rowSecs i : ℤ) := by
    push_cast
    ring
  have holdest : r.rraEndTime i - (((r.rraDef i).rowCnt : ℤ) - 1) * r.rowSecs i =
      (r.rowNo i - (r.rraDef i).rowCnt + 1) * r.rowSecs i := by
    rw [Rrd.rraEndTime_eq]
    ring
  have hback : r.rraEndTime i - (a + k + 1) * r.rowSecs i = (r.rowNo i - (a + k + 1)) * r.rowSecs i := by
    rw [Rrd.rraEndTime_eq]
    ring
  have hring : (r.rowNo i - (r.rraDef i).rowCnt + 1) * (r.rowSecs i : ℤ) ≤ (a + k + 1) * r.rowSecs i ∧
      (a + k + 1) * r.rowSecs i ≤ r.rraEndTime i ↔
      ¬(a - r.rowNo i + (r.rraDef i).rowCnt + k < 0 ∨
        ((r.rraDef i).rowCnt : ℤ) ≤ a - r.rowNo i + (r.rraDef i).rowCnt + k) := by
    rw [Rrd.rraEndTime_eq, mul_le_mul_iff_left₀ hs, mul_le_mul_iff_left₀ hs]
    omega
  unfold fetchedRow Rrd.rowFor
  rw [htime, holdest]
  by_cases hin : a - r.rowNo i + (r.rraDef i).rowCnt + k < 0 ∨
      ((r.rraDef i).rowCnt : ℤ) ≤ a - r.rowNo i + (r.rraDef i).rowCnt + k
  · rw [if_pos hin, if_neg fun hmem => hring.mp hmem hin]
  · rw [if_neg hin, if_pos (hring.mpr hin), hback, Int.mul_ediv_cancel _ hs.ne']
    -- one round of the ring lies between the two ways to count
    have hrow : ((r.curRow i - (r.rowNo i - (a + k + 1))) % (r.rraDef i).rowCnt).toNat =
        (r.curRow i + 1 + (a - r.rowNo i + (r.rraDef i).rowCnt + k).toNat) % (r.rraDef i).rowCnt := by
      have hround : (r.curRow i : ℤ) - (r.rowNo i - (a + k + 1)) + (r.rraDef i).rowCnt =
          (r.curRow i + 1 + (a - r.rowNo i + (r.rraDef i).rowCnt + k).toNat : ℕ) := by omega
      rw [← Int.add_emod_right, hround, ← Int.natCast_mod, Int.toNat_natCast]
    rw [hrow]

/-- The window in rows. -/
theorem window_rows : 0 ≤ start / r.rowSecs i ∧ start / r.rowSecs i < stop / r.rowSecs i + 1 ∧
    start / r.rowSecs i * r.rowSecs i ≤ start ∧
    r.startTime i start = start / r.rowSecs i * r.rowSecs i ∧
    r.windowStop i stop = (stop / r.rowSecs i + 1) * r.rowSecs i := by
  have hs : (0 : ℤ) < r.rowSecs i := by exact_mod_cast h.secs_pos i hi hcf
  have hdiv : start / r.rowSecs i ≤ stop / r.rowSecs i := Int.ediv_le_ediv hs h.le
  refine ⟨Int.ediv_nonneg h.start_nonneg hs.le, by omega, ?_, ?_, r.windowStop_eq i stop⟩
  · exact Int.ediv_mul_le start hs.ne'
  · rw [startTime_eq h hi hcf, Rrd.windowStart_eq]

/-- What is to fit, in rows. -/
theorem windowFits_iff (a b : ℤ) (ha : r.windowStart i start = a * r.rowSecs i)
    (hb : r.windowStop i stop = b * r.rowSecs i) : r.WindowFits i start stop ↔
      b * r.rowSecs i < 2 ^ 63 ∧ (r.dsCnt : ℤ) * (b - a + 1) * 8 < 2 ^ 64 ∧
        ((a - r.rowNo i + (r.rraDef i).rowCnt) * (r.rowSecs i : ℤ) < 2 ^ 63 ∧
            (r.rraDef i).rowCnt + (b - r.rowNo i) < 2 ^ 63 ∨
          r.rowSecs i = 1 ∧ 2 ^ 63 ≤ (a - r.rowNo i + (r.rraDef i).rowCnt) * (r.rowSecs i : ℤ)) := by
  have hs : (0 : ℤ) < r.rowSecs i := by exact_mod_cast h.secs_pos i hi hcf
  have hrows : (b * r.rowSecs i - a * r.rowSecs i) / (r.rowSecs i : ℤ) = b - a := by
    rw [← sub_mul, Int.mul_ediv_cancel _ hs.ne']
  have hbehind : (b * r.rowSecs i - r.rraEndTime i) / (r.rowSecs i : ℤ) = b - r.rowNo i := by
    rw [Rrd.rraEndTime_eq, ← sub_mul, Int.mul_ediv_cancel _ hs.ne']
  have hfirst : a * r.rowSecs i - r.rraEndTime i + r.rowSecs i * (r.rraDef i).rowCnt =
      (a - r.rowNo i + (r.rraDef i).rowCnt) * (r.rowSecs i : ℤ) := by
    rw [Rrd.rraEndTime_eq]
    ring
  unfold Rrd.WindowFits
  dsimp only
  rw [ha, hb, hrows, hbehind, hfirst]

/-- The indices of a window that fits: as many as it has rows, and those of its rows or none in the
ring. -/
theorem indices_of_fits {a b : ℤ} (ha : 0 ≤ a) (hab : a < b) (hb : b * r.rowSecs i < 2 ^ 63)
    (hindex : (a - r.rowNo i + (r.rraDef i).rowCnt) * (r.rowSecs i : ℤ) < 2 ^ 63 ∧
        (r.rraDef i).rowCnt + (b - r.rowNo i) < 2 ^ 63 ∨
      r.rowSecs i = 1 ∧ 2 ^ 63 ≤ (a - r.rowNo i + (r.rraDef i).rowCnt) * (r.rowSecs i : ℤ)) :
    r.behindIndex i (b * r.rowSecs i) - r.firstIndex i (a * r.rowSecs i) = b - a ∧
      (r.firstIndex i (a * r.rowSecs i) = a - r.rowNo i + (r.rraDef i).rowCnt ∨
        r.firstIndex i (a * r.rowSecs i) + (b - a) ≤ 0 ∧ r.rowNo i < a) := by
  have hs : (0 : ℤ) < r.rowSecs i := by exact_mod_cast h.secs_pos i hi hcf
  have hclt := h.rowCnt_lt i hi hcf
  have hno : (r.rowNo i : ℤ) ≤ r.rowNo i * r.rowSecs i := le_mul_of_one_le_right (by omega) (by omega)
  have hend := h.rraEndTime_mem i
  rw [Rrd.rraEndTime_eq] at hend
  have hale : a * (r.rowSecs i : ℤ) < 2 ^ 63 :=
    (mul_lt_mul_of_pos_right hab hs).trans hb
  rw [behindIndex_eq h hi hcf (by omega) hb]
  rcases hindex with ⟨hfirst, hbehind⟩ | ⟨hone, hfirst⟩
  · rw [firstIndex_of_lt h hi hcf ha hfirst, long_of_fits (by omega) hbehind]
    exact ⟨by ring, .inl rfl⟩
  · rw [(firstIndex_of_ge h hi hcf hale hfirst).1]
    rw [hone] at hfirst hb hend ⊢
    simp only [Nat.cast_one, mul_one, Int.tdiv_one] at hfirst hb hend ⊢
    have hwrap : long ((r.rraDef i).rowCnt + (b - r.rowNo i)) =
        (r.rraDef i).rowCnt + (b - r.rowNo i) - 2 ^ 64 := by
      rw [long, Int.bmod_def]
      split_ifs <;> omega
    rw [hwrap]
    exact ⟨by ring, .inr ⟨by omega, by omega⟩⟩

/-- Indices that are as many as the window has rows fit. -/
theorem fits_of_indices {a b : ℤ} (ha : 0 ≤ a) (hab : a < b) (hb : b * r.rowSecs i < 2 ^ 63)
    (hcount : r.behindIndex i (b * r.rowSecs i) - r.firstIndex i (a * r.rowSecs i) = b - a) :
    (a - r.rowNo i + (r.rraDef i).rowCnt) * (r.rowSecs i : ℤ) < 2 ^ 63 ∧
        (r.rraDef i).rowCnt + (b - r.rowNo i) < 2 ^ 63 ∨
      r.rowSecs i = 1 ∧ 2 ^ 63 ≤ (a - r.rowNo i + (r.rraDef i).rowCnt) * (r.rowSecs i : ℤ) := by
  have hs : (0 : ℤ) < r.rowSecs i := by exact_mod_cast h.secs_pos i hi hcf
  have hclt := h.rowCnt_lt i hi hcf
  have hno : (r.rowNo i : ℤ) ≤ r.rowNo i * r.rowSecs i := le_mul_of_one_le_right (by omega) (by omega)
  have hend := h.rraEndTime_mem i
  rw [Rrd.rraEndTime_eq] at hend
  have hble : b ≤ b * (r.rowSecs i : ℤ) := le_mul_of_one_le_right (by omega) (by omega)
  have hale : a * (r.rowSecs i : ℤ) < 2 ^ 63 := (mul_lt_mul_of_pos_right hab hs).trans hb
  rw [behindIndex_eq h hi hcf (by omega) hb] at hcount
  rcases lt_or_ge ((a - r.rowNo i + (r.rraDef i).rowCnt) * (r.rowSecs i : ℤ)) (2 ^ 63) with hX | hX
  · refine .inl ⟨hX, ?_⟩
    by_contra hY
    have hwrap : long ((r.rraDef i).rowCnt + (b - r.rowNo i)) =
        (r.rraDef i).rowCnt + (b - r.rowNo i) - 2 ^ 64 := by
      rw [long, Int.bmod_def]
      split_ifs <;> omega
    rw [firstIndex_of_lt h hi hcf ha hX, hwrap] at hcount
    omega
  · have hneg := (firstIndex_of_ge h hi hcf hale hX).2
    have hpos : 0 < a - r.rowNo i + (r.rraDef i).rowCnt := by
      by_contra hle
      have hle' := mul_nonpos_of_nonpos_of_nonneg (not_lt.mp hle) hs.le
      omega
    rcases lt_or_ge ((r.rraDef i).rowCnt + (b - r.rowNo i)) (2 ^ 63) with hY | hY
    · rw [long_of_fits (by omega) hY] at hcount
      omega
    · -- only rows of one second have so many numbers
      refine .inr ⟨?_, hX⟩
      by_contra hone
      have htwo : b * 2 ≤ b * (r.rowSecs i : ℤ) :=
        mul_le_mul_of_nonneg_left (by omega) (by omega)
      omega

theorem stopTime_eq {b : ℤ} (hstop : r.windowStop i stop = b * r.rowSecs i)
    (hb : b * r.rowSecs i < 2 ^ 63) : r.stopTime i stop = b * r.rowSecs i := by
  have hgt := (windowStop_gt h hi hcf).1
  have h0 := h.start_nonneg.trans h.le
  rw [stopTime_eq_long h hi hcf, hstop]
  exact long_of_fits (by omega) hb

/-- The run over a window that fits. -/
theorem data_of_fits {a b : ℤ} (ha : 0 ≤ a) (hab : a < b) (hb : b * r.rowSecs i < 2 ^ 63)
    (hindex : (a - r.rowNo i + (r.rraDef i).rowCnt) * (r.rowSecs i : ℤ) < 2 ^ 63 ∧
        (r.rraDef i).rowCnt + (b - r.rowNo i) < 2 ^ 63 ∨
      r.rowSecs i = 1 ∧ 2 ^ 63 ≤ (a - r.rowNo i + (r.rraDef i).rowCnt) * (r.rowSecs i : ℤ)) :
    fetchRows r i (r.rraDef i).rowCnt
        (r.behindIndex i (b * r.rowSecs i) - r.firstIndex i (a * r.rowSecs i)).toNat
        (r.firstIndex i (a * r.rowSecs i))
        (r.firstSeek i (a * r.rowSecs i) (b * r.rowSecs i)).1
        (r.firstSeek i (a * r.rowSecs i) (b * r.rowSecs i)).2 =
      .ok ((List.range (b - a).toNat).map fun k : ℕ =>
        r.rowFor i (a * r.rowSecs i + (k + 1 : ℕ) * r.rowSecs i)) := by
  have hs : (0 : ℤ) < r.rowSecs i := by exact_mod_cast h.secs_pos i hi hcf
  obtain ⟨hcount, hring⟩ := indices_of_fits h hi hcf ha hab hb hindex
  rw [hcount, machineRows_eq h hi hcf (b := b)]
  · refine congrArg Except.ok (List.map_congr_left fun k hk => ?_)
    rw [List.mem_range] at hk
    rcases hring with hfirst | ⟨hneg, hpast⟩
    · rw [hfirst]
      exact fetchedRow_eq_rowFor h hi hcf a k
    · have htime : r.rraEndTime i < a * r.rowSecs i + (k + 1 : ℕ) * r.rowSecs i := by
        rw [Rrd.rraEndTime_eq, ← add_mul]
        exact mul_lt_mul_of_pos_right (by omega) hs
      rw [rowFor_past htime, fetchedRow, if_pos (.inl (by omega))]
  · intro k hk hlo hhi
    refine ⟨?_, by omega⟩
    rcases hring with hfirst | hpast
    · exact hfirst
    · omega

/-- There are not so many data sources that the size of one row wraps around. -/
theorem dsCnt_lt : 8 * r.dsCnt < 2 ^ 63 := by
  have hblock := fetchable_file h hi
  have hfile := h.file_lt
  rw [Rrd.rraStart_succ] at hblock
  have hrow : r.dsCnt ≤ (r.rraDef i).rowCnt * r.dsCnt :=
    Nat.le_mul_of_pos_left _ (h.rowCnt_pos hi hcf)
  omega

/-- **A window that fits is returned.** -/
theorem window_of_fits {a b : ℤ} (hch : r.Chosen cf start stop step i) (ha : 0 ≤ a) (hab : a < b)
    (hale : a * r.rowSecs i ≤ start) (hlt : stop < b * r.rowSecs i) (hb : b * r.rowSecs i < 2 ^ 63)
    (halloc : (r.dsCnt : ℤ) * (b - a + 1) * 8 < 2 ^ 64) :
    MachineFetched.Window r cf start stop step
      ⟨⟨i, a * r.rowSecs i, b * r.rowSecs i, r.rowSecs i, (List.range (b - a).toNat).map fun k : ℕ =>
          r.rowFor i (a * r.rowSecs i + (k + 1 : ℕ) * r.rowSecs i)⟩,
        r.dataSize i (a * r.rowSecs i) (b * r.rowSecs i)⟩ := by
  have hs : (0 : ℤ) < r.rowSecs i := by exact_mod_cast h.secs_pos i hi hcf
  have hlen : ((List.range (b - a).toNat).map fun k : ℕ =>
      r.rowFor i (a * r.rowSecs i + (k + 1 : ℕ) * r.rowSecs i)).length = (b - a).toNat := by
    rw [List.length_map, List.length_range]
  have hn : ((b - a).toNat : ℤ) = b - a := Int.toNat_of_nonneg (by omega)
  refine ⟨hch, rfl, hale, hlt, Dvd.intro_left a rfl, Dvd.intro_left b rfl, ?_, ?_, ?_⟩
  · dsimp only
    rw [hlen, ← sub_mul, Int.mul_ediv_cancel _ hs.ne', hn]
  · have hsize := dataSize_eq h hi hcf ha hab.le hb
    have hmono : (r.dsCnt : ℤ) * (b - a) ≤ r.dsCnt * (b - a + 1) :=
      mul_le_mul_of_nonneg_left (by omega) (by omega)
    have hnn : (0 : ℤ) ≤ r.dsCnt * (b - a) := mul_nonneg (by omega) (by omega)
    rw [Int.emod_eq_of_lt (by omega) halloc] at hsize
    dsimp only
    rw [hlen]
    zify
    rw [hsize, hn]
    omega
  · intro k hk hle
    dsimp only at hle ⊢
    rw [hlen] at hle
    rw [List.getElem?_map, List.getElem?_range (by omega), Option.map_some, Nat.sub_add_cancel hk]

/-- **A window that is returned fits.** -/
theorem fits_of_window {a b : ℤ} {data : List (ℕ → RrdValue)} (ha : 0 ≤ a) (hab : a < b)
    (hb : b * r.rowSecs i < 2 ^ 63)
    (hlen : data.length =
      (r.behindIndex i (b * r.rowSecs i) - r.firstIndex i (a * r.rowSecs i)).toNat)
    (hw : MachineFetched.Window r cf start stop step
      ⟨⟨i, a * r.rowSecs i, b * r.rowSecs i, r.rowSecs i, data⟩,
        r.dataSize i (a * r.rowSecs i) (b * r.rowSecs i)⟩) :
    (r.dsCnt : ℤ) * (b - a + 1) * 8 < 2 ^ 64 ∧
      ((a - r.rowNo i + (r.rraDef i).rowCnt) * (r.rowSecs i : ℤ) < 2 ^ 63 ∧
          (r.rraDef i).rowCnt + (b - r.rowNo i) < 2 ^ 63 ∨
        r.rowSecs i = 1 ∧ 2 ^ 63 ≤ (a - r.rowNo i + (r.rraDef i).rowCnt) * (r.rowSecs i : ℤ)) := by
  have hs : (0 : ℤ) < r.rowSecs i := by exact_mod_cast h.secs_pos i hi hcf
  have hcount : (data.length : ℤ) = b - a := by
    have hl := hw.length
    dsimp only at hl
    rwa [← sub_mul, Int.mul_ediv_cancel _ hs.ne'] at hl
  refine ⟨?_, fits_of_indices h hi hcf ha hab hb (by omega)⟩
  -- a size that wraps around is less than that of the rows
  by_contra hge
  have hds := dsCnt_lt h hi hcf
  have halloc := hw.allocated
  dsimp only at halloc
  zify at halloc
  rw [hcount, dataSize_eq h hi hcf ha hab.le hb] at halloc
  have hsplit : (r.dsCnt : ℤ) * (b - a + 1) * 8 = r.dsCnt * (b - a) * 8 + 8 * r.dsCnt := by ring
  have hwrap := Int.emod_add_mul_ediv (r.dsCnt * (b - a + 1) * 8) (2 ^ 64)
  have hquot : 1 ≤ (r.dsCnt : ℤ) * (b - a + 1) * 8 / 2 ^ 64 :=
    Int.le_ediv_of_mul_le (by norm_num) (by omega)
  omega

end Numbers

/-! ## The window -/

theorem rrdFetchMachine_eq (h : Fetchable r cf start stop step) (malloc : ℕ → Bool) :
    rrdFetchMachine malloc r cf start stop step =
      match chooseRra r cf start stop step with
      | none => .error .noMatch
      | some i => machineFetchFrom malloc r i start stop := by
  have hdiv : ¬((List.range r.rraCnt).any fun i => (r.rraDef i).cf = cf && r.rowSecsU i = 0) = true := by
    rw [List.any_eq_true]
    rintro ⟨i, hi, hzero⟩
    obtain ⟨hcf, hzero⟩ := Bool.and_eq_true_iff.mp hzero
    have hcf : (r.rraDef i).cf = cf := of_decide_eq_true hcf
    have hzero : r.rowSecsU i = 0 := of_decide_eq_true hzero
    rw [h.rowSecsU_eq (List.mem_range.mp hi) hcf] at hzero
    exact absurd hzero (h.secs_pos i (List.mem_range.mp hi) hcf).ne'
  unfold rrdFetchMachine
  rw [if_neg hdiv, h.machineChoose_eq]

/-- **The answer to a window that fits.** -/
theorem rrdFetchMachine_of_fits (h : Fetchable r cf start stop step) (hj : chooseRra r cf start stop step = some i)
    (hfits : r.WindowFits i start stop) (malloc : ℕ → Bool) :
    rrdFetchMachine malloc r cf start stop step =
      if malloc (r.dataSize i (start / r.rowSecs i * r.rowSecs i) ((stop / r.rowSecs i + 1) * r.rowSecs i)) then
        .ok ⟨⟨i, start / r.rowSecs i * r.rowSecs i, (stop / r.rowSecs i + 1) * r.rowSecs i, r.rowSecs i,
            (List.range (stop / r.rowSecs i + 1 - start / r.rowSecs i).toNat).map fun k : ℕ =>
              r.rowFor i (start / r.rowSecs i * r.rowSecs i + (k + 1 : ℕ) * r.rowSecs i)⟩,
          r.dataSize i (start / r.rowSecs i * r.rowSecs i) ((stop / r.rowSecs i + 1) * r.rowSecs i)⟩
      else .error .malloc := by
  have hch := chooseRra_chosen hj
  have hi := hch.lt
  have hcf := hch.cf_eq
  obtain ⟨ha, hab, -, hstart, hstop⟩ := window_rows h hi hcf
  obtain ⟨hb, -, hindex⟩ := (windowFits_iff h hi hcf _ _ (r.windowStart_eq i start) hstop).mp hfits
  obtain ⟨data, hdata, -, hrun⟩ := machineFetchFrom_ok h hi hcf malloc start stop
  rw [hstart, stopTime_eq h hi hcf hstop hb] at hdata hrun
  rw [data_of_fits h hi hcf ha hab hb hindex] at hdata
  obtain rfl := Except.ok.inj hdata
  rw [rrdFetchMachine_eq h, hj]
  exact hrun

theorem fetchable_single (random : ℕ → ℕ) : Fetchable (rrdCreateFn .single random) .average 600 899 300 where
  start_nonneg := by decide
  le := by decide
  stop_lt := by decide
  step_lt := by decide
  lastUp_lt := (by decide : 900 < 2 ^ 63)
  curRow_lt i hi _ := by
    obtain rfl : i = 0 := Nat.lt_one_iff.mp hi
    exact Nat.mod_lt (random 0) (by decide : 0 < 3)
  rowCnt_lt i hi _ := by
    obtain rfl : i = 0 := Nat.lt_one_iff.mp hi
    exact (by decide : 3 < 2 ^ 31)
  secs_pos i hi _ := by
    obtain rfl : i = 0 := Nat.lt_one_iff.mp hi
    exact (by decide : 0 < 1 * 300)
  span_lt i hi _ := by
    obtain rfl : i = 0 := Nat.lt_one_iff.mp hi
    exact (by decide : 1 * 300 * 3 < 2 ^ 63)
  file := (by decide : 3 ≤ 3)
  file_lt := (by decide : 8 * 3 < 2 ^ 63)

theorem average_plain : Cf.average.isPlain = true := rfl

theorem two_rows : 0 < 2 ∧ 2 < 2 ^ 31 := by decide

theorem slow_step : 0 < 2 ^ 61 := Nat.two_pow_pos 61

/-- One data source and two rows of `2 ^ 61` seconds. -/
def CreateArgs.slow : CreateArgs :=
  (CreateArgs.gauge .average 1 2 900 average_plain Nat.one_pos two_rows).withStep (2 ^ 61) slow_step

end Rrdtool
