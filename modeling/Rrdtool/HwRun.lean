import Rrdtool.HwOrder
import Rrdtool.Split
import Mathlib.Algebra.BigOperators.Group.Finset.Basic
import Mathlib.Tactic.IntervalCases

/-!
# Runs on Holt-Winters arrays in two orders

The same update calls on two RRDs that differ in the order of their Holt-Winters arrays. What comes
before the arrays (parsing, the PDPs) is the same in both, so every call stays abreast: `Abreast` is
kept by each function of `process_arg`, and a single step keeps it by `singleStep_renumbered`.

* `hw_order_independent` — every run of single steps in which neither a `FAILURES` RRA nor the start
  of a prediction makes a difference;
* `failures_between` — rows that differ, with a `FAILURES` RRA between its two seasonal arrays.
-/

namespace Rrdtool

open Loop

/-- **The same file in another order**: the DS part is the same, the arrays are in the order `σ`. -/
structure Abreast (σ : Equiv.Perm ℕ) (r r' : Rrd) : Prop where
  version : r'.version = r.version
  pdpStep : r'.pdpStep = r.pdpStep
  dsDef : r'.dsDef = r.dsDef
  lastUp : r'.lastUp = r.lastUp
  lastUpUsec : r'.lastUpUsec = r.lastUpUsec
  pdpPrep : r'.pdpPrep = r.pdpPrep
  renumbered : Renumbered σ r r'
  hw : HwRrd r
  hw' : HwRrd r'
  safe : FailuresSafe r.rraCnt σ r.rraDef

/-- Two update calls on such files, with the same working storage in front of the arrays. -/
structure InStep (σ : Equiv.Perm ℕ) (s s' : Upd) : Prop where
  rrd : Abreast σ s.rrd s'.rrd
  updvals : s'.updvals = s.updvals
  currentTime : s'.currentTime = s.currentTime
  currentTimeUsec : s'.currentTimeUsec = s.currentTimeUsec
  pdpNew : s'.pdpNew = s.pdpNew
  pdpTemp : s'.pdpTemp = s.pdpTemp
  error : s.error = none
  error' : s'.error = none

/-! ## In front of the arrays -/

section Inputs

variable {σ : Equiv.Perm ℕ} {env : Env} {r r' : Rrd} {s s' : Upd}

theorem Abreast.dsCnt (h : Abreast σ r r') : r'.dsCnt = r.dsCnt := h.renumbered.dsCnt

theorem Abreast.setPdps (h : Abreast σ r r') (p : ℕ → PdpPrep) :
    Abreast σ { r with pdpPrep := p } { r' with pdpPrep := p } where
  version := h.version
  pdpStep := h.pdpStep
  dsDef := h.dsDef
  lastUp := h.lastUp
  lastUpUsec := h.lastUpUsec
  pdpPrep := rfl
  renumbered := ⟨h.renumbered.dsCnt, h.renumbered.rraCnt, h.renumbered.renames, h.renumbered.cdp,
    h.renumbered.rows⟩
  hw := ⟨h.hw.hset, ⟨h.hw.openable.1, h.hw.openable.2⟩, ⟨h.hw.ring.1, h.hw.ring.2⟩⟩
  hw' := ⟨h.hw'.hset, ⟨h.hw'.openable.1, h.hw'.openable.2⟩, ⟨h.hw'.ring.1, h.hw'.ring.2⟩⟩
  safe := h.safe

theorem Abreast.setLastUp (h : Abreast σ r r') (t usec : ℕ) :
    Abreast σ { r with lastUp := t, lastUpUsec := usec } { r' with lastUp := t, lastUpUsec := usec } where
  version := h.version
  pdpStep := h.pdpStep
  dsDef := h.dsDef
  lastUp := rfl
  lastUpUsec := rfl
  pdpPrep := h.pdpPrep
  renumbered := ⟨h.renumbered.dsCnt, h.renumbered.rraCnt, h.renumbered.renames, h.renumbered.cdp,
    h.renumbered.rows⟩
  hw := ⟨h.hw.hset, ⟨h.hw.openable.1, h.hw.openable.2⟩, ⟨h.hw.ring.1, h.hw.ring.2⟩⟩
  hw' := ⟨h.hw'.hset, ⟨h.hw'.openable.1, h.hw'.openable.2⟩, ⟨h.hw'.ring.1, h.hw'.ring.2⟩⟩
  safe := h.safe

theorem InStep.getTimeFromReading (h : InStep σ s s') (at_ : Bool) :
    Outcome.Rel (InStep σ) (InStep σ) (getTimeFromReading env at_ s) (getTimeFromReading env at_ s') := by
  simp only [Rrdtool.getTimeFromReading, h.updvals, h.rrd.version, h.rrd.lastUp, h.rrd.lastUpUsec]
  cases readTime env at_ (s.updvals 0) with
  | error e => exact ⟨rfl, h⟩
  | ok p =>
    dsimp only
    split_ifs
    · exact ⟨rfl, { h with updvals := rfl, currentTime := rfl, currentTimeUsec := rfl }⟩
    · exact { h with updvals := rfl, currentTime := rfl, currentTimeUsec := rfl }
    · exact ⟨rfl, { h with updvals := rfl, currentTime := rfl, currentTimeUsec := rfl }⟩
    · exact { h with updvals := rfl, currentTime := rfl, currentTimeUsec := rfl }

/-- The end of `parse_ds`. -/
theorem InStep.assignReadings (h : InStep σ s s') {at_ : Bool} (idxs : List ℕ) (fields : List Text)
    {time : Text} {n : ℕ} (f : ℕ → Text) :
    Outcome.Rel (InStep σ) (InStep σ)
      (match assignFields idxs fields.tail f with
        | .error e => .fail e { s with updvals := f }
        | .ok updvals =>
          if fields.length + 1 ≠ n then
            .fail (.readings (n - 1) fields.length time) { s with updvals := updvals }
          else Rrdtool.getTimeFromReading env at_ { s with updvals := updvals })
      (match assignFields idxs fields.tail f with
        | .error e => .fail e { s' with updvals := f }
        | .ok updvals =>
          if fields.length + 1 ≠ n then
            .fail (.readings (n - 1) fields.length time) { s' with updvals := updvals }
          else Rrdtool.getTimeFromReading env at_ { s' with updvals := updvals }) := by
  cases assignFields idxs fields.tail f with
  | error e => exact ⟨rfl, { h with updvals := rfl }⟩
  | ok vals =>
    have hvals : InStep σ { s with updvals := vals } { s' with updvals := vals } :=
      { h with updvals := rfl }
    dsimp only
    split_ifs
    · exact ⟨rfl, hvals⟩
    · exact hvals.getTimeFromReading at_

/-- **`parse_ds`** does not look at the RRAs. -/
theorem InStep.parseDs (h : InStep σ s s') (arg : Text) :
    Outcome.Rel (InStep σ) (InStep σ) (parseDs env arg s) (parseDs env arg s') := by
  have hidx : tmplIdx s'.rrd = tmplIdx s.rrd := by rw [tmplIdx, tmplIdx, h.rrd.dsCnt, h.rrd.dsDef]
  simp only [Rrdtool.parseDs, h.updvals, h.rrd.dsCnt, hidx]
  cases cutTime arg with
  | none => exact ⟨rfl, { h with updvals := rfl }⟩
  | some p =>
    dsimp only
    cases (tmplIdx s.rrd).tail.head? with
    | none => exact h.assignReadings _ _ _
    | some idx => exact h.assignReadings _ _ _

theorem InStep.updatePdpPrepDs (h : InStep σ s s') (interval : ℚ) (i : ℕ) :
    Outcome.Rel (InStep σ) (InStep σ) (updatePdpPrepDs interval i s) (updatePdpPrepDs interval i s') := by
  have hds : s'.rrd.dsDef i = s.rrd.dsDef i := by rw [h.rrd.dsDef]
  have hval : s'.updvals (i + 1) = s.updvals (i + 1) := by rw [h.updvals]
  by_cases hbeat : ((s.rrd.dsDef i).mrhbCnt : ℚ) < interval
  · simp only [Rrdtool.updatePdpPrepDs, hds, hval, h.rrd.pdpPrep, h.pdpNew, if_pos hbeat]
    split_ifs
    · cases readValue (s.rrd.dsDef i).dst (s.updvals (i + 1)) _ interval with
      | error e => exact ⟨rfl, { h with rrd := h.rrd.setPdps _, pdpNew := rfl }⟩
      | ok p => exact { h with rrd := h.rrd.setPdps _, pdpNew := rfl }
    · exact { h with rrd := h.rrd.setPdps _, pdpNew := rfl }
  · simp only [Rrdtool.updatePdpPrepDs, hds, hval, h.rrd.pdpPrep, h.pdpNew, if_neg hbeat]
    split_ifs
    · cases readValue (s.rrd.dsDef i).dst (s.updvals (i + 1)) _ interval with
      | error e => exact ⟨rfl, h⟩
      | ok p => exact { h with rrd := h.rrd.setPdps _, pdpNew := rfl }
    · exact { h with rrd := h.rrd.setPdps _, pdpNew := rfl }

/-- **`update_pdp_prep`** does not look at the RRAs. -/
theorem InStep.updatePdpPrep (h : InStep σ s s') (interval : ℚ) :
    Outcome.Rel (InStep σ) (InStep σ) (updatePdpPrep interval s) (updatePdpPrep interval s') := by
  simp only [Rrdtool.updatePdpPrep, h.rrd.dsCnt]
  exact forLoopE_rel (fun _ => InStep σ) h fun i _ _ _ huv => huv.updatePdpPrepDs interval i

/-- **`simple_update`** does not look at the RRAs. -/
theorem InStep.simpleUpdate (h : InStep σ s s') (interval : ℚ) :
    InStep σ (simpleUpdate interval s) (simpleUpdate interval s') := by
  simp only [Rrdtool.simpleUpdate, h.rrd.dsCnt]
  refine forLoop_rel (fun _ => InStep σ) h fun i u v _ huv => ?_
  simp only [huv.rrd.pdpPrep, huv.pdpNew]
  exact { huv with rrd := huv.rrd.setPdps _, pdpNew := rfl }

theorem InStep.processPdpSt (h : InStep σ s s') (interval preInt postInt : ℚ) (diff i : ℕ) :
    Outcome.Rel (InStep σ) (InStep σ) (processPdpSt env.lib interval preInt postInt diff i s)
      (processPdpSt env.lib interval preInt postInt diff i s') := by
  have hds : s'.rrd.dsDef i = s.rrd.dsDef i := by rw [h.rrd.dsDef]
  have hnew : s'.pdpNew i = s.pdpNew i := by rw [h.pdpNew]
  have hstep : (s'.rrd.pdpStep : ℚ) = s.rrd.pdpStep := by rw [h.rrd.pdpStep]
  by_cases hdst : (s.rrd.dsDef i).dst = .cdef
  · simp only [Rrdtool.processPdpSt, hds, h.rrd.pdpPrep, hstep, hnew, h.pdpTemp, if_pos hdst]
    cases computeDs env.lib (s.rrd.dsDef i).cdef _ i with
    | error e => exact ⟨rfl, { h with rrd := h.rrd.setPdps _, pdpTemp := rfl }⟩
    | ok w => exact { h with rrd := h.rrd.setPdps _, pdpTemp := rfl }
  · simp only [Rrdtool.processPdpSt, hds, h.rrd.pdpPrep, hstep, hnew, h.pdpTemp, if_neg hdst]
    exact { h with rrd := h.rrd.setPdps _, pdpTemp := rfl }

/-- **`process_all_pdp_st`** does not look at the RRAs. -/
theorem InStep.processAllPdpSt (h : InStep σ s s') (interval : ℚ) (el : Elapsed) :
    Outcome.Rel (InStep σ) (InStep σ) (processAllPdpSt env.lib interval el s)
      (processAllPdpSt env.lib interval el s') := by
  simp only [Rrdtool.processAllPdpSt, h.rrd.dsCnt, h.rrd.pdpStep]
  exact forLoopE_rel (fun _ => InStep σ) h fun i _ _ _ huv => huv.processPdpSt _ _ _ _ i

theorem InStep.updateInterval (h : InStep σ s s') : updateInterval s' = updateInterval s := by
  simp only [Rrdtool.updateInterval, h.rrd.lastUp, h.rrd.lastUpUsec, h.currentTime, h.currentTimeUsec]

theorem InStep.elapsed (h : InStep σ s s') (interval : ℚ) :
    calculateElapsedSteps s'.rrd s'.currentTime.toNat s'.currentTimeUsec interval =
      calculateElapsedSteps s.rrd s.currentTime.toNat s.currentTimeUsec interval := by
  simp only [calculateElapsedSteps, h.rrd.lastUp, h.rrd.lastUpUsec, h.rrd.pdpStep, h.currentTime,
    h.currentTimeUsec]

end Inputs

/-! ## The arrays -/

section Run

variable {σ : Equiv.Perm ℕ} {env : Env} {s s' t : Upd} {x : ℕ → RrdValue}

/-- A single step leaves the DS part alone. -/
theorem singleStep_frame {proc : ℕ} (h : singleStep proc x s = .ok t) :
    ∃ cdpPrep curRow values rraStepCnt skipUpdate seasonalCoef lastSeasonalCoef scheduleSmooth pos error
        notified, t =
      { s with
        rrd := { s.rrd with cdpPrep := cdpPrep, curRow := curRow, values := values }, pdpTemp := x,
        rraStepCnt := rraStepCnt, skipUpdate := skipUpdate, seasonalCoef := seasonalCoef,
        lastSeasonalCoef := lastSeasonalCoef, scheduleSmooth := scheduleSmooth, pos := pos,
        error := error, notified := notified } := by
  obtain ⟨v, hv, ht⟩ := Outcome.andThen_eq_ok.mp h
  obtain ⟨u, hu, huv⟩ := Outcome.andThen_eq_ok.mp hv
  obtain ⟨_, _, _, _, _, _, _, _, rfl⟩ : PrepFrame { s with pdpTemp := x } u :=
    Outcome.of_state_ok hu (updateAllCdpPrep_state 1 proc _)
  obtain ⟨_, _, _, _, rfl⟩ := Outcome.of_state_ok huv (updateAberrantCdps_state 1 _)
  obtain ⟨_, _, _, _, _, rfl⟩ := Outcome.of_state_ok ht (writeToRras_state _)
  exact ⟨_, _, _, _, _, _, _, _, _, _, _, rfl⟩

/-- **A single step** keeps both calls abreast. -/
theorem InStep.singleStep (h : InStep σ s s') (hstep : StepSafe σ s.rrd x) (proc : ℕ) :
    Outcome.Rel (InStep σ) (InStep σ) (singleStep proc x s) (singleStep proc x s') := by
  obtain ⟨t, t', ht, ht', hren, ⟨hr, he⟩, hr', he'⟩ := singleStep_renumbered h.rrd.renumbered h.rrd.hw
    h.rrd.hw' h.error h.error' h.rrd.safe hstep proc proc
  have hframe := singleStep_frame ht
  have hframe' := singleStep_frame ht'
  rw [ht, ht']
  obtain ⟨_, _, _, _, _, _, _, _, _, _, _, rfl⟩ := hframe
  obtain ⟨_, _, _, _, _, _, _, _, _, _, _, rfl⟩ := hframe'
  exact ⟨{ h.rrd with renumbered := hren, hw := hr, hw' := hr' }, h.updvals, h.currentTime,
    h.currentTimeUsec, h.pdpNew, rfl, he, he'⟩

/-- The PDPs that `process_pdps` completes in one step at most, and whose step is safe. -/
def SafePdps (env : Env) (σ : Equiv.Perm ℕ) (interval : ℚ) (s : Upd) : Prop :=
  let el := calculateElapsedSteps s.rrd s.currentTime.toNat s.currentTimeUsec interval
  el.elapsedPdpSt ≤ 1 ∧ (el.elapsedPdpSt = 1 →
    ∀ t, processAllPdpSt env.lib interval el s = .ok t → StepSafe σ t.rrd t.pdpTemp)

/-- **`process_arg` behind `update_pdp_prep`.** -/
theorem InStep.processPdps (h : InStep σ s s') {interval : ℚ} (hsafe : SafePdps env σ interval s) :
    Outcome.Rel (InStep σ) (InStep σ) (processPdps env interval s) (processPdps env interval s') := by
  obtain ⟨hone, hsafe⟩ := hsafe
  by_cases hel : (calculateElapsedSteps s.rrd s.currentTime.toNat s.currentTimeUsec
      interval).elapsedPdpSt = 1
  · rw [processPdps_single hel, processPdps_single (by rw [h.elapsed]; exact hel)]
    dsimp only
    rw [h.elapsed]
    refine (h.processAllPdpSt interval _).andThen_of_ok fun u u' hu _ huu => ?_
    rw [huu.pdpTemp]
    exact huu.singleStep (hsafe hel u hu) _
  · have hzero : (calculateElapsedSteps s.rrd s.currentTime.toNat s.currentTimeUsec
        interval).elapsedPdpSt = 0 := by omega
    simp only [Rrdtool.processPdps, h.elapsed, hzero, if_true]
    exact h.simpleUpdate interval

/-- What `SafePdps` says of an argument. -/
def SafeArg (env : Env) (σ : Equiv.Perm ℕ) (arg : Text) (s : Upd) : Prop :=
  ∀ u w, parseDs env arg s = .ok u → updatePdpPrep (updateInterval u) u = .ok w →
    SafePdps env σ (updateInterval u) w

/-- **One argument** keeps both calls abreast. -/
theorem InStep.processArg (h : InStep σ s s') {arg : Text} (hsafe : SafeArg env σ arg s) :
    Outcome.Rel (InStep σ) (InStep σ) (processArg env arg s) (processArg env arg s') := by
  refine (h.parseDs arg).andThen_of_ok fun u u' hu _ huu => ?_
  dsimp only
  rw [huu.updateInterval]
  have hpdps : Outcome.Rel (InStep σ) (InStep σ)
      ((Rrdtool.updatePdpPrep (Rrdtool.updateInterval u) u).andThen
        (Rrdtool.processPdps env (Rrdtool.updateInterval u)))
      ((Rrdtool.updatePdpPrep (Rrdtool.updateInterval u) u').andThen
        (Rrdtool.processPdps env (Rrdtool.updateInterval u))) :=
    (huu.updatePdpPrep _).andThen_of_ok fun w w' hw _ hww => hww.processPdps (hsafe u w hu hw)
  refine hpdps.andThen fun t t' htt => ?_
  simp only [setLastUp, htt.currentTime, htt.currentTimeUsec]
  exact { htt with rrd := htt.rrd.setLastUp _ _, currentTime := rfl, currentTimeUsec := rfl }

/-- What `SafeArg` says of a list of arguments, each in the state in which it is met. -/
def SafeArgs (env : Env) (σ : Equiv.Perm ℕ) : List Text → Upd → Prop
  | [], _ => True
  | arg :: args, s => SafeArg env σ arg s ∧ ∀ t, processArg env arg s = .ok t → SafeArgs env σ args t

/-- **The argument loop** keeps both calls abreast. -/
theorem InStep.processArgs {args : List Text} (h : InStep σ s s') (hsafe : SafeArgs env σ args s) :
    Outcome.Rel (InStep σ) (InStep σ) (processArgs env args s) (processArgs env args s') := by
  induction args generalizing s s' with
  | nil => exact h
  | cons arg args ih =>
    obtain ⟨harg, hargs⟩ := hsafe
    exact (h.processArg harg).andThen_of_ok fun t t' ht _ htt => ih htt (hargs t ht)

/-- A call of `_rrd_update`: its surroundings, what its arrays hold, its arguments. -/
structure UpdateCall : Type where
  env : Env
  junk : Upd
  args : List Text

/-- Update calls, one after the other, without the smoothing at the end of each. A call that fails
leaves what it has stored. -/
def updateCalls : List UpdateCall → Rrd → Rrd
  | [], r => r
  | c :: cs, r => updateCalls cs (processArgs c.env c.args (c.junk.start r)).state.rrd

/-- What `SafeArgs` says of a list of calls. -/
def SafeCalls (σ : Equiv.Perm ℕ) : List UpdateCall → Rrd → Prop
  | [], _ => True
  | c :: cs, r => SafeArgs c.env σ c.args (c.junk.start r) ∧
      SafeCalls σ cs (processArgs c.env c.args (c.junk.start r)).state.rrd

theorem rel_state {R : Upd → Upd → Prop} {o o' : UpdResult} (h : Outcome.Rel R R o o') :
    R o.state o'.state := by
  cases o with
  | ok s =>
    cases o' with
    | ok t => exact h
    | fail e' t => exact h.elim
  | fail e s =>
    cases o' with
    | ok t => exact h.elim
    | fail e' t => exact h.2

/-- **Every run** keeps both files abreast. -/
theorem Abreast.updateCalls {calls : List UpdateCall} {r r' : Rrd} (h : Abreast σ r r')
    (hsafe : SafeCalls σ calls r) : Abreast σ (updateCalls calls r) (updateCalls calls r') := by
  induction calls generalizing r r' with
  | nil => exact h
  | cons c cs ih =>
    obtain ⟨hargs, hcalls⟩ := hsafe
    have hstart : InStep σ (c.junk.start r) (c.junk.start r') := ⟨h, rfl, rfl, rfl, rfl, rfl, rfl, rfl⟩
    exact ih (rel_state (hstart.processArgs hargs)).rrd hcalls

/-- Calls keep the definitions. -/
theorem updateCalls_sameDefs (calls : List UpdateCall) (r : Rrd) : SameDefs r (updateCalls calls r) := by
  have hargs : ∀ (env : Env) (args : List Text) (s : Upd), HasDefs r s →
      HasDefs r (processArgs env args s).state := by
    intro env args
    induction args with
    | nil => exact fun s h => h
    | cons arg args ih =>
      intro s h
      have hparse : HasDefs r (parseDs env arg s).state :=
        SameDefs.trans h (parseDs_state arg s).sameDefs
      have harg : HasDefs r (processArg env arg s).state :=
        Outcome.andThen_state hparse fun t ht => processReadings_hasDefs env ht
      exact Outcome.andThen_state harg fun t ht => ih t ht
  have hrun : ∀ r', SameDefs r r' → SameDefs r (updateCalls calls r') := by
    induction calls with
    | nil => exact fun r' h => h
    | cons c cs ih => exact fun r' h => ih _ (hargs c.env c.args (c.junk.start r') h)
  exact hrun r (SameDefs.refl r)

end Run

/-! ## New files -/

/-- The same definitions with the RRAs in the order `σ`. -/
structure Reordered (σ : Equiv.Perm ℕ) (a a' : CreateArgs) : Prop where
  version : a'.version = a.version
  pdpStep : a'.pdpStep = a.pdpStep
  lastUp : a'.lastUp = a.lastUp
  dsCnt : a'.dsCnt = a.dsCnt
  rraCnt : a'.rraCnt = a.rraCnt
  dsDef : a'.dsDef = a.dsDef
  renames : Renames a.rraCnt σ a.rraDef a'.rraDef

section Create

variable {σ : Equiv.Perm ℕ} {a a' : CreateArgs} {random random' : ℕ → ℕ} {i : ℕ}

/-- The size of the data area as a sum. -/
theorem wantedCnt_eq_sum (r : Rrd) :
    r.wantedCnt = ∑ i ∈ Finset.range r.rraCnt, (r.rraDef i).rowCnt * r.dsCnt := by
  have hstart : ∀ n, r.rraStart n = ∑ i ∈ Finset.range n, (r.rraDef i).rowCnt * r.dsCnt := by
    intro n
    induction n with
    | zero => rfl
    | succ n ih => rw [Rrd.rraStart_succ, Finset.sum_range_succ, ih]
  exact hstart r.rraCnt

/-- The order does not change the size of the data area. -/
theorem Reordered.wantedCnt (h : Reordered σ a a') :
    (rrdCreateFn a' random').wantedCnt = (rrdCreateFn a random).wantedCnt := by
  rw [wantedCnt_eq_sum, wantedCnt_eq_sum]
  refine (Finset.sum_equiv σ (fun i => ?_) fun i hi => ?_).symm
  · rw [Finset.mem_range, Finset.mem_range]
    change i < a.rraCnt ↔ σ i < a'.rraCnt
    rw [h.rraCnt]
    exact (h.renames.lt_iff i).symm
  · have hi : i < a.rraCnt := Finset.mem_range.mp hi
    change (a.rraDef i).rowCnt * a.dsCnt = (a'.rraDef (σ i)).rowCnt * a'.dsCnt
    rw [h.renames.defs_eq i hi, h.dsCnt]

/-- Two arrays of the same CF start with the same coefficients, whatever the shared preparation area
went through before. -/
theorem cdpOf_same {j : ℕ} (hcf : (a'.rraDef j).cf = (a.rraDef i).cf) :
    SameCdp (a.rraDef i).cf (a.cdpOf i) (a'.cdpOf j) := by
  rw [CreateArgs.cdpOf, CreateArgs.cdpOf, forLoop_succ, forLoop_succ, CreateArgs.initCdp,
    CreateArgs.initCdp, hcf]
  cases (a.rraDef i).cf with
  | hwpredict => exact ⟨rfl, rfl, rfl⟩
  | mhwpredict => exact ⟨rfl, rfl, rfl⟩
  | seasonal => exact ⟨rfl, rfl⟩
  | devseasonal => exact ⟨rfl, rfl⟩
  | failures => rfl
  | average | minimum | maximum | last | devpredict => trivial

theorem cdp_create {d : ℕ} (hd : d < a.dsCnt) : (rrdCreateFn a random).cdp i d = a.cdpOf i := by
  change a.cdpOf ((i * a.dsCnt + d) / a.dsCnt) = a.cdpOf i
  rw [Nat.mul_comm, Nat.mul_add_div a.dsCnt_pos, Nat.div_eq_of_lt hd, Nat.add_zero]

/-- The rows of a new file are unknown, if an `int` can count them. -/
theorem rowAt_create (hsmall : (rrdCreateFn a random).wantedCnt < 2 ^ 31) (hi : i < a.rraCnt) {d : ℕ}
    (hd : d < a.dsCnt) (k : ℕ) : (rrdCreateFn a random).rowAt i k d = dnan := by
  have hrow : ((rrdCreateFn a random).curRow i + k) % (a.rraDef i).rowCnt < (a.rraDef i).rowCnt :=
    Nat.mod_lt _ (a.rowCnt_pos i hi)
  have hpos := Rrd.cellPos_mem (r := rrdCreateFn a random) (i := i) (d := d) hd hrow
  have hblock := (rrdCreateFn a random).rraStart_mono (show i + 1 ≤ a.rraCnt from hi)
  change (if (((rrdCreateFn a random).cellPos i _ d : ℕ) : ℤ) < a.unknCnt then dnan else .num 0) = dnan
  rw [a.unknCnt_of_lt random hsmall, if_pos]
  have hlt := hpos.2.trans_le hblock
  exact_mod_cast hlt

/-- **New files** are abreast. -/
theorem Reordered.abreast (h : Reordered σ a a') (hset : HwSet a.rraCnt a.rraDef)
    (hsafe : FailuresSafe a.rraCnt σ a.rraDef) (hsmall : (rrdCreateFn a random).wantedCnt < 2 ^ 31) :
    Abreast σ (rrdCreateFn a random) (rrdCreateFn a' random') := by
  have hring : ∀ (b : CreateArgs) (rnd : ℕ → ℕ), InRing (rrdCreateFn b rnd) := fun b rnd =>
    ⟨fun i hi => Nat.mod_lt _ (b.rowCnt_pos i hi),
      fun i hi => (b.rowCnt_lt i hi).trans (by norm_num)⟩
  have hset' : HwSet a'.rraCnt a'.rraDef := by
    rw [h.rraCnt]
    exact h.renames.hwSet hset
  refine ⟨h.version, h.pdpStep, h.dsDef, h.lastUp, rfl, ?_, ⟨h.dsCnt, h.rraCnt, h.renames,
    fun i d hi hd => ?_, fun i k d hi hd => ?_⟩, ⟨hset, openable_create a random, hring a random⟩,
    ⟨hset', openable_create a' random', hring a' random'⟩, hsafe⟩
  · simp only [rrdCreateFn, CreateArgs.unknSecCnt, h.lastUp, h.pdpStep]
  · rw [cdp_create hd, cdp_create (by rw [h.dsCnt]; exact hd)]
    exact cdpOf_same (h.renames.cf hi)
  · have hi' : σ i < a'.rraCnt := by
      rw [h.rraCnt]
      exact (h.renames.lt_iff i).mpr hi
    rw [rowAt_create hsmall hi hd, rowAt_create (by rw [h.wantedCnt]; exact hsmall) hi'
      (by rw [h.dsCnt]; exact hd)]

/-- **Holt-Winters results do not depend on the order of the definitions**: in every run of single
steps that are safe, the rows of corresponding arrays are the same, from the current one on. -/
theorem hw_order_independent (h : Reordered σ a a') (hset : HwSet a.rraCnt a.rraDef)
    (hfail : FailuresSafe a.rraCnt σ a.rraDef) (hsmall : (rrdCreateFn a random).wantedCnt < 2 ^ 31)
    (calls : List UpdateCall) (hsafe : SafeCalls σ calls (rrdCreateFn a random)) (i k d : ℕ)
    (hi : i < a.rraCnt) (hd : d < a.dsCnt) :
    (updateCalls calls (rrdCreateFn a' random')).rowAt (σ i) k d =
      (updateCalls calls (rrdCreateFn a random)).rowAt i k d := by
  have hdefs := updateCalls_sameDefs calls (rrdCreateFn a random)
  refine ((h.abreast hset hfail hsmall).updateCalls hsafe).renumbered.rows i k d ?_ ?_
  · rw [hdefs.rraCnt]
    exact hi
  · rw [hdefs.dsCnt]
    exact hd

end Create

/-- The definitions of `a` with the RRAs in the order `σ`, renumbered. -/
def CreateArgs.reorder (a : CreateArgs) (σ : Equiv.Perm ℕ) (hσ : ∀ i, σ i < a.rraCnt ↔ i < a.rraCnt) :
    CreateArgs :=
  have hback : ∀ {j}, j < a.rraCnt → σ.symm j < a.rraCnt := fun {j} hj =>
    (hσ _).mp (by rw [σ.apply_symm_apply]; exact hj)
  { a with
    rraDef := fun j => { a.rraDef (σ.symm j) with
      dependentRraIdx := σ (a.rraDef (σ.symm j)).dependentRraIdx }
    rowCnt_pos := fun _ hj => a.rowCnt_pos _ (hback hj)
    rowCnt_lt := fun _ hj => a.rowCnt_lt _ (hback hj)
    pdpCnt_pos := fun _ hj => a.pdpCnt_pos _ (hback hj)
    pdpCnt_one := fun _ hj => a.pdpCnt_one _ (hback hj) }

theorem CreateArgs.reorder_reordered (a : CreateArgs) (σ : Equiv.Perm ℕ)
    (hσ : ∀ i, σ i < a.rraCnt ↔ i < a.rraCnt) : Reordered σ a (a.reorder σ hσ) :=
  ⟨rfl, rfl, rfl, rfl, rfl, rfl, hσ, fun i _ => by simp only [CreateArgs.reorder, σ.symm_apply_apply]⟩

/-- `RRA:HWPREDICT`, `SEASONAL`, `DEVSEASONAL`, `DEVPREDICT` and `FAILURES`, for a season of two
steps. -/
def holtWintersRras (i : ℕ) : RraDef :=
  match i with
  | 0 => ⟨.hwpredict, 4, 1, .num 0, .num (1 / 2), .num (1 / 2), 1, 0, 0⟩
  | 1 => ⟨.seasonal, 2, 1, .num 0, .num (1 / 2), .num 0, 0, 0, 0⟩
  | 2 => ⟨.devseasonal, 2, 1, .num 0, .num (1 / 2), .num 0, 0, 0, 0⟩
  | 3 => ⟨.devpredict, 4, 1, .num 0, .num 0, .num 0, 2, 0, 0⟩
  | _ => ⟨.failures, 4, 1, .num 0, .num 2, .num 2, 2, 1, 1⟩

theorem holtWintersRras_rowCnt (i : ℕ) :
    0 < (holtWintersRras i).rowCnt ∧ (holtWintersRras i).rowCnt < 2 ^ 31 := by
  simp only [holtWintersRras]
  split <;> decide

theorem holtWintersRras_pdpCnt (i : ℕ) : (holtWintersRras i).pdpCnt = 1 := by
  simp only [holtWintersRras]
  split <;> rfl

theorem holtWintersRras_pdpCnt_pos (i : ℕ) : 0 < (holtWintersRras i).pdpCnt := by
  rw [holtWintersRras_pdpCnt]
  exact Nat.one_pos

theorem five_minutes : 0 < 300 := by decide

theorem five_rras : 0 < 5 := by decide

/-- One `GAUGE` data source with these RRAs. -/
def CreateArgs.holtWinters : CreateArgs where
  version := 3
  pdpStep := 300
  lastUp := 900
  dsCnt := 1
  rraCnt := 5
  dsDef := fun _ => ⟨['d'], .gauge, .generic 600 dnan dnan⟩
  rraDef := holtWintersRras
  pdpStep_pos := five_minutes
  dsCnt_pos := Nat.one_pos
  rraCnt_pos := five_rras
  rowCnt_pos := fun i _ => (holtWintersRras_rowCnt i).1
  rowCnt_lt := fun i _ => (holtWintersRras_rowCnt i).2
  pdpCnt_pos := fun i _ => holtWintersRras_pdpCnt_pos i
  pdpCnt_one := fun i _ _ => holtWintersRras_pdpCnt i

theorem holtWinters_hwSet : HwSet CreateArgs.holtWinters.rraCnt CreateArgs.holtWinters.rraDef where
  pdpCnt := fun i _ => holtWintersRras_pdpCnt i
  dep_lt := by decide
  linked := fun i hi => by
    change i < 5 at hi
    interval_cases i
    · exact ⟨rfl, rfl⟩
    · exact ⟨rfl, rfl⟩
    · exact rfl
    · exact rfl
    · exact rfl

/-- `SEASONAL` before `HWPREDICT`. -/
theorem swap_lt (i : ℕ) : Equiv.swap 0 1 i < CreateArgs.holtWinters.rraCnt ↔
    i < CreateArgs.holtWinters.rraCnt := by
  change Equiv.swap 0 1 i < 5 ↔ i < 5
  rw [Equiv.swap_apply_def]
  split_ifs <;> omega

theorem holtWinters_failuresSafe : FailuresSafe CreateArgs.holtWinters.rraCnt (Equiv.swap 0 1)
    CreateArgs.holtWinters.rraDef := by
  intro i hi hcf
  change i < 5 at hi
  interval_cases i
  · cases hcf
  · cases hcf
  · cases hcf
  · cases hcf
  · exact .inl ⟨by decide, by decide⟩

/-- The call `rrdtool update file 1200:1`. -/
def UpdateCall.first : UpdateCall := ⟨.bare, .blank (rrdCreateFn .holtWinters fun _ => 0), ["1200:1".toList]⟩

/-- A positive first value is safe. -/
theorem stepSafe_first {σ : Equiv.Perm ℕ} {r : Rrd} {x : ℕ → RrdValue} (hds : r.dsCnt = 1)
    (hx : x 0 = .num 1) (h : ∀ i, i < r.rraCnt →
      ((r.cdp (predictionOf r.rraDef i) 0).hwIntercept.isnan = true ∧
        (r.cdp (r.rraDef (predictionOf r.rraDef i)).dependentRraIdx 0).hwSeasonal.isnan = true) ∨
      predictionOf r.rraDef i = i) : StepSafe σ r x := by
  intro i d hi hd
  dsimp only
  intro _
  obtain rfl : d = 0 := by omega
  obtain ⟨hint, hcoef⟩ | hself := h i hi
  · exact .inl ⟨hint, hcoef, 1, hx, fun _ => one_pos⟩
  · rw [hself]
    exact .inr (by simp)

theorem holtWinters_safe : SafeCalls (Equiv.swap 0 1) [.first] (rrdCreateFn .holtWinters fun _ => 0) := by
  refine ⟨⟨fun u w hu hw => ?_, fun _ _ => trivial⟩, trivial⟩
  obtain rfl : (parseDs .bare "1200:1".toList (UpdateCall.first.junk.start
      (rrdCreateFn .holtWinters fun _ => 0))).state = u := Outcome.of_state_ok hu rfl
  obtain rfl := Outcome.of_state_ok hw (P := fun t => (updatePdpPrep _ _).state = t) rfl
  refine ⟨by decide +kernel, fun _ t ht => ?_⟩
  obtain rfl := Outcome.of_state_ok ht (P := fun t => (processAllPdpSt _ _ _ _).state = t) rfl
  exact stepSafe_first (by decide +kernel) (by decide +kernel) (by decide +kernel)

theorem holtWinters_swapped :
    (updateCalls [.first] (rrdCreateFn (CreateArgs.holtWinters.reorder (Equiv.swap 0 1) swap_lt)
        fun _ => 0)).rowAt (Equiv.swap 0 1 1) 0 0 =
      (updateCalls [.first] (rrdCreateFn .holtWinters fun _ => 0)).rowAt 1 0 0 :=
  hw_order_independent (CreateArgs.holtWinters.reorder_reordered _ swap_lt) holtWinters_hwSet
    holtWinters_failuresSafe (by decide) [.first] holtWinters_safe 1 0 0 (by decide) (by decide)

/-- `FAILURES` between `SEASONAL` and `DEVSEASONAL`. -/
def betweenOrder : Equiv.Perm ℕ := (Equiv.swap 3 4).trans (Equiv.swap 2 3)

theorem betweenOrder_lt (i : ℕ) : betweenOrder i < CreateArgs.holtWinters.rraCnt ↔
    i < CreateArgs.holtWinters.rraCnt := by
  change Equiv.swap 2 3 (Equiv.swap 3 4 i) < 5 ↔ i < 5
  rw [Equiv.swap_apply_def, Equiv.swap_apply_def]
  split_ifs <;> omega

/-- The call `rrdtool update file 1200:0 1500:1 1800:0 2100:0 2400:0`. -/
def UpdateCall.fiveSteps : UpdateCall :=
  ⟨.bare, .blank (rrdCreateFn .holtWinters fun _ => 0), ["1200:0".toList, "1500:1".toList,
    "1800:0".toList, "2100:0".toList, "2400:0".toList]⟩

/-- **A failure that is not seen** where `FAILURES` stands between `SEASONAL` and `DEVSEASONAL`. -/
theorem failures_between :
    let a := CreateArgs.holtWinters
    let a' := a.reorder betweenOrder betweenOrder_lt
    HwSet a.rraCnt a.rraDef ∧ Reordered betweenOrder a a' ∧ betweenOrder 4 = 2 ∧
      (updateCalls [.fiveSteps] (rrdCreateFn a fun _ => 0)).rowAt 4 0 0 = .num 1 ∧
      (updateCalls [.fiveSteps] (rrdCreateFn a' fun _ => 0)).rowAt 2 0 0 = .num 0 := by
  refine ⟨holtWinters_hwSet, CreateArgs.reorder_reordered _ _ _, by decide, ?_, ?_⟩
  · decide +kernel
  · decide +kernel


end Rrdtool
