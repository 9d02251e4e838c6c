import Rrdtool.Reach
import Rrdtool.Rows

/-!
# The circular position

Every RRA is a ring, and `rra_ptr[].cur_row` is the row of its newest entry. Fetching,
dumping and the seasonal lookups all compute rows from `cur_row` and `last_up`, so the two
have to move together. `Advances` is what one update does to them:

* the current row steps by the multiples of `pdp_cnt * pdp_step` that the time has passed;
* every row that is written lies in the block of its own RRA;
* nothing else in the data area changes.

`processArg_advances` proves it for one argument, `Advances.trans` chains arguments, and
`Reachable.positioned` carries the bounds through runs. A smoothing run rewrites seasonal
blocks and moves no row (`smoothAllRras_frame`).
-/

namespace Rrdtool

open Loop

variable {env : Env} {s t u : Upd}

/-! ## Rows due -/

theorem scheduleSeasonal_rraStepCnt (elapsed rraIdx : ℕ) (s : Upd) :
    (scheduleSeasonal elapsed rraIdx s).rraStepCnt = s.rraStepCnt := by
  unfold scheduleSeasonal
  dsimp only
  split_ifs <;> rfl

theorem prepareRra_rraStepCnt (elapsed proc rraIdx : ℕ) (s : Upd) :
    (prepareRra elapsed proc rraIdx s).rraStepCnt = Function.update s.rraStepCnt rraIdx
      (rraSteps (s.rrd.rraDef rraIdx).pdpCnt proc elapsed) := by
  unfold prepareRra
  dsimp only
  split_ifs
  · rw [scheduleSeasonal_rraStepCnt]
  · rfl

theorem CdpFrame.rraStepCnt (h : CdpFrame s t) : t.rraStepCnt = s.rraStepCnt := by
  obtain ⟨_, _, _, _, rfl⟩ := h
  rfl

/-- One RRA of `update_all_cdp_prep`: its own step count is set, no other. -/
theorem updateAllCdpPrepRra_ok {elapsed proc rraIdx : ℕ}
    (h : updateAllCdpPrepRra elapsed proc rraIdx s = .ok t) :
    t = updateCdpPrep elapsed (startPdpOffset (s.rrd.rraDef rraIdx).pdpCnt proc) rraIdx
      (prepareRra elapsed proc rraIdx s) := by
  obtain ⟨v, hv, ht⟩ := Outcome.andThen_eq_ok.mp h
  obtain ⟨rfl, -⟩ := testError_ok hv
  exact (Outcome.ok.inj ht).symm

/-- **`update_all_cdp_prep`** sets every step count to the rows that are due. -/
theorem updateAllCdpPrep_rraStepCnt {elapsed proc : ℕ}
    (h : updateAllCdpPrep elapsed proc s = .ok t) {i : ℕ} (hi : i < s.rrd.rraCnt) :
    t.rraStepCnt i = rraSteps (s.rrd.rraDef i).pdpCnt proc elapsed := by
  have hinv := forLoopE_invariant (fun k u => u.rrd.rraDef = s.rrd.rraDef ∧
    ∀ j, j < k → u.rraStepCnt j = rraSteps (s.rrd.rraDef j).pdpCnt proc elapsed)
    ⟨rfl, by simp⟩ ?_ h
  · exact hinv.2 i hi
  · rintro k u v - ⟨hdef, hcnt⟩ hv
    have hf : PrepFrame u v := Outcome.of_state_ok hv (updateAllCdpPrepRra_state elapsed proc k u)
    refine ⟨hf.sameDefs.rraDef.trans hdef, fun j hj => ?_⟩
    rw [updateAllCdpPrepRra_ok hv, (updateCdpPrep_frame elapsed _ k _).rraStepCnt,
      prepareRra_rraStepCnt, hdef]
    rcases Nat.lt_succ_iff_lt_or_eq.mp hj with hlt | rfl
    · rw [Function.update_of_ne (by omega), hcnt j hlt]
    · rw [Function.update_self]

/-! ## One argument -/

/-- What is assumed of an RRD: the definitions that `rrd_create_r` checks, and rows inside
their rings. -/
structure Positioned (r : Rrd) : Prop where
  pdpStep_pos : 0 < r.pdpStep
  pdpCnt_pos : ∀ i, i < r.rraCnt → 0 < (r.rraDef i).pdpCnt
  curRow_lt : ∀ i, i < r.rraCnt → r.curRow i < (r.rraDef i).rowCnt

/-- The multiples of the row length of RRA `i` up to `last_up`. -/
def Rrd.rowNo (r : Rrd) (i : ℕ) : ℕ := r.lastUp / ((r.rraDef i).pdpCnt * r.pdpStep)

theorem Rrd.rowNo_eq (r : Rrd) (i : ℕ) : r.rowNo i = r.stepNo / (r.rraDef i).pdpCnt := by
  rw [rowNo, stepNo, Nat.div_div_eq_div_mul, Nat.mul_comm]

/-- The effect of updates on positions and on the data area. -/
structure Advances (s t : Upd) : Prop where
  defs : SameDefs s.rrd t.rrd
  time : s.rrd.lastUp ≤ t.rrd.lastUp
  curRow : ∀ i, i < s.rrd.rraCnt → t.rrd.curRow i =
    (s.rrd.curRow i + (t.rrd.rowNo i - s.rrd.rowNo i)) % (s.rrd.rraDef i).rowCnt
  rows : ∃ rows, t.notified = s.notified ++ rows ∧ (∀ x ∈ rows, RowInBlock s.rrd x) ∧
    ∀ q, (∀ x ∈ rows, ¬InRow s.rrd x q) → t.rrd.values q = s.rrd.values q

theorem SameDefs.rowInBlock {r r' : Rrd} (h : SameDefs r r') {x : ℕ × ℕ} :
    RowInBlock r' x ↔ RowInBlock r x := by
  unfold RowInBlock
  rw [h.rraCnt, h.rraDef, h.rraStart, h.dsCnt]

theorem SameDefs.inRow {r r' : Rrd} (h : SameDefs r r') {x : ℕ × ℕ} {q : ℕ} :
    InRow r' x q ↔ InRow r x q := by
  unfold InRow
  rw [h.dsCnt]

namespace Advances

theorem refl (h : Positioned s.rrd) : Advances s s where
  defs := SameDefs.refl _
  time := le_rfl
  curRow i hi := by rw [Nat.sub_self, Nat.add_zero, Nat.mod_eq_of_lt (h.curRow_lt i hi)]
  rows := ⟨[], by simp, by simp, fun _ _ => rfl⟩

/-- The time moves forward, so the step counts of consecutive updates add up. -/
theorem rowNo_mono (h : Advances s t) (i : ℕ) : s.rrd.rowNo i ≤ t.rrd.rowNo i := by
  unfold Rrd.rowNo
  rw [h.defs.rraDef, h.defs.pdpStep]
  exact Nat.div_le_div_right h.time

theorem trans (h : Advances s t) (h' : Advances t u) : Advances s u where
  defs := h.defs.trans h'.defs
  time := h.time.trans h'.time
  curRow i hi := by
    have hle := h.rowNo_mono i
    have hle' := h'.rowNo_mono i
    rw [h'.curRow i (by rw [h.defs.rraCnt]; exact hi), h.curRow i hi, h.defs.rraDef,
      Nat.mod_add_mod]
    congr 1
    omega
  rows := by
    obtain ⟨rows, hn, hb, hv⟩ := h.rows
    obtain ⟨rows', hn', hb', hv'⟩ := h'.rows
    refine ⟨rows ++ rows', by rw [hn', hn, List.append_assoc], fun x hx => ?_, fun q hq => ?_⟩
    · rcases List.mem_append.mp hx with hx | hx
      · exact hb x hx
      · exact h.defs.rowInBlock.mp (hb' x hx)
    · rw [hv' q fun x hx => h.defs.inRow.not.mpr (hq x (List.mem_append_right _ hx))]
      exact hv q fun x hx => hq x (List.mem_append_left _ hx)

/-- Positions stay inside their rings. -/
theorem positioned (h : Advances s t) (hp : Positioned s.rrd) : Positioned t.rrd where
  pdpStep_pos := by rw [h.defs.pdpStep]; exact hp.pdpStep_pos
  pdpCnt_pos i hi := by
    rw [h.defs.rraDef]
    exact hp.pdpCnt_pos i (by rw [← h.defs.rraCnt]; exact hi)
  curRow_lt i hi := by
    rw [h.defs.rraCnt] at hi
    rw [h.curRow i hi, h.defs.rraDef]
    exact Nat.mod_lt _ (by have := hp.curRow_lt i hi; omega)

end Advances

/-! ## Stages that write no row -/

/-- The stages before `write_to_rras`: no row, no position and no time changes. -/
structure Quiet (s t : Upd) : Prop where
  defs : SameDefs s.rrd t.rrd
  curRow : t.rrd.curRow = s.rrd.curRow
  values : t.rrd.values = s.rrd.values
  lastUp : t.rrd.lastUp = s.rrd.lastUp
  notified : t.notified = s.notified
  currentTime : t.currentTime = s.currentTime
  currentTimeUsec : t.currentTimeUsec = s.currentTimeUsec

theorem Quiet.trans (h : Quiet s t) (h' : Quiet t u) : Quiet s u :=
  ⟨h.defs.trans h'.defs, h'.curRow.trans h.curRow, h'.values.trans h.values,
    h'.lastUp.trans h.lastUp, h'.notified.trans h.notified, h'.currentTime.trans h.currentTime,
    h'.currentTimeUsec.trans h.currentTimeUsec⟩

theorem Quiet.positioned (h : Quiet s t) (hp : Positioned s.rrd) : Positioned t.rrd := by
  refine ⟨by rw [h.defs.pdpStep]; exact hp.pdpStep_pos, fun i hi => ?_, fun i hi => ?_⟩
  · rw [h.defs.rraCnt] at hi
    rw [h.defs.rraDef]
    exact hp.pdpCnt_pos i hi
  · rw [h.defs.rraCnt] at hi
    rw [h.defs.rraDef, h.curRow]
    exact hp.curRow_lt i hi

theorem PdpFrame.quiet (h : PdpFrame s t) : Quiet s t := by
  have hd := h.sameDefs
  obtain ⟨_, _, _, rfl⟩ := h
  exact ⟨hd, rfl, rfl, rfl, rfl, rfl, rfl⟩

theorem PrepFrame.quiet (h : PrepFrame s t) : Quiet s t := by
  have hd := h.sameDefs
  obtain ⟨_, _, _, _, _, _, _, _, rfl⟩ := h
  exact ⟨hd, rfl, rfl, rfl, rfl, rfl, rfl⟩

theorem Advances.of_quiet (hq : Quiet s t) (h : Advances t u) : Advances s u where
  defs := hq.defs.trans h.defs
  time := hq.lastUp ▸ h.time
  curRow i hi := by
    have hno : t.rrd.rowNo i = s.rrd.rowNo i := by
      unfold Rrd.rowNo
      rw [hq.lastUp, hq.defs.rraDef, hq.defs.pdpStep]
    rw [h.curRow i (by rw [hq.defs.rraCnt]; exact hi), hq.curRow, hno, hq.defs.rraDef]
  rows := by
    obtain ⟨rows, hn, hb, hv⟩ := h.rows
    refine ⟨rows, hq.notified ▸ hn, fun x hx => hq.defs.rowInBlock.mp (hb x hx), fun q hqr => ?_⟩
    rw [← hq.values]
    exact hv q fun x hx => hq.defs.inRow.not.mpr (hqr x hx)

/-- What an argument has done before `last_up` is set, when no step has passed or when
`write_to_rras` is still to come. -/
theorem writeToRras_advances {w : Upd} (hp : Positioned s.rrd) (hq : Quiet s u)
    (ht : s.rrd.lastUp ≤ s.currentTime.toNat)
    (hcnt : ∀ i, i < s.rrd.rraCnt → u.rraStepCnt i =
      (setLastUp s).rrd.rowNo i - s.rrd.rowNo i) (h : writeToRras u = .ok w) :
    Advances s (setLastUp w) := by
  have hc : ∀ i, i < u.rrd.rraCnt → 0 < (u.rrd.rraDef i).rowCnt := by
    intro i hi
    rw [hq.defs.rraCnt] at hi
    rw [hq.defs.rraDef]
    have := hp.curRow_lt i hi
    omega
  obtain ⟨⟨hf, rows, hn, hb, hv⟩, hrow⟩ := writeToRras_ok hc h
  have hdefs : SameDefs s.rrd w.rrd := hq.defs.trans hf.sameDefs
  have htime : w.currentTime = s.currentTime := by
    obtain ⟨_, _, _, _, _, rfl⟩ := hf
    exact hq.currentTime
  refine ⟨⟨hdefs.1, hdefs.2, hdefs.3, hdefs.4, hdefs.5, hdefs.6, hdefs.7⟩, ?_, ?_, ?_⟩
  · change s.rrd.lastUp ≤ w.currentTime.toNat
    rw [htime]
    exact ht
  · intro i hi
    have hno : (setLastUp w).rrd.rowNo i = (setLastUp s).rrd.rowNo i := by
      change w.currentTime.toNat / ((w.rrd.rraDef i).pdpCnt * w.rrd.pdpStep) = _
      rw [htime, hdefs.rraDef, hdefs.pdpStep]
      rfl
    change w.rrd.curRow i = _
    rw [hrow i (by rw [hq.defs.rraCnt]; exact hi), hq.defs.rraDef, hq.curRow, hcnt i hi, hno]
    exact stepRow_eq_mod (hp.curRow_lt i hi)
  · refine ⟨rows, by rw [← hq.notified]; exact hn, fun x hx => hq.defs.rowInBlock.mp (hb x hx), ?_⟩
    intro q hqr
    rw [← hq.values]
    exact hv q fun x hx => hq.defs.inRow.not.mpr (hqr x hx)

/-- The same when no step has passed: nothing is written. -/
theorem quiet_advances {w : Upd} (hp : Positioned s.rrd) (hq : Quiet s w)
    (ht : s.rrd.lastUp ≤ s.currentTime.toNat)
    (hno : ∀ i, (setLastUp s).rrd.rowNo i - s.rrd.rowNo i = 0) : Advances s (setLastUp w) := by
  have hd := hq.defs
  refine ⟨⟨hd.1, hd.2, hd.3, hd.4, hd.5, hd.6, hd.7⟩, ?_, ?_, ?_⟩
  · change s.rrd.lastUp ≤ w.currentTime.toNat
    rw [hq.currentTime]
    exact ht
  · intro i hi
    have hw : (setLastUp w).rrd.rowNo i = (setLastUp s).rrd.rowNo i := by
      change w.currentTime.toNat / ((w.rrd.rraDef i).pdpCnt * w.rrd.pdpStep) = _
      rw [hq.currentTime, hd.rraDef, hd.pdpStep]
      rfl
    change w.rrd.curRow i = _
    rw [hq.curRow, hw, hno i, Nat.add_zero, Nat.mod_eq_of_lt (hp.curRow_lt i hi)]
  · exact ⟨[], by rw [List.append_nil]; exact hq.notified, by simp, fun q _ =>
      congrFun hq.values q⟩

/-- The stages of `process_arg` after `update_pdp_prep`. -/
theorem processPdps_advances {w : Upd} {interval : ℚ} (hp : Positioned s.rrd)
    (ht : s.rrd.lastUp ≤ s.currentTime.toNat) (h : processPdps env interval s = .ok w)
    (hfit : (setLastUp s).rrd.stepNo - s.rrd.stepNo < 2 ^ 31) : Advances s (setLastUp w) := by
  obtain ⟨hel, hproc⟩ := calculateElapsedSteps_eq s.rrd s.currentTime.toNat s.currentTimeUsec
    interval hp.pdpStep_pos hfit
  have hle : s.rrd.stepNo ≤ (setLastUp s).rrd.stepNo := Nat.div_le_div_right ht
  rcases processPdps_eq_ok h with ⟨hz, rfl⟩ | ⟨-, a, b, c, ha, hb, hc, hw⟩
  · refine quiet_advances hp (simpleUpdate_frame interval s).quiet ht fun i => ?_
    have hno : (setLastUp s).rrd.stepNo = s.rrd.stepNo := by
      have : (setLastUp s).rrd.stepNo - s.rrd.stepNo = 0 := hel ▸ hz
      omega
    rw [Rrd.rowNo_eq, Rrd.rowNo_eq, hno]
    exact Nat.sub_self _
  · have hqa : Quiet s a := (Outcome.of_state_ok ha (processAllPdpSt_state _ _ _ s)).quiet
    have hqb : Quiet a b := (Outcome.of_state_ok hb (updateAllCdpPrep_state _ _ a)).quiet
    have hfc : CdpFrame b c := Outcome.of_state_ok hc (updateAberrantCdps_state _ b)
    refine writeToRras_advances hp ((hqa.trans hqb).trans hfc.prep.quiet) ht (fun i hi => ?_) hw
    rw [hfc.rraStepCnt, updateAllCdpPrep_rraStepCnt hb (by rw [hqa.defs.rraCnt]; exact hi),
      hqa.defs.rraDef, hel, hproc, rraSteps_eq (hp.pdpCnt_pos i hi), Rrd.rowNo_eq, Rrd.rowNo_eq]
    have hsum : s.rrd.stepNo + ((setLastUp s).rrd.stepNo - s.rrd.stepNo) =
        (setLastUp s).rrd.stepNo := by omega
    exact congrArg (fun n => n / (s.rrd.rraDef i).pdpCnt - s.rrd.stepNo / _) hsum

/-- The time an argument sets is the one it was parsed to. -/
theorem processPdps_time {w : Upd} {interval : ℚ} (h : processPdps env interval s = .ok w) :
    w.currentTime = s.currentTime ∧ w.rrd.pdpStep = s.rrd.pdpStep := by
  rcases processPdps_eq_ok h with ⟨-, rfl⟩ | ⟨-, a, b, c, ha, hb, hc, hw⟩
  · have hq := (simpleUpdate_frame interval s).quiet
    exact ⟨hq.currentTime, hq.defs.pdpStep⟩
  · have hqa : Quiet s a := (Outcome.of_state_ok ha (processAllPdpSt_state _ _ _ s)).quiet
    have hqb : Quiet a b := (Outcome.of_state_ok hb (updateAllCdpPrep_state _ _ a)).quiet
    have hqc : Quiet b c := (Outcome.of_state_ok hc (updateAberrantCdps_state _ b)).prep.quiet
    have hq := (hqa.trans hqb).trans hqc
    obtain ⟨_, _, _, _, _, rfl⟩ := Outcome.of_state_ok hw (writeToRras_state c)
    exact ⟨hq.currentTime, hq.defs.pdpStep⟩

/-- **One argument.** The current rows follow the time, and only rows inside their own
blocks are written. -/
theorem processArg_advances {arg : Text} (hp : Positioned s.rrd)
    (h : processArg env arg s = .ok t) (hfit : t.rrd.stepNo - s.rrd.stepNo < 2 ^ 31) :
    Advances s t := by
  obtain ⟨u, v, w, hu, hv, hw, rfl⟩ := processArg_eq_ok h
  have hpf : ParseFrame s u := Outcome.of_state_ok hu (parseDs_state arg s)
  have htime := (parseDs_ok hu).1
  have hq : Quiet u v := (Outcome.of_state_ok hv (updatePdpPrep_state _ u)).quiet
  obtain ⟨hwt, hws⟩ := processPdps_time hw
  -- parsing leaves the file alone, so `u` is `s` with a time
  obtain ⟨_, _, _, rfl⟩ := hpf
  have hpv : Positioned v.rrd := hq.positioned hp
  have hno : v.rrd.stepNo = s.rrd.stepNo := by
    unfold Rrd.stepNo
    rw [hq.lastUp, hq.defs.pdpStep]
  have hadv : Advances v (setLastUp w) := by
    refine processPdps_advances hpv ?_ hw ?_
    · rw [hq.lastUp, hq.currentTime]
      exact (Int.le_toNat (by omega)).mpr htime
    · rw [hno]
      have hvw : (setLastUp v).rrd.stepNo = (setLastUp w).rrd.stepNo := by
        change v.currentTime.toNat / v.rrd.pdpStep = w.currentTime.toNat / w.rrd.pdpStep
        rw [hwt, hws]
      rw [hvw]
      exact hfit
  have hu : Advances _ (setLastUp w) := Advances.of_quiet hq hadv
  exact ⟨hu.defs, hu.time, hu.curRow, hu.rows⟩

/-! ## Calls -/

/-- **The arguments of a call**, one after the other. -/
theorem processArgs_advances {args : List Text} (hp : Positioned s.rrd)
    (hfit : StepsFit env args s) (h : processArgs env args s = .ok t) : Advances s t := by
  refine processArgs_invariant (Advances s) ?_ (Advances.refl hp) hfit h
  intro arg u v hu hv hlt
  exact hu.trans (processArg_advances (hu.positioned hp) hv hlt)

/-! ## Smoothing -/

/-- The footprint of a smoothing run. -/
def SmoothFrame (r r' : Rrd) : Prop :=
  ∃ cdpPrep values, r' = { r with cdpPrep := cdpPrep, values := values }

theorem SmoothFrame.refl (r : Rrd) : SmoothFrame r r := ⟨r.cdpPrep, r.values, rfl⟩

theorem SmoothFrame.trans {r r' r'' : Rrd} (h : SmoothFrame r r') (h' : SmoothFrame r' r'') :
    SmoothFrame r r'' := by
  obtain ⟨_, _, rfl⟩ := h
  obtain ⟨cp, vs, rfl⟩ := h'
  exact ⟨cp, vs, rfl⟩

theorem smootherRenormalise_frame (r : Rrd) (rraIdx : ℕ) (m : Smoother)
    (init : RrdValue → RrdValue → RrdValue) :
    SmoothFrame r (smootherRenormalise r rraIdx m init).1 :=
  forLoop_invariant (fun _ => SmoothFrame r) (SmoothFrame.refl r) fun _ t _ ht =>
    ht.trans ⟨_, t.values, rfl⟩

theorem applySmoother_state (r : Rrd) (rraIdx : ℕ) :
    SmoothFrame r (applySmoother r rraIdx).state := by
  unfold applySmoother
  dsimp only
  split_ifs
  · exact SmoothFrame.refl r
  · exact SmoothFrame.refl r
  · split
    · exact (smootherRenormalise_frame r rraIdx _ _).trans ⟨_, _, rfl⟩
    · exact SmoothFrame.refl r
  · exact ⟨r.cdpPrep, _, rfl⟩

/-- A smoothing run moves no row and no time. -/
theorem smoothAllRras_frame (r : Rrd) : SmoothFrame r (smoothAllRras r) := by
  refine forLoopE_state (SmoothFrame r) (SmoothFrame.refl r) fun i t _ ht => ?_
  split
  · exact ht.trans (applySmoother_state t i)
  · exact ht

/-! ## Runs -/

theorem SmoothFrame.positioned {r r' : Rrd} (h : SmoothFrame r r') (hp : Positioned r) :
    Positioned r' := by
  obtain ⟨_, _, rfl⟩ := h
  exact ⟨hp.pdpStep_pos, hp.pdpCnt_pos, hp.curRow_lt⟩

/-- What a call leaves behind is the state after its last argument, smoothed or not. -/
theorem rrdUpdate_smoothFrame {junk : Upd} {args : List Text} {rrd rrd' : Rrd}
    (h : rrdUpdate env junk args rrd = .ok rrd') :
    ∃ s, processArgs env args (junk.start rrd) = .ok s ∧ SmoothFrame s.rrd rrd' ∧
      (s.scheduleSmooth = false → rrd' = s.rrd) := by
  obtain ⟨s, hs, rfl⟩ := rrdUpdate_eq_ok h
  refine ⟨s, hs, ?_, fun hf => by simp [hf]⟩
  split
  · exact smoothAllRras_frame s.rrd
  · exact SmoothFrame.refl s.rrd

/-- **Invariant of all runs**: every current row is inside its ring. -/
theorem Reachable.positioned {rrd : Rrd} (h : Reachable rrd) : Positioned rrd := by
  induction h with
  | create a random =>
    exact ⟨a.pdpStep_pos, a.pdpCnt_pos, fun i hi => Nat.mod_lt _ (a.rowCnt_pos i hi)⟩
  | update env junk args _ hfit h ih =>
    obtain ⟨s, hs, hf, -⟩ := rrdUpdate_smoothFrame h
    have hadv : Advances (junk.start _) s := processArgs_advances ih hfit hs
    exact hf.positioned (hadv.positioned ih)

end Rrdtool
