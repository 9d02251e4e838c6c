import Rrdtool.Update

/-!
# What each stage of an update touches

Every stage of `process_arg` leaves most of the state alone, on a normal return and on an
error return alike. Each `…_state` theorem below gives the state a stage leaves as the state
it found with a few fields replaced; what is not listed there is unchanged. Later proofs use
these and do not look into the stages again.

* parsing changes the working storage only;
* the PDP stages change `pdp_prep`;
* the CDP stages change `cdp_prep`;
* `write_to_rras` changes `rra_ptr` and the data area.
-/

namespace Rrdtool

open Loop

variable {env : Env} {s t : Upd}

/-! ## Parsing -/

/-- The footprint of `parse_ds`. -/
def ParseFrame (s t : Upd) : Prop :=
  ∃ updvals currentTime currentTimeUsec, t =
    { s with updvals := updvals, currentTime := currentTime, currentTimeUsec := currentTimeUsec }

theorem getTimeFromReading_state (env : Env) (at_ : Bool) (s : Upd) :
    ParseFrame s (getTimeFromReading env at_ s).state := by
  unfold getTimeFromReading
  cases readTime env at_ (s.updvals 0) with
  | error e => exact ⟨s.updvals, s.currentTime, s.currentTimeUsec, rfl⟩
  | ok p =>
    dsimp only
    split_ifs <;> exact ⟨s.updvals, _, _, rfl⟩

/-- An argument that parses has a time after the last update. -/
theorem getTimeFromReading_ok {at_ : Bool} (h : getTimeFromReading env at_ s = .ok t) :
    (t.rrd.lastUp : ℤ) ≤ t.currentTime ∧
      ¬(t.currentTime = t.rrd.lastUp ∧ t.currentTimeUsec ≤ t.rrd.lastUpUsec) := by
  unfold getTimeFromReading at h
  cases hr : readTime env at_ (s.updvals 0) with
  | error e => simp [hr] at h
  | ok p =>
    simp only [hr] at h
    generalize (if s.rrd.version < 3 then 0 else p.2) = usec at h
    split_ifs at h with hlt
    obtain rfl := Outcome.ok.inj h
    rw [not_or] at hlt
    exact ⟨not_lt.mp hlt.1, hlt.2⟩

/-- `parse_ds` changes the working storage only. -/
theorem parseDsWith_state (tmpl : List ℕ) (arg : Text) (s : Upd) :
    ParseFrame s (parseDsWith env tmpl arg s).state := by
  unfold parseDsWith
  cases cutTime arg with
  | none => exact ⟨_, s.currentTime, s.currentTimeUsec, rfl⟩
  | some p =>
    dsimp only
    split
    · exact ⟨_, s.currentTime, s.currentTimeUsec, rfl⟩
    · split_ifs
      · exact ⟨_, s.currentTime, s.currentTimeUsec, rfl⟩
      · obtain ⟨u, ct, cu, h⟩ := getTimeFromReading_state env p.1 _
        rw [h]
        exact ⟨u, ct, cu, rfl⟩

theorem parseDs_state (arg : Text) (s : Upd) : ParseFrame s (parseDs env arg s).state :=
  parseDsWith_state (tmplIdx s.rrd) arg s

/-- Inversion for an argument that parses: the check of its time comes last. -/
theorem parseDsWith_eq_ok {tmpl : List ℕ} {arg : Text} (h : parseDsWith env tmpl arg s = .ok t) :
    ∃ at_ u, u.rrd = s.rrd ∧ getTimeFromReading env at_ u = .ok t := by
  unfold parseDsWith at h
  cases hc : cutTime arg with
  | none => simp [hc] at h
  | some p =>
    simp only [hc] at h
    split at h
    · exact absurd h (by simp)
    · rename_i updvals _
      split_ifs at h
      exact ⟨p.1, { s with updvals := updvals }, rfl, h⟩

/-- Before version 3 the microseconds of an argument are dropped. -/
theorem parseDsWith_usec {tmpl : List ℕ} {arg : Text} (h : parseDsWith env tmpl arg s = .ok t)
    (hv : s.rrd.version < 3) : t.currentTimeUsec = 0 := by
  obtain ⟨at_, u, hu, ht⟩ := parseDsWith_eq_ok h
  unfold getTimeFromReading at ht
  cases hr : readTime env at_ (u.updvals 0) with
  | error e => simp [hr] at ht
  | ok p =>
    rw [← hu] at hv
    simp only [hr, if_pos hv] at ht
    split_ifs at ht
    obtain rfl := Outcome.ok.inj ht
    rfl

/-- An argument that parses has a time after the last update. -/
theorem parseDsWith_ok {tmpl : List ℕ} {arg : Text} (h : parseDsWith env tmpl arg s = .ok t) :
    (t.rrd.lastUp : ℤ) ≤ t.currentTime ∧
      ¬(t.currentTime = t.rrd.lastUp ∧ t.currentTimeUsec ≤ t.rrd.lastUpUsec) := by
  obtain ⟨at_, u, -, ht⟩ := parseDsWith_eq_ok h
  exact getTimeFromReading_ok ht

theorem parseDs_ok {arg : Text} (h : parseDs env arg s = .ok t) :
    (t.rrd.lastUp : ℤ) ≤ t.currentTime ∧
      ¬(t.currentTime = t.rrd.lastUp ∧ t.currentTimeUsec ≤ t.rrd.lastUpUsec) :=
  parseDsWith_ok h

/-! ## Primary data points -/

/-- The footprint of the stages that work on `pdp_prep`. -/
def PdpFrame (s t : Upd) : Prop :=
  ∃ pdpPrep pdpNew pdpTemp, t =
    { s with rrd := { s.rrd with pdpPrep := pdpPrep }, pdpNew := pdpNew, pdpTemp := pdpTemp }

theorem PdpFrame.refl (s : Upd) : PdpFrame s s := ⟨s.rrd.pdpPrep, s.pdpNew, s.pdpTemp, rfl⟩

theorem PdpFrame.trans {s t u : Upd} (h : PdpFrame s t) (h' : PdpFrame t u) : PdpFrame s u := by
  obtain ⟨_, _, _, rfl⟩ := h
  obtain ⟨pp, pn, pt, rfl⟩ := h'
  exact ⟨pp, pn, pt, rfl⟩

theorem updatePdpPrepDs_state (interval : ℚ) (i : ℕ) (s : Upd) :
    PdpFrame s (updatePdpPrepDs interval i s).state := by
  unfold updatePdpPrepDs
  dsimp only
  split_ifs
  all_goals first
    | exact ⟨_, _, s.pdpTemp, rfl⟩
    | (split <;> first
        | exact ⟨_, s.pdpNew, s.pdpTemp, rfl⟩
        | exact ⟨s.rrd.pdpPrep, s.pdpNew, s.pdpTemp, rfl⟩
        | exact ⟨_, _, s.pdpTemp, rfl⟩)

/-- `update_pdp_prep` works on `pdp_prep` and `pdp_new`. -/
theorem updatePdpPrep_state (interval : ℚ) (s : Upd) :
    PdpFrame s (updatePdpPrep interval s).state :=
  forLoopE_state (PdpFrame s) (PdpFrame.refl s) fun i t _ ht =>
    ht.trans (updatePdpPrepDs_state interval i t)

/-- `simple_update` works on `pdp_prep`. -/
theorem simpleUpdate_frame (interval : ℚ) (s : Upd) : PdpFrame s (simpleUpdate interval s) :=
  forLoop_invariant (fun _ => PdpFrame s) (PdpFrame.refl s) fun _ t _ ht =>
    ht.trans ⟨_, t.pdpNew, t.pdpTemp, rfl⟩

theorem processPdpSt_state (lib : Libm) (interval preInt postInt : ℚ) (diff i : ℕ) (s : Upd) :
    PdpFrame s (processPdpSt lib interval preInt postInt diff i s).state := by
  unfold processPdpSt
  dsimp only
  split_ifs
  all_goals first
    | exact ⟨_, s.pdpNew, _, rfl⟩
    | (split <;> exact ⟨_, s.pdpNew, _, rfl⟩)

/-- `process_all_pdp_st` works on `pdp_prep` and `pdp_temp`. -/
theorem processAllPdpSt_state (lib : Libm) (interval : ℚ) (el : Elapsed) (s : Upd) :
    PdpFrame s (processAllPdpSt lib interval el s).state :=
  forLoopE_state (PdpFrame s) (PdpFrame.refl s) fun i t _ ht =>
    ht.trans (processPdpSt_state lib interval el.preInt el.postInt _ i t)

/-! ## Consolidated data points -/

namespace Rrd

@[simp] theorem setCdp_setCdp (r : Rrd) (idx : ℕ) (c d : CdpPrep) :
    (r.setCdp idx c).setCdp idx d = r.setCdp idx d := by
  simp [setCdp]

@[simp] theorem setCdp_self (r : Rrd) (idx : ℕ) : r.setCdp idx (r.cdpPrep idx) = r := by
  simp [setCdp]

end Rrd

@[simp] theorem Rrd.setCdp_get_self (r : Rrd) (idx : ℕ) (c : CdpPrep) :
    (r.setCdp idx c).cdpPrep idx = c := by
  simp [Rrd.setCdp]

theorem Rrd.setCdp_get_of_ne {r : Rrd} {idx j : ℕ} (h : j ≠ idx) (c : CdpPrep) :
    (r.setCdp idx c).cdpPrep j = r.cdpPrep j := by
  simp [Rrd.setCdp, h]

/-- The footprint of the Holt-Winters functions: one preparation area. -/
def SetsCdp (idx : ℕ) (r r' : Rrd) : Prop := ∃ c, r' = r.setCdp idx c

theorem SetsCdp.refl (idx : ℕ) (r : Rrd) : SetsCdp idx r r :=
  ⟨r.cdpPrep idx, (r.setCdp_self idx).symm⟩

theorem SetsCdp.set (idx : ℕ) (r : Rrd) (c : CdpPrep) : SetsCdp idx r (r.setCdp idx c) :=
  ⟨c, rfl⟩

theorem SetsCdp.trans {idx : ℕ} {r r' r'' : Rrd} (h : SetsCdp idx r r') (h' : SetsCdp idx r' r'') :
    SetsCdp idx r r'' := by
  obtain ⟨c, rfl⟩ := h
  obtain ⟨d, rfl⟩ := h'
  exact ⟨d, Rrd.setCdp_setCdp r idx c d⟩

section HoltWinters

variable (rrd : Rrd) (rraIdx dsIdx : ℕ) (sc : ScratchIdx) (coef : ℕ → RrdValue)
  (fn : HwFunctions)

theorem updateHwpredict_frame :
    SetsCdp (rrd.cdpIdx rraIdx dsIdx) rrd (updateHwpredict rrd rraIdx dsIdx sc fn) := by
  unfold updateHwpredict
  dsimp only
  split_ifs <;> exact (SetsCdp.set _ _ _).trans (SetsCdp.set _ _ _)

theorem updateSeasonal_frame :
    SetsCdp (rrd.cdpIdx rraIdx dsIdx) rrd (updateSeasonal rrd rraIdx dsIdx sc coef fn) :=
  (SetsCdp.set _ _ _).trans (SetsCdp.set _ _ _)

theorem updateDevpredict_frame :
    SetsCdp (rrd.cdpIdx rraIdx dsIdx) rrd (updateDevpredict rrd rraIdx dsIdx sc) :=
  SetsCdp.set _ _ _

theorem updateDevseasonal_frame :
    SetsCdp (rrd.cdpIdx rraIdx dsIdx) rrd (updateDevseasonal rrd rraIdx dsIdx sc coef fn) :=
  (SetsCdp.set _ _ _).trans (SetsCdp.set _ _ _)

theorem updateFailures_frame :
    SetsCdp (rrd.cdpIdx rraIdx dsIdx) rrd (updateFailures rrd rraIdx dsIdx sc fn) :=
  SetsCdp.set _ _ _

/-- `update_aberrant_CF` stores into the preparation area of its own RRA and DS. -/
theorem updateAberrantCF_frame (v : RrdValue) :
    SetsCdp (rrd.cdpIdx rraIdx dsIdx) rrd (updateAberrantCF rrd v rraIdx dsIdx sc coef) := by
  unfold updateAberrantCF
  dsimp only
  refine (SetsCdp.set _ rrd ((rrd.cdpPrep (rrd.cdpIdx rraIdx dsIdx)).setScratch sc v)).trans ?_
  split
  · exact updateHwpredict_frame _ rraIdx dsIdx sc _
  · exact updateHwpredict_frame _ rraIdx dsIdx sc _
  · exact updateDevpredict_frame _ rraIdx dsIdx sc
  · split
    · exact updateSeasonal_frame _ rraIdx dsIdx sc coef _
    · exact SetsCdp.refl _ _
  · split
    · exact updateDevseasonal_frame _ rraIdx dsIdx sc coef _
    · exact SetsCdp.refl _ _
  · split
    · exact updateFailures_frame _ rraIdx dsIdx sc _
    · exact SetsCdp.refl _ _
  · exact SetsCdp.refl _ _

end HoltWinters

/-- The footprint of the functions that work on `cdp_prep`. -/
def CdpFrame (s t : Upd) : Prop :=
  ∃ cdpPrep seasonalCoef pos error, t =
    { s with
      rrd := { s.rrd with cdpPrep := cdpPrep }, seasonalCoef := seasonalCoef, pos := pos,
      error := error }

/-- The footprint of `update_all_cdp_prep`, which also decides what is written later. -/
def PrepFrame (s t : Upd) : Prop :=
  ∃ rraStepCnt skipUpdate lastSeasonalCoef scheduleSmooth, CdpFrame
    { s with
      rraStepCnt := rraStepCnt, skipUpdate := skipUpdate,
      lastSeasonalCoef := lastSeasonalCoef, scheduleSmooth := scheduleSmooth } t

theorem CdpFrame.refl (s : Upd) : CdpFrame s s :=
  ⟨s.rrd.cdpPrep, s.seasonalCoef, s.pos, s.error, rfl⟩

theorem CdpFrame.trans {s t u : Upd} (h : CdpFrame s t) (h' : CdpFrame t u) : CdpFrame s u := by
  obtain ⟨_, _, _, _, rfl⟩ := h
  obtain ⟨cp, co, po, er, rfl⟩ := h'
  exact ⟨cp, co, po, er, rfl⟩

theorem CdpFrame.prep {s t : Upd} (h : CdpFrame s t) : PrepFrame s t :=
  ⟨s.rraStepCnt, s.skipUpdate, s.lastSeasonalCoef, s.scheduleSmooth, h⟩

theorem PrepFrame.refl (s : Upd) : PrepFrame s s := (CdpFrame.refl s).prep

theorem PrepFrame.trans {s t u : Upd} (h : PrepFrame s t) (h' : PrepFrame t u) :
    PrepFrame s u := by
  obtain ⟨_, _, _, _, _, _, _, _, rfl⟩ := h
  obtain ⟨rs, sk, lc, sm, cp, co, po, er, rfl⟩ := h'
  exact ⟨rs, sk, lc, sm, cp, co, po, er, rfl⟩

/-- A store into one preparation area is inside the footprint. -/
theorem CdpFrame.setsCdp {idx : ℕ} {s : Upd} {r : Rrd} (h : SetsCdp idx s.rrd r) :
    CdpFrame s { s with rrd := r } := by
  obtain ⟨c, rfl⟩ := h
  exact ⟨_, s.seasonalCoef, s.pos, s.error, rfl⟩

theorem lookupSeasonal_frame (s : Upd) (rraIdx offset : ℕ) :
    CdpFrame s (lookupSeasonal s rraIdx offset).1 :=
  ⟨s.rrd.cdpPrep, s.seasonalCoef, _, _, rfl⟩

theorem doScheduleSmooth_frame (r : Rrd) (rraIdx elapsed : ℕ) :
    SetsCdp (rraIdx * r.dsCnt) r (doScheduleSmooth r rraIdx elapsed).1 := by
  unfold doScheduleSmooth
  dsimp only
  split_ifs
  · exact SetsCdp.refl _ _
  · exact SetsCdp.refl _ _
  · exact SetsCdp.set _ _ _
  · exact SetsCdp.refl _ _

theorem skipAhead_frame (elapsed rraIdx : ℕ) (s : Upd) :
    PrepFrame s (skipAhead elapsed rraIdx s) :=
  ⟨s.rraStepCnt, _, _, s.scheduleSmooth, s.rrd.cdpPrep, _, _, _, rfl⟩

theorem scheduleSeasonal_frame (elapsed rraIdx : ℕ) (s : Upd) :
    PrepFrame s (scheduleSeasonal elapsed rraIdx s) := by
  unfold scheduleSeasonal
  dsimp only
  generalize hu : (if 1 < s.rraStepCnt rraIdx then skipAhead elapsed rraIdx s else s) = u
  have hsu : PrepFrame s u := by
    rw [← hu]
    split_ifs
    · exact skipAhead_frame elapsed rraIdx s
    · exact PrepFrame.refl s
  refine (hsu.trans
    (CdpFrame.setsCdp (doScheduleSmooth_frame u.rrd rraIdx elapsed)).prep).trans ?_
  exact ⟨u.rraStepCnt, u.skipUpdate, u.lastSeasonalCoef, _, _, u.seasonalCoef, u.pos, u.error,
    rfl⟩

theorem testError_state (s : Upd) : (testError s).state = s := by
  unfold testError
  split <;> rfl

/-- A normal return of `rrd_test_error` leaves the state alone. -/
theorem testError_ok (h : testError s = .ok t) : t = s ∧ s.error = none := by
  unfold testError at h
  split at h
  · exact absurd h (by simp)
  · exact ⟨(Outcome.ok.inj h).symm, by assumption⟩

theorem updateCdpPrep_frame (elapsed offset rraIdx : ℕ) (s : Upd) :
    CdpFrame s (updateCdpPrep elapsed offset rraIdx s) :=
  forLoop_invariant (fun _ => CdpFrame s) (CdpFrame.refl s) fun _ _ _ ht =>
    ht.trans (CdpFrame.setsCdp (SetsCdp.set _ _ _))

theorem prepareRra_frame (elapsed proc rraIdx : ℕ) (s : Upd) :
    PrepFrame s (prepareRra elapsed proc rraIdx s) := by
  unfold prepareRra
  dsimp only
  split_ifs
  · refine PrepFrame.trans ?_ (scheduleSeasonal_frame elapsed rraIdx _)
    exact ⟨_, _, s.lastSeasonalCoef, s.scheduleSmooth, CdpFrame.refl _⟩
  · exact ⟨_, _, s.lastSeasonalCoef, s.scheduleSmooth, CdpFrame.refl _⟩

/-- A test of the pending error either stops, or goes on from the same state. -/
theorem testError_andThen_state (u : Upd) (f : Upd → Upd) :
    ((testError u).andThen fun t => .ok (f t)).state = u ∨
      ((testError u).andThen fun t => .ok (f t)).state = f u := by
  unfold testError
  split
  · exact .inl rfl
  · exact .inr rfl

theorem updateAllCdpPrepRra_state (elapsed proc rraIdx : ℕ) (s : Upd) :
    PrepFrame s (updateAllCdpPrepRra elapsed proc rraIdx s).state := by
  have hp := prepareRra_frame elapsed proc rraIdx s
  rcases testError_andThen_state (prepareRra elapsed proc rraIdx s)
    (updateCdpPrep elapsed (startPdpOffset (s.rrd.rraDef rraIdx).pdpCnt proc) rraIdx) with h | h
  · rw [updateAllCdpPrepRra, h]
    exact hp
  · rw [updateAllCdpPrepRra, h]
    exact hp.trans (updateCdpPrep_frame elapsed _ rraIdx _).prep

/-- `update_all_cdp_prep` works on `cdp_prep`. -/
theorem updateAllCdpPrep_state (elapsed proc : ℕ) (s : Upd) :
    PrepFrame s (updateAllCdpPrep elapsed proc s).state :=
  forLoopE_state (PrepFrame s) (PrepFrame.refl s) fun i t _ ht =>
    ht.trans (updateAllCdpPrepRra_state elapsed proc i t)

theorem lookupAhead_frame (elapsed : ℕ) (sc : ScratchIdx) (rraIdx : ℕ) (s : Upd) :
    CdpFrame s (lookupAhead elapsed sc rraIdx s) := by
  unfold lookupAhead
  split
  · exact ⟨s.rrd.cdpPrep, _, _, _, rfl⟩
  · exact CdpFrame.refl s

theorem aberrantLoop_frame (sc : ScratchIdx) (rraIdx : ℕ) (s : Upd) :
    CdpFrame s (aberrantLoop sc rraIdx s) :=
  forLoop_invariant (fun _ => CdpFrame s) (CdpFrame.refl s) fun d w _ hw =>
    hw.trans (CdpFrame.setsCdp (updateAberrantCF_frame w.rrd rraIdx d sc w.seasonalCoef _))

theorem updateAberrantRra_state (elapsed : ℕ) (sc : ScratchIdx) (rraIdx : ℕ) (s : Upd) :
    CdpFrame s (updateAberrantRra elapsed sc rraIdx s).state := by
  unfold updateAberrantRra
  split
  · have hl := lookupAhead_frame elapsed sc rraIdx s
    rcases testError_andThen_state (lookupAhead elapsed sc rraIdx s) (aberrantLoop sc rraIdx)
      with h | h
    · rw [h]
      exact hl
    · rw [h]
      exact hl.trans (aberrantLoop_frame sc rraIdx _)
  · exact CdpFrame.refl s

theorem updateAberrantPass_state (elapsed : ℕ) (sc : ScratchIdx) (s : Upd) :
    CdpFrame s (updateAberrantPass elapsed sc s).state :=
  forLoopE_state (CdpFrame s) (CdpFrame.refl s) fun i t _ ht =>
    ht.trans (updateAberrantRra_state elapsed sc i t)

/-- `update_aberrant_cdps` works on `cdp_prep`. -/
theorem updateAberrantCdps_state (elapsed : ℕ) (s : Upd) :
    CdpFrame s (updateAberrantCdps elapsed s).state := by
  unfold updateAberrantCdps
  split_ifs
  · exact updateAberrantPass_state elapsed .primary s
  · have h1 := updateAberrantPass_state elapsed .primary s
    cases hp : updateAberrantPass elapsed .primary s with
    | fail e t => rwa [hp] at h1
    | ok t =>
      rw [hp] at h1
      exact h1.trans (updateAberrantPass_state elapsed .secondary t)
  · exact CdpFrame.refl s

/-! ## Rows -/

/-- The footprint of `write_to_rras`. -/
def RowFrame (s t : Upd) : Prop :=
  ∃ curRow values rraStepCnt pos notified, t =
    { s with
      rrd := { s.rrd with curRow := curRow, values := values }, rraStepCnt := rraStepCnt,
      pos := pos, notified := notified }

theorem RowFrame.refl (s : Upd) : RowFrame s s :=
  ⟨s.rrd.curRow, s.rrd.values, s.rraStepCnt, s.pos, s.notified, rfl⟩

theorem RowFrame.trans {s t u : Upd} (h : RowFrame s t) (h' : RowFrame t u) : RowFrame s u := by
  obtain ⟨_, _, _, _, _, rfl⟩ := h
  obtain ⟨cr, vs, rs, po, no, rfl⟩ := h'
  exact ⟨cr, vs, rs, po, no, rfl⟩

theorem rrdWrite_state (v : RrdValue) (s : Upd) : RowFrame s (rrdWrite v s).state := by
  unfold rrdWrite
  split_ifs
  · exact RowFrame.refl s
  · exact ⟨s.rrd.curRow, _, s.rraStepCnt, _, s.notified, rfl⟩

theorem writeRRARow_state (rraIdx : ℕ) (sc : ScratchIdx) (s : Upd) :
    RowFrame s (writeRRARow rraIdx sc s).state :=
  forLoopE_state (RowFrame s) (RowFrame.refl s) fun _ t _ ht => ht.trans (rrdWrite_state _ t)

theorem seekNextRow_frame (rraIdx : ℕ) (s : Upd) : RowFrame s (seekNextRow rraIdx s) :=
  ⟨_, s.rrd.values, s.rraStepCnt, _, s.notified, rfl⟩

theorem writeNextRow_state (rraIdx : ℕ) (sc : ScratchIdx) (s : Upd) :
    RowFrame s (writeNextRow rraIdx sc s).state := by
  have hu := seekNextRow_frame rraIdx s
  unfold writeNextRow
  dsimp only
  split
  · exact hu
  · have hw := writeRRARow_state rraIdx sc (seekNextRow rraIdx s)
    cases h : writeRRARow rraIdx sc (seekNextRow rraIdx s) with
    | fail e v =>
      rw [h] at hw
      exact hu.trans hw
    | ok v =>
      rw [h] at hw
      refine (hu.trans hw).trans ?_
      exact ⟨v.rrd.curRow, v.rrd.values, v.rraStepCnt, v.pos, _, rfl⟩

theorem writeRows_state (rraIdx n : ℕ) (sc : ScratchIdx) (s : Upd) :
    RowFrame s (writeRows rraIdx n sc s).state := by
  induction n generalizing sc s with
  | zero => exact RowFrame.refl s
  | succ n ih =>
    have hw := writeNextRow_state rraIdx sc s
    unfold writeRows
    cases h : writeNextRow rraIdx sc s with
    | fail e v =>
      rw [h] at hw
      exact hw
    | ok v =>
      rw [h] at hw
      refine (hw.trans ?_).trans (ih .secondary _)
      exact ⟨v.rrd.curRow, v.rrd.values, _, v.pos, v.notified, rfl⟩

/-- `write_to_rras` works on `rra_ptr` and on the data area. -/
theorem writeToRras_state (s : Upd) : RowFrame s (writeToRras s).state :=
  forLoopE_state (RowFrame s) (RowFrame.refl s) fun i t _ ht =>
    ht.trans (writeRows_state i _ .primary t)

end Rrdtool
