import Rrdtool.Reach

/-!
# What a failed update argument leaves behind

With `mmap` the header is the file: `process_arg` stores into `last_ds` and the scratch areas
DS by DS, and an error return takes nothing back. This file says which part of the file a
failing argument has changed:

* after the PDPs nothing can fail on a file that `rrd_open` accepts (`processPdps_total`);
* a reading that is refused leaves the new `last_ds` of all DSs before its own
  (`updatePdpPrep_fail`), a `COMPUTE` program that fails also the new scratch values of all
  DSs before its own (`processAllPdpSt_fail`);
* `failed_update_atomic_iff` — so a failed argument changes nothing exactly if those DSs had
  these values already.
-/

namespace Rrdtool

open Loop

variable {env : Env} {s t u : Upd}

/-! ## Files that `rrd_open` accepts -/

/-- What `rrd_open` and `rrd_create_r` promise of a file: no RRA without rows, and a data area
that is not too small. -/
structure Rrd.Openable (r : Rrd) : Prop where
  rowCnt_pos : ∀ i, i < r.rraCnt → 0 < (r.rraDef i).rowCnt
  long : r.wantedCnt ≤ r.valueCnt

theorem Rrd.Openable.congr {r r' : Rrd} (h : r.Openable) (hd : SameDefs r r') : r'.Openable := by
  refine ⟨fun i hi => ?_, ?_⟩
  · rw [hd.rraCnt] at hi
    rw [hd.rraDef]
    exact h.rowCnt_pos i hi
  · rw [Rrd.wantedCnt, hd.rraStart, hd.rraCnt, hd.valueCnt]
    exact h.long

/-- Every row of every RRA is inside the file. -/
theorem Rrd.Openable.row_le {r : Rrd} (h : r.Openable) {i row : ℕ} (hi : i < r.rraCnt)
    (hrow : row < (r.rraDef i).rowCnt) : r.rraStart i + row * r.dsCnt + r.dsCnt ≤ r.valueCnt := by
  have hblock : r.rraStart (i + 1) ≤ r.valueCnt := (r.rraStart_mono hi).trans h.long
  have hle := Nat.mul_le_mul_right r.dsCnt hrow
  rw [Nat.succ_mul] at hle
  rw [Rrd.rraStart_succ] at hblock
  omega

/-- Files that `rrd_create_r` makes can be opened. -/
theorem openable_create (a : CreateArgs) (random : ℕ → ℕ) : (rrdCreateFn a random).Openable :=
  ⟨a.rowCnt_pos, le_rfl⟩

/-! ## No error after the PDPs -/

/-- The file is openable and no error is pending. -/
structure Sound (s : Upd) : Prop where
  openable : s.rrd.Openable
  error : s.error = none

theorem Sound.congr (h : Sound s) (hd : SameDefs s.rrd t.rrd) (he : t.error = none) : Sound t :=
  ⟨h.openable.congr hd, he⟩

/-- A row that is looked up is inside the file. -/
theorem lookupSeasonal_error (h : Sound s) {i : ℕ} (hi : i < s.rrd.rraCnt) (offset : ℕ) :
    (lookupSeasonal s i offset).1.error = none := by
  have hrow : ulong (s.rrd.curRow i + offset) % (s.rrd.rraDef i).rowCnt < (s.rrd.rraDef i).rowCnt :=
    Nat.mod_lt _ (h.openable.rowCnt_pos i hi)
  simp only [lookupSeasonal]
  rw [if_neg (Nat.not_lt.mpr (h.openable.row_le hi hrow))]
  exact h.error

theorem lookupSeasonal_sound (h : Sound s) {i : ℕ} (hi : i < s.rrd.rraCnt) (offset : ℕ) :
    Sound (lookupSeasonal s i offset).1 :=
  h.congr (lookupSeasonal_frame s i offset).prep.sameDefs (lookupSeasonal_error h hi offset)

theorem testError_sound (h : Sound s) : testError s = .ok s := by
  simp only [testError, h.error]

theorem skipAhead_sound (h : Sound s) {i : ℕ} (hi : i < s.rrd.rraCnt) (elapsed : ℕ) :
    Sound (skipAhead elapsed i s) :=
  ⟨h.openable.congr (skipAhead_frame elapsed i s).sameDefs,
    lookupSeasonal_error (lookupSeasonal_sound h hi elapsed) hi (elapsed + 1)⟩

theorem scheduleSeasonal_sound (h : Sound s) {i : ℕ} (hi : i < s.rrd.rraCnt) (elapsed : ℕ) :
    Sound (scheduleSeasonal elapsed i s) := by
  refine h.congr (scheduleSeasonal_frame elapsed i s).sameDefs ?_
  simp only [scheduleSeasonal]
  split_ifs
  · exact (skipAhead_sound h hi elapsed).error
  · exact h.error

theorem prepareRra_sound (h : Sound s) {i : ℕ} (hi : i < s.rrd.rraCnt) (elapsed proc : ℕ) :
    Sound (prepareRra elapsed proc i s) := by
  simp only [prepareRra]
  split_ifs
  · apply scheduleSeasonal_sound
    · exact ⟨h.openable, h.error⟩
    · exact hi
  · exact ⟨h.openable, h.error⟩

theorem updateCdpPrep_error (elapsed offset i : ℕ) (s : Upd) :
    (updateCdpPrep elapsed offset i s).error = s.error :=
  forLoop_frame Upd.error fun _ _ _ => rfl

/-- `update_all_cdp_prep` returns. -/
theorem updateAllCdpPrep_total (h : Sound s) (elapsed proc : ℕ) :
    ∃ t, updateAllCdpPrep elapsed proc s = .ok t ∧ Sound t ∧ PrepFrame s t := by
  refine forLoopE_total (fun _ t => Sound t ∧ PrepFrame s t) ⟨h, PrepFrame.refl s⟩ ?_
  rintro i t hi ⟨ht, hf⟩
  have hit : i < t.rrd.rraCnt := by
    rw [hf.sameDefs.rraCnt]
    exact hi
  have hp := prepareRra_sound ht hit elapsed proc
  have hpf := prepareRra_frame elapsed proc i t
  refine ⟨_, by rw [updateAllCdpPrepRra, testError_sound hp, Outcome.ok_andThen], ?_, ?_⟩
  · exact hp.congr (updateCdpPrep_frame _ _ _ _).prep.sameDefs
      ((updateCdpPrep_error _ _ _ _).trans hp.error)
  · exact hf.trans (hpf.trans (updateCdpPrep_frame _ _ _ _).prep)

theorem lookupAhead_sound (h : Sound s) {i : ℕ} (hi : i < s.rrd.rraCnt) (elapsed : ℕ)
    (sc : ScratchIdx) : Sound (lookupAhead elapsed sc i s) := by
  refine h.congr (lookupAhead_frame elapsed sc i s).prep.sameDefs ?_
  simp only [lookupAhead]
  split
  · exact lookupSeasonal_error h hi _
  · exact h.error

theorem aberrantLoop_error (sc : ScratchIdx) (i : ℕ) (s : Upd) :
    (aberrantLoop sc i s).error = s.error :=
  forLoop_frame Upd.error fun _ _ _ => rfl

theorem updateAberrantPass_total (h : Sound s) (elapsed : ℕ) (sc : ScratchIdx) :
    ∃ t, updateAberrantPass elapsed sc s = .ok t ∧ Sound t ∧ CdpFrame s t := by
  refine forLoopE_total (fun _ t => Sound t ∧ CdpFrame s t) ⟨h, CdpFrame.refl s⟩ ?_
  rintro i t hi ⟨ht, hf⟩
  have hit : i < t.rrd.rraCnt := by
    rw [hf.prep.sameDefs.rraCnt]
    exact hi
  simp only [updateAberrantRra]
  split
  · have hl := lookupAhead_sound ht hit elapsed sc
    have hlf := lookupAhead_frame elapsed sc i t
    refine ⟨_, by rw [testError_sound hl, Outcome.ok_andThen], ?_, ?_⟩
    · exact hl.congr (aberrantLoop_frame sc i _).prep.sameDefs
        ((aberrantLoop_error sc i _).trans hl.error)
    · exact hf.trans (hlf.trans (aberrantLoop_frame sc i _))
  · exact ⟨t, rfl, ht, hf⟩

/-- `update_aberrant_cdps` returns. -/
theorem updateAberrantCdps_total (h : Sound s) (elapsed : ℕ) :
    ∃ t, updateAberrantCdps elapsed s = .ok t ∧ Sound t ∧ CdpFrame s t := by
  simp only [updateAberrantCdps]
  split_ifs
  · exact updateAberrantPass_total h elapsed .primary
  · obtain ⟨t, ht, hst, hft⟩ := updateAberrantPass_total h elapsed .primary
    obtain ⟨u, hu, hsu, hfu⟩ := updateAberrantPass_total hst elapsed .secondary
    exact ⟨u, by rw [ht, Outcome.ok_andThen, hu], hsu, hft.trans hfu⟩
  · exact ⟨s, rfl, h, CdpFrame.refl s⟩

/-- A row that starts early enough can be written. -/
theorem writeRRARow_total (i : ℕ) (sc : ScratchIdx) (h : s.pos + s.rrd.dsCnt ≤ s.rrd.valueCnt) :
    ∃ t, writeRRARow i sc s = .ok t := by
  have htotal := @forLoopE_total UpdError _ s.rrd.dsCnt (fun dsIdx s =>
      rrdWrite ((s.rrd.cdpPrep (s.rrd.cdpIdx i dsIdx)).scratch sc) s) s
    (fun k t => t.pos = s.pos + k ∧ t.rrd.valueCnt = s.rrd.valueCnt) ⟨rfl, rfl⟩ ?_
  · obtain ⟨t, ht, -⟩ := htotal
    exact ⟨t, ht⟩
  · rintro k t hk ⟨hpos, hlen⟩
    refine ⟨_, if_neg (by rw [hpos, hlen]; omega), ?_, hlen⟩
    change t.pos + 1 = _
    omega

theorem writeNextRow_total (h : Sound s) {i : ℕ} (hi : i < s.rrd.rraCnt) (sc : ScratchIdx) :
    ∃ t, writeNextRow i sc s = .ok t ∧ Sound t ∧ RowFrame s t := by
  have hf := writeNextRow_state i sc s
  have hok : ∃ t, writeNextRow i sc s = .ok t := by
    simp only [writeNextRow]
    split_ifs
    · exact ⟨_, rfl⟩
    · have hrow := h.openable.row_le hi (Ring.next_lt (h.openable.rowCnt_pos i hi) (s.rrd.curRow i))
      obtain ⟨t, ht⟩ := @writeRRARow_total (seekNextRow i s) i sc (by
        simp only [seekNextRow]
        rw [Nat.mul_comm]
        exact hrow)
      exact ⟨_, by rw [ht, Outcome.ok_andThen]⟩
  obtain ⟨t, ht⟩ := hok
  rw [ht, Outcome.state_ok] at hf
  refine ⟨t, ht, h.congr hf.sameDefs ?_, hf⟩
  obtain ⟨_, _, _, _, _, rfl⟩ := hf
  exact h.error

theorem writeRows_total (h : Sound s) {i : ℕ} (hi : i < s.rrd.rraCnt) (n : ℕ) (sc : ScratchIdx) :
    ∃ t, writeRows i n sc s = .ok t ∧ Sound t ∧ RowFrame s t := by
  induction n generalizing s sc with
  | zero => exact ⟨s, rfl, h, RowFrame.refl s⟩
  | succ n ih =>
    obtain ⟨u, hu, hsu, hfu⟩ := writeNextRow_total h hi sc
    have hiu : i < u.rrd.rraCnt := by
      rw [hfu.sameDefs.rraCnt]
      exact hi
    obtain ⟨t, ht, hst, hft⟩ := @ih
      { u with rraStepCnt := Function.update u.rraStepCnt i n } ⟨hsu.openable, hsu.error⟩ hiu
      .secondary
    refine ⟨t, by rw [writeRows, hu, Outcome.ok_andThen, ht], hst, hfu.trans ?_⟩
    exact RowFrame.trans ⟨u.rrd.curRow, u.rrd.values, _, u.pos, u.notified, rfl⟩ hft

/-- `write_to_rras` returns. -/
theorem writeToRras_total (h : Sound s) : ∃ t, writeToRras s = .ok t ∧ Sound t := by
  have htotal := @forLoopE_total UpdError _ s.rrd.rraCnt
    (fun i s => writeRows i (s.rraStepCnt i) .primary s) s
    (fun _ t => Sound t ∧ RowFrame s t) ⟨h, RowFrame.refl s⟩ ?_
  · obtain ⟨t, ht, hst, -⟩ := htotal
    exact ⟨t, ht, hst⟩
  · rintro i t hi ⟨hst, hf⟩
    obtain ⟨u, hu, hsu, hfu⟩ := writeRows_total hst (i := i) (by
      rw [hf.sameDefs.rraCnt]
      exact hi) (t.rraStepCnt i) .primary
    exact ⟨u, hu, hsu, hf.trans hfu⟩

/-- The PDPs leave no error pending. -/
theorem PdpFrame.sound (hf : PdpFrame s t) (h : Sound s) : Sound t := by
  have hd := hf.sameDefs
  obtain ⟨_, _, _, rfl⟩ := hf
  exact h.congr hd h.error

/-- **After the PDPs nothing fails.** What `process_arg` does after `update_pdp_prep` fails
only where a `COMPUTE` program does. -/
theorem processPdps_total (h : Sound s) {interval : ℚ} :
    let el := calculateElapsedSteps s.rrd s.currentTime.toNat s.currentTimeUsec interval
    (el.elapsedPdpSt = 0 ∨ ∃ u, processAllPdpSt env.lib interval el s = .ok u) →
      ∃ t, processPdps env interval s = .ok t ∧ Sound t := by
  intro el hel
  simp only [processPdps]
  split_ifs with hz
  · exact ⟨_, rfl, (simpleUpdate_frame interval s).sound h⟩
  · obtain ⟨u, hu⟩ := hel.resolve_left hz
    have hf : PdpFrame s u := Outcome.of_state_ok hu (processAllPdpSt_state _ _ _ s)
    have hsu := hf.sound h
    obtain ⟨v, hv, hsv, -⟩ := updateAllCdpPrep_total hsu el.elapsedPdpSt el.procPdpCnt
    obtain ⟨w, hw, hsw, -⟩ := updateAberrantCdps_total hsv el.elapsedPdpSt
    obtain ⟨t, ht, hst⟩ := writeToRras_total hsw
    refine ⟨t, ?_, hst⟩
    rw [hu, Outcome.ok_andThen, hv, Outcome.ok_andThen, hw, Outcome.ok_andThen, ht]

/-! ## The readings of an argument -/

/-- Is the reading refused, whatever the DS holds? The syntax checks of the `switch` of
`update_pdp_prep`. -/
def refusesReading (dst : Dst) (reading : Text) : Bool :=
  match dst with
  | .counter => !isSimpleInteger false reading
  | .derive => !isSimpleInteger true reading
  | .absolute | .gauge => (CStr.strtod reading).erange || decide ((CStr.strtod reading).rest ≠ [])
  | .cdef => false

theorem readValue_error_iff (dst : Dst) (reading lastDs : Text) (interval : ℚ) :
    (∃ e, readValue dst reading lastDs interval = .error e) ↔ refusesReading dst reading = true := by
  cases dst with
  | counter =>
    simp only [readValue, refusesReading]
    split_ifs <;> simp_all
  | derive =>
    simp only [readValue, refusesReading]
    split_ifs <;> simp_all
  | absolute =>
    simp only [readValue, refusesReading]
    split_ifs <;> simp_all [Except.map]
  | gauge =>
    simp only [readValue, refusesReading]
    split_ifs <;> simp_all [Except.map]
  | cdef => simp [readValue, refusesReading]

/-- DS `i` takes its reading of a parsed argument, and refuses it. -/
def Upd.refuses (u : Upd) (interval : ℚ) (i : ℕ) : Bool :=
  takesReading (u.rrd.dsDef i) (u.updvals (i + 1)) interval &&
    refusesReading (u.rrd.dsDef i).dst (u.updvals (i + 1))

/-- `pdp_new` of DS `i`. -/
def Upd.newPdp (u : Upd) (interval : ℚ) (i : ℕ) : RrdValue :=
  let d := u.rrd.dsDef i
  if takesReading d (u.updvals (i + 1)) interval then
    match readValue d.dst (u.updvals (i + 1)) (u.rrd.pdpPrep i).lastDs interval with
    | .ok (v, rate) => if outOfRange d rate then dnan else v
    | .error _ => dnan
  else dnan

/-- The `pdp_prep` of DS `i` with the reading of a parsed argument as `last_ds`. -/
def Upd.stored (u : Upd) (i : ℕ) : PdpPrep :=
  { u.rrd.pdpPrep i with lastDs := CStr.strncpy (u.updvals (i + 1)) (lastDsLen - 1) }

/-- A parsed argument after `k` passes of `update_pdp_prep`. -/
def Upd.prepared (u : Upd) (interval : ℚ) (k : ℕ) : Upd :=
  { u with
    rrd := { u.rrd with pdpPrep := fun i => if i < k then u.stored i else u.rrd.pdpPrep i }
    pdpNew := fun i => if i < k then u.newPdp interval i else u.pdpNew i }

theorem Upd.prepared_zero (u : Upd) (interval : ℚ) : u.prepared interval 0 = u := by
  simp [Upd.prepared]

/-- One pass of `update_pdp_prep`: it fails where the reading is refused, and then without a
change. -/
theorem updatePdpPrepDs_eq (u : Upd) (interval : ℚ) (k : ℕ) :
    (u.refuses interval k = true →
      ∃ e, updatePdpPrepDs interval k (u.prepared interval k) = .fail e (u.prepared interval k)) ∧
    (u.refuses interval k = false →
      updatePdpPrepDs interval k (u.prepared interval k) = .ok (u.prepared interval (k + 1))) := by
  have hprep : (u.prepared interval k).rrd.pdpPrep k = u.rrd.pdpPrep k := by
    simp [Upd.prepared]
  have hnext : u.prepared interval (k + 1) = { u.prepared interval k with
      rrd := { u.rrd with
        pdpPrep := Function.update (u.prepared interval k).rrd.pdpPrep k (u.stored k) }
      pdpNew := Function.update (u.prepared interval k).pdpNew k (u.newPdp interval k) } := by
    simp only [Upd.prepared, update_below]
  by_cases htake : takesReading (u.rrd.dsDef k) (u.updvals (k + 1)) interval = true
  · -- the DS is not beyond its heartbeat, so `last_ds` has not been reset
    have hbeat : ¬((u.rrd.dsDef k).mrhbCnt : ℚ) < interval := by
      simp only [takesReading, Bool.and_eq_true, decide_eq_true_eq] at htake
      exact not_lt.mpr htake.2
    have hrv := readValue_error_iff (u.rrd.dsDef k).dst (u.updvals (k + 1))
      (u.rrd.pdpPrep k).lastDs interval
    have hdef : (u.prepared interval k).rrd.dsDef = u.rrd.dsDef := rfl
    have hval : (u.prepared interval k).updvals = u.updvals := rfl
    rw [Upd.refuses, htake, Bool.true_and]
    cases hr : readValue (u.rrd.dsDef k).dst (u.updvals (k + 1)) (u.rrd.pdpPrep k).lastDs
        interval with
    | error e =>
      have hfail : updatePdpPrepDs interval k (u.prepared interval k) =
          .fail e (u.prepared interval k) := by
        simp only [updatePdpPrepDs, hdef, hval, if_neg hbeat, htake, if_true, hprep, hr]
      exact ⟨fun _ => ⟨e, hfail⟩, fun hf => by simp [hrv.mp ⟨e, hr⟩] at hf⟩
    | ok p =>
      refine ⟨fun hf => ?_, fun _ => ?_⟩
      · obtain ⟨e, he⟩ := hrv.mpr hf
        simp [hr] at he
      · rw [hnext]
        simp only [updatePdpPrepDs, hdef, hval, if_neg hbeat, htake, if_true, hprep, hr,
          Upd.newPdp, Upd.stored]
        rfl
  · -- the reading is not looked at
    have hskip : takesReading (u.rrd.dsDef k) (u.updvals (k + 1)) interval = false := by
      simpa using htake
    refine ⟨fun hr => by simp [Upd.refuses, hskip] at hr, fun _ => ?_⟩
    have hdef : (u.prepared interval k).rrd.dsDef = u.rrd.dsDef := rfl
    have hval : (u.prepared interval k).updvals = u.updvals := rfl
    rw [hnext]
    simp only [updatePdpPrepDs, hdef, hval, Upd.newPdp, Upd.stored, hskip, Bool.false_eq_true,
      if_false]
    split_ifs
    · simp only [Function.update_self, Function.update_idem, hprep]
      rfl
    · simp only [hprep]
      rfl

/-- **The first `k` passes of `update_pdp_prep`** return if and only if none of their readings
is refused. -/
theorem updatePdpPrep_loop {interval : ℚ} {k : ℕ} {w : Upd} :
    forLoopE k (updatePdpPrepDs interval) u = .ok w ↔
      (∀ i, i < k → u.refuses interval i = false) ∧ w = u.prepared interval k := by
  induction k generalizing w with
  | zero =>
    rw [forLoopE_zero, Outcome.ok.injEq, Upd.prepared_zero]
    exact ⟨fun h => ⟨fun i hi => absurd hi (Nat.not_lt_zero i), h.symm⟩, fun h => h.2.symm⟩
  | succ k ih =>
    rw [forLoopE_succ, Outcome.andThen_eq_ok]
    obtain ⟨hbad, hgood⟩ := updatePdpPrepDs_eq u interval k
    constructor
    · rintro ⟨v, hv, hw⟩
      obtain ⟨hlt, rfl⟩ := ih.mp hv
      have hk : u.refuses interval k = false := by
        cases hr : u.refuses interval k with
        | false => rfl
        | true =>
          obtain ⟨e, he⟩ := hbad hr
          simp [he] at hw
      rw [hgood hk] at hw
      refine ⟨fun i hi => ?_, (Outcome.ok.inj hw).symm⟩
      rcases Nat.lt_succ_iff_lt_or_eq.mp hi with hi' | rfl
      · exact hlt i hi'
      · exact hk
    · rintro ⟨hlt, rfl⟩
      exact ⟨_, ih.mpr ⟨fun i hi => hlt i (Nat.lt_succ_of_lt hi), rfl⟩,
        hgood (hlt k (Nat.lt_succ_self k))⟩

/-- DS `j` is the first whose reading is refused. -/
def Upd.FirstRefused (u : Upd) (interval : ℚ) (j : ℕ) : Prop :=
  j < u.rrd.dsCnt ∧ u.refuses interval j = true ∧ ∀ i, i < j → u.refuses interval i = false

/-- **A refused reading** leaves the new `last_ds` of the DSs before its own. -/
theorem updatePdpPrep_fail {interval : ℚ} {e : UpdError}
    (h : updatePdpPrep interval u = .fail e t) :
    ∃ j, u.FirstRefused interval j ∧ t = u.prepared interval j := by
  obtain ⟨j, w, hj, hw, hf⟩ := forLoopE_eq_fail.mp h
  obtain ⟨hlt, rfl⟩ := updatePdpPrep_loop.mp hw
  obtain ⟨hbad, hgood⟩ := updatePdpPrepDs_eq u interval j
  cases hr : u.refuses interval j with
  | false => simp [hgood hr] at hf
  | true =>
    obtain ⟨e', he⟩ := hbad hr
    rw [he] at hf
    obtain ⟨-, rfl⟩ := Outcome.fail.inj hf
    exact ⟨j, ⟨hj, hr, hlt⟩, rfl⟩

/-! ## The PDPs of an argument -/

/-- The `pdp_prep` of DS `i` once `process_pdp_st` has made it ready for future
calculations. -/
def Upd.ready (w : Upd) (interval postInt : ℚ) (i : ℕ) : PdpPrep :=
  if (w.pdpNew i).isnan then
    { w.rrd.pdpPrep i with unknSecCnt := ⌊postInt⌋.toNat, pdpVal := dnan }
  else
    { w.rrd.pdpPrep i with
      unknSecCnt := 0, pdpVal := w.pdpNew i / .num interval * .num postInt }

section Pdps

variable {lib : Libm} {interval preInt postInt : ℚ} {diff : ℕ}

/-- One pass that returns has made its DS ready. -/
theorem processPdpSt_ok {i : ℕ} (h : processPdpSt lib interval preInt postInt diff i s = .ok t) :
    t.rrd = { s.rrd with
      pdpPrep := Function.update s.rrd.pdpPrep i (s.ready interval postInt i) } ∧
      t.pdpNew = s.pdpNew := by
  simp only [processPdpSt] at h
  split at h
  · split at h
    · exact absurd h (by simp)
    · obtain rfl := Outcome.ok.inj h
      refine ⟨?_, rfl⟩
      simp only [Upd.ready, Function.update_idem]
      split_ifs <;> rfl
  · obtain rfl := Outcome.ok.inj h
    refine ⟨?_, rfl⟩
    simp only [Upd.ready, Function.update_idem]
    split_ifs <;> rfl

/-- One pass that fails is one of a `COMPUTE` DS, and has changed nothing. -/
theorem processPdpSt_fail {i : ℕ} {e : UpdError} (hnan : (s.rrd.dsDef i).dst = .cdef →
    (s.pdpNew i).isnan = true)
    (h : processPdpSt lib interval preInt postInt diff i s = .fail e t) : t.rrd = s.rrd := by
  simp only [processPdpSt] at h
  split at h
  · rename_i hc
    split at h
    · obtain ⟨-, rfl⟩ := Outcome.fail.inj h
      simp [hnan hc]
    · exact absurd h (by simp)
  · exact absurd h (by simp)

/-- The first `k` passes of `process_all_pdp_st` have made `k` DSs ready. -/
theorem processPdpSt_loop {k : ℕ}
    (h : forLoopE k (processPdpSt lib interval preInt postInt diff) s = .ok t) :
    t.rrd = { s.rrd with
      pdpPrep := fun i => if i < k then s.ready interval postInt i else s.rrd.pdpPrep i } ∧
      t.pdpNew = s.pdpNew := by
  refine forLoopE_invariant (fun k t => t.rrd = { s.rrd with
      pdpPrep := fun i => if i < k then s.ready interval postInt i else s.rrd.pdpPrep i } ∧
      t.pdpNew = s.pdpNew) ⟨by simp, rfl⟩ ?_ h
  rintro i u v - ⟨hrrd, hnew⟩ hv
  obtain ⟨hrrd', hnew'⟩ := processPdpSt_ok hv
  have hready : u.ready interval postInt i = s.ready interval postInt i := by
    simp only [Upd.ready, hrrd, hnew, lt_irrefl, if_false]
  refine ⟨?_, hnew'.trans hnew⟩
  rw [hrrd', hready, hrrd]
  simp only [update_below]

end Pdps

/-- The elapsed steps of a parsed argument. -/
def Upd.elapsed (u : Upd) (interval : ℚ) : Elapsed :=
  calculateElapsedSteps u.rrd u.currentTime.toNat u.currentTimeUsec interval

/-- No reading is refused, the argument crosses a step, and DS `j` is the first whose
`COMPUTE` program fails. -/
def Upd.FirstFailing (u : Upd) (lib : Libm) (interval : ℚ) (j : ℕ) : Prop :=
  (∀ i, i < u.rrd.dsCnt → u.refuses interval i = false) ∧ j < u.rrd.dsCnt ∧
    (u.elapsed interval).elapsedPdpSt ≠ 0 ∧
    let body := processPdpSt lib interval (u.elapsed interval).preInt (u.elapsed interval).postInt
      ((u.elapsed interval).elapsedPdpSt * u.rrd.pdpStep)
    ∃ w e x, forLoopE j body (u.prepared interval u.rrd.dsCnt) = .ok w ∧ body j w = .fail e x

/-- **A failure without a trace.** What would have been stored before the failure was met is
what the file holds: the readings as `last_ds` before a reading that is refused; before a
failing `COMPUTE` program all of them, and the scratch values of the DSs before its own. -/
def FailsClean (env : Env) (arg : Text) (s : Upd) : Prop :=
  ∀ u, parseDs env arg s = .ok u →
    let interval := updateInterval u
    (∀ j, u.FirstRefused interval j → ∀ i, i < j → u.stored i = u.rrd.pdpPrep i) ∧
    ∀ j, u.FirstFailing env.lib interval j →
      (∀ i, i < u.rrd.dsCnt → u.stored i = u.rrd.pdpPrep i) ∧
      ∀ i, i < j → (u.prepared interval u.rrd.dsCnt).ready interval
        (u.elapsed interval).postInt i = u.rrd.pdpPrep i

/-- The same, of an argument that has been parsed. -/
def Traceless (env : Env) (u : Upd) : Prop :=
  let interval := updateInterval u
  (∀ j, u.FirstRefused interval j → ∀ i, i < j → u.stored i = u.rrd.pdpPrep i) ∧
  ∀ j, u.FirstFailing env.lib interval j →
    (∀ i, i < u.rrd.dsCnt → u.stored i = u.rrd.pdpPrep i) ∧
    ∀ i, i < j → (u.prepared interval u.rrd.dsCnt).ready interval
      (u.elapsed interval).postInt i = u.rrd.pdpPrep i

theorem Rrd.with_pdpPrep_eq_iff {r : Rrd} {f : ℕ → PdpPrep} :
    { r with pdpPrep := f } = r ↔ f = r.pdpPrep := by
  refine ⟨fun h => ?_, fun h => by rw [h]⟩
  have := congrArg Rrd.pdpPrep h
  exact this

theorem ite_lt_eq_iff {α : Type} {k : ℕ} {f g : ℕ → α} :
    (fun i => if i < k then f i else g i) = g ↔ ∀ i, i < k → f i = g i := by
  refine ⟨fun h i hi => by simpa [hi] using congrFun h i, fun h => funext fun i => ?_⟩
  split_ifs with hi
  · exact h i hi
  · rfl

theorem Upd.FirstRefused.unique {u : Upd} {interval : ℚ} {j k : ℕ}
    (hj : u.FirstRefused interval j) (hk : u.FirstRefused interval k) : j = k := by
  rcases lt_trichotomy j k with h | h | h
  · simpa [hj.2.1] using hk.2.2 j h
  · exact h
  · simpa [hk.2.1] using hj.2.2 k h

/-- A loop fails in one pass only. -/
theorem Upd.FirstFailing.unique {u : Upd} {lib : Libm} {interval : ℚ} {j k : ℕ}
    (hj : u.FirstFailing lib interval j) (hk : u.FirstFailing lib interval k) : j = k := by
  obtain ⟨-, hjn, -, w, e, x, hw, hx⟩ := hj
  obtain ⟨-, hkn, -, w', e', x', hw', hx'⟩ := hk
  rcases lt_trichotomy j k with h | h | h
  · have := forLoopE_eq_fail.mpr ⟨j, w, h, hw, hx⟩
    simp [this] at hw'
  · exact h
  · have := forLoopE_eq_fail.mpr ⟨k, w', h, hw', hx'⟩
    simp [this] at hw

/-- **A failing `COMPUTE` program** leaves the readings of all DSs as `last_ds`, and the DSs
before its own ready for the next update. -/
theorem processPdps_fail {interval : ℚ} {e : UpdError} (hs : Sound u)
    (hgood : ∀ i, i < u.rrd.dsCnt → u.refuses interval i = false)
    (h : processPdps env interval (u.prepared interval u.rrd.dsCnt) = .fail e t) :
    ∃ j, u.FirstFailing env.lib interval j ∧ t.rrd = { u.rrd with
      pdpPrep := fun i =>
        if i < j then (u.prepared interval u.rrd.dsCnt).ready interval (u.elapsed interval).postInt i
        else if i < u.rrd.dsCnt then u.stored i else u.rrd.pdpPrep i } := by
  have hsv : Sound (u.prepared interval u.rrd.dsCnt) := PdpFrame.sound ⟨_, _, u.pdpTemp, rfl⟩ hs
  have hel : (u.elapsed interval).elapsedPdpSt ≠ 0 := by
    intro hz
    obtain ⟨w, hw, -⟩ : ∃ w, processPdps env interval (u.prepared interval u.rrd.dsCnt) = .ok w ∧
        Sound w := processPdps_total hsv (.inl hz)
    simp [hw] at h
  cases hall : processAllPdpSt env.lib interval (u.elapsed interval)
      (u.prepared interval u.rrd.dsCnt) with
  | ok w =>
    obtain ⟨x, hx, -⟩ : ∃ x, processPdps env interval (u.prepared interval u.rrd.dsCnt) = .ok x ∧
        Sound x := processPdps_total hsv (.inr ⟨w, hall⟩)
    simp [hx] at h
  | fail e' t' =>
    have hfail : processPdps env interval (u.prepared interval u.rrd.dsCnt) = .fail e' t' := by
      have hel' : (calculateElapsedSteps (u.prepared interval u.rrd.dsCnt).rrd
        (u.prepared interval u.rrd.dsCnt).currentTime.toNat
        (u.prepared interval u.rrd.dsCnt).currentTimeUsec interval) = u.elapsed interval := rfl
      simp only [processPdps, hel', if_neg hel, hall, Outcome.fail_andThen]
    obtain ⟨-, rfl⟩ := Outcome.fail.inj (hfail.symm.trans h)
    obtain ⟨j, w, hj, hw, hf⟩ := forLoopE_eq_fail.mp hall
    obtain ⟨hrrd, hnew⟩ := processPdpSt_loop hw
    refine ⟨j, ⟨hgood, hj, hel, w, e', _, hw, hf⟩, ?_⟩
    rw [processPdpSt_fail ?_ hf, hrrd]
    · rfl
    · -- a `COMPUTE` DS never takes a reading
      intro hc
      have hdst : (u.rrd.dsDef j).dst = .cdef := by
        rw [hrrd] at hc
        exact hc
      have hskip : takesReading (u.rrd.dsDef j) (u.updvals (j + 1)) interval = false := by
        simp [takesReading, hdst]
      have hval : w.pdpNew j = dnan := by
        rw [hnew]
        have hj' : j < u.rrd.dsCnt := hj
        simp [Upd.prepared, hj', Upd.newPdp, hskip]
      rw [hval]
      rfl

/-- A DS that is ready as it was has its reading as `last_ds` already. -/
theorem Upd.stored_of_ready {interval postInt : ℚ} {i : ℕ} (hi : i < u.rrd.dsCnt)
    (h : (u.prepared interval u.rrd.dsCnt).ready interval postInt i = u.rrd.pdpPrep i) :
    u.stored i = u.rrd.pdpPrep i := by
  have hlast : (u.stored i).lastDs = (u.rrd.pdpPrep i).lastDs := by
    rw [← h]
    have hprep : (u.prepared interval u.rrd.dsCnt).rrd.pdpPrep i = u.stored i := by
      simp [Upd.prepared, hi]
    simp only [Upd.ready, hprep]
    split_ifs <;> rfl
  change { u.rrd.pdpPrep i with lastDs := (u.stored i).lastDs } = _
  rw [hlast]

/-- **Readings that fail** change `pdp_prep` at most, and not even this without a trace. -/
theorem processReadings_fail {e : UpdError} (hs : Sound u) (h : processReadings env u = .fail e t) :
    (∃ f, t.rrd = { u.rrd with pdpPrep := f }) ∧ (t.rrd = u.rrd ↔ Traceless env u) := by
  rcases Outcome.andThen_eq_fail.mp h with h | ⟨v, -, h⟩
  swap
  · exact absurd h (by simp)
  rcases Outcome.andThen_eq_fail.mp h with h | ⟨v, hv, h⟩
  · -- a reading is refused
    obtain ⟨j, hj, rfl⟩ := updatePdpPrep_fail h
    have hno : ∀ k, ¬u.FirstFailing env.lib (updateInterval u) k := by
      intro k hk
      simpa [hj.2.1] using hk.1 j hj.1
    have hiff : (u.prepared (updateInterval u) j).rrd = u.rrd ↔
        ∀ i, i < j → u.stored i = u.rrd.pdpPrep i :=
      Rrd.with_pdpPrep_eq_iff.trans ite_lt_eq_iff
    refine ⟨⟨_, rfl⟩, ?_⟩
    rw [hiff]
    refine ⟨fun hi => ⟨fun k hk => ?_, fun k hk => absurd hk (hno k)⟩, fun hi => hi.1 j hj⟩
    obtain rfl := hj.unique hk
    exact hi
  · -- a `COMPUTE` program fails
    obtain ⟨hgood, rfl⟩ := updatePdpPrep_loop.mp hv
    obtain ⟨j, hj, htr⟩ := processPdps_fail hs hgood h
    have hno : ∀ k, ¬u.FirstRefused (updateInterval u) k := by
      intro k hk
      simpa [hk.2.1] using hgood k hk.1
    refine ⟨⟨_, htr⟩, ?_⟩
    rw [htr, Rrd.with_pdpPrep_eq_iff]
    constructor
    · intro heq
      have hready : ∀ i, i < j → (u.prepared (updateInterval u) u.rrd.dsCnt).ready
          (updateInterval u) (u.elapsed (updateInterval u)).postInt i = u.rrd.pdpPrep i :=
        fun i hi => by simpa [hi] using congrFun heq i
      refine ⟨fun k hk => absurd hk (hno k), fun k hk => ?_⟩
      obtain rfl := hj.unique hk
      refine ⟨fun i hi => ?_, hready⟩
      by_cases hij : i < j
      · exact Upd.stored_of_ready hi (hready i hij)
      · simpa [hi, hij] using congrFun heq i
    · rintro ⟨-, hc⟩
      obtain ⟨hst, hready⟩ := hc j hj
      funext i
      split_ifs with hij hi
      · exact hready i hij
      · exact hst i hi
      · rfl

theorem ParseFrame.sound (hf : ParseFrame s t) (h : Sound s) : Sound t := by
  have hd := hf.sameDefs
  obtain ⟨_, _, _, rfl⟩ := hf
  exact h.congr hd h.error

theorem ParseFrame.rrd (hf : ParseFrame s t) : t.rrd = s.rrd := by
  obtain ⟨_, _, _, rfl⟩ := hf
  rfl

/-- **One failed argument.** -/
theorem processArg_fail_iff {arg : Text} {e : UpdError} (hs : Sound s)
    (h : processArg env arg s = .fail e t) : t.rrd = s.rrd ↔ FailsClean env arg s := by
  have hparse : ParseFrame s (parseDs env arg s).state := parseDs_state arg s
  rcases Outcome.andThen_eq_fail.mp h with hp | ⟨u, hu, h⟩
  · -- refused by the parser or the check of the time
    rw [hp] at hparse
    exact ⟨fun _ u hu => by simp [hp] at hu, fun _ => hparse.rrd⟩
  · rw [hu] at hparse
    have hclean : FailsClean env arg s ↔ Traceless env u := by
      refine ⟨fun hc => hc u hu, fun hc v hv => ?_⟩
      obtain rfl := Outcome.ok.inj (hu.symm.trans hv)
      exact hc
    have hrrd : u.rrd = s.rrd := hparse.rrd
    rw [hclean, ← hrrd]
    exact (processReadings_fail (hparse.sound hs) h).2

/-! ## Calls -/

/-- Readings that are taken leave no error pending. -/
theorem processReadings_sound (hs : Sound u) (h : processReadings env u = .ok t) : Sound t := by
  obtain ⟨w, hw, ht⟩ := Outcome.andThen_eq_ok.mp h
  obtain ⟨v, hv, hw⟩ := Outcome.andThen_eq_ok.mp hw
  obtain rfl := Outcome.ok.inj ht
  have hf : PdpFrame u v := Outcome.of_state_ok hv (updatePdpPrep_state _ u)
  have hdone : ∃ x, processPdps env (updateInterval u) v = .ok x ∧ Sound x := by
    refine processPdps_total (hf.sound hs) ?_
    rcases processPdps_eq_ok hw with ⟨hz, -⟩ | ⟨-, x, -, -, hx, -⟩
    · exact .inl hz
    · exact .inr ⟨x, hx⟩
  obtain ⟨x, hx, hsx⟩ := hdone
  obtain rfl := Outcome.ok.inj (hx.symm.trans hw)
  exact hsx.congr ⟨rfl, rfl, rfl, rfl, rfl, rfl, rfl⟩ hsx.error

theorem processArg_sound {arg : Text} (hs : Sound s) (h : processArg env arg s = .ok t) :
    Sound t := by
  obtain ⟨u, hu, ht⟩ := Outcome.andThen_eq_ok.mp h
  have hf : ParseFrame s u := Outcome.of_state_ok hu (parseDs_state arg s)
  exact processReadings_sound (hf.sound hs) ht

/-- The argument that a call failed on, and the state it was met in. -/
theorem processArgs_fail {args : List Text} {e : UpdError} (hs : Sound s)
    (h : processArgs env args s = .fail e t) :
    ∃ k arg u, args[k]? = some arg ∧ processArgs env (args.take k) s = .ok u ∧ Sound u ∧
      processArg env arg u = .fail e t := by
  induction args generalizing s with
  | nil => exact absurd h (by simp [processArgs])
  | cons arg args ih =>
    rcases Outcome.andThen_eq_fail.mp h with hf | ⟨u, hu, hrest⟩
    · exact ⟨0, arg, s, rfl, rfl, hs, hf⟩
    · obtain ⟨k, arg', v, hk, hv, hsv, hf⟩ := ih (processArg_sound hs hu) hrest
      refine ⟨k + 1, arg', v, by simpa using hk, ?_, hsv, hf⟩
      rw [List.take_succ_cons, processArgs, hu, Outcome.ok_andThen]
      exact hv

/-- **Atomicity of a failed argument.** A call that fails on argument `k` leaves the file as
the arguments before `k` left it if and only if that failure was one without a trace. -/
theorem failed_update_atomic_iff {junk : Upd} {args : List Text} {rrd rrd' : Rrd} {e : UpdError}
    (ho : rrd.Openable) (h : rrdUpdate env junk args rrd = .fail e rrd') :
    ∃ k arg s, args[k]? = some arg ∧
      processArgs env (args.take k) (junk.start rrd) = .ok s ∧
      (processArg env arg s).isOk = false ∧ (rrd' = s.rrd ↔ FailsClean env arg s) := by
  simp only [rrdUpdate] at h
  split at h
  · rename_i e' t ht
    obtain ⟨-, rfl⟩ := Outcome.fail.inj h
    obtain ⟨k, arg, s, hk, hs, hsound, hf⟩ := processArgs_fail ⟨ho, rfl⟩ ht
    exact ⟨k, arg, s, hk, hs, by rw [hf]; rfl, processArg_fail_iff hsound hf⟩
  · exact absurd h (by simp)

/-- The second reading is refused; the first one is unknown, as `last_ds` was. -/
theorem pair_refused_clean :
    let r := rrdCreateFn .pair fun _ => 0
    (rrdUpdate .bare (.blank r) ["1200:U:x".toList] r).isOk = false ∧
      (rrdUpdate .bare (.blank r) ["1200:U:x".toList] r).state = r := by
  intro r
  have hbad : (rrdUpdate .bare (.blank r) ["1200:U:x".toList] r).isOk = false := by
    decide +kernel
  refine ⟨hbad, ?_⟩
  cases h : rrdUpdate .bare (.blank r) ["1200:U:x".toList] r with
  | ok r' =>
    rw [h] at hbad
    exact absurd hbad (by simp)
  | fail e r' =>
    obtain ⟨k, arg, s, hk, hs, -, hiff⟩ := failed_update_atomic_iff (openable_create _ _) h
    have hk0 : k = 0 := by
      by_contra hne
      rw [List.getElem?_eq_none (by simp; omega)] at hk
      exact absurd hk (by simp)
    subst hk0
    obtain rfl := Outcome.ok.inj hs
    obtain rfl := Option.some.inj hk
    refine hiff.mpr fun u hu => ?_
    have hsu : (parseDs .bare "1200:U:x".toList ((Upd.blank r).start r)).state = u := by
      rw [hu]
      rfl
    subst hsu
    refine ⟨fun j hj i hi => ?_, fun j hj => absurd (hj.1 1 (by decide +kernel)) (by decide +kernel)⟩
    have hj2 : j < 2 := hj.1.trans_le (by decide +kernel)
    obtain rfl : i = 0 := by omega
    decide +kernel

/-- The second reading is refused, but the first one stays as `last_ds`. -/
theorem pair_refused_reading :
    let r := rrdCreateFn .pair fun _ => 0
    let o := rrdUpdate .bare (.blank r) ["1200:5:x".toList] r
    o.isOk = false ∧ (o.state.pdpPrep 0).lastDs = ['5'] ∧ o.state ≠ r := by
  intro r o
  have hlast : (o.state.pdpPrep 0).lastDs = ['5'] := by decide +kernel
  refine ⟨by decide +kernel, hlast, fun heq => ?_⟩
  rw [heq] at hlast
  exact absurd hlast (by decide)

end Rrdtool
