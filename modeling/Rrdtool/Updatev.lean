import Rrdtool.Atomic
import Rrdtool.Fetch

/-!
# `rrd_updatev`

`rrd_updatev` returns what an update has written. `write_to_rras` and `write_RRA_row` push every value
to an `rrd_info` list, under a key with the time of its row; the rest of the update is the same.

* `forget_writeToRrasV` — the list changes nothing;
* `updatev_times_iff` — but the times in it are those of the rows only where one row is written.
-/

namespace Rrdtool

open Loop

/-! ## `write_to_rras` with a summary -/

/-- An entry of `pcdp_summary`. The key holds the time, `cf_nam`, `pdp_cnt` and `ds_nam`, so the last
three are written here as the indices of the RRA and the DS. -/
structure RowInfo : Type where
  /-- the RRA -/
  rra : ℕ
  /-- the DS -/
  ds : ℕ
  /-- `rra_time` -/
  time : ℤ
  /-- the value -/
  value : RrdValue

/-- An update with its summary. -/
structure Reported : Type where
  upd : Upd
  /-- `pcdp_summary` -/
  summary : List RowInfo

/-- Push an entry and write its value. -/
def Reported.write (v : RrdValue) (info : RowInfo) (s : Reported) : Outcome UpdError Reported :=
  match rrdWrite v s.upd with
  | .ok u => .ok ⟨u, s.summary ++ [info]⟩
  | .fail e u => .fail e ⟨u, s.summary ++ [info]⟩

/-- `write_RRA_row` -/
def writeRRARowV (rraIdx : ℕ) (sc : ScratchIdx) (rraTime : ℤ) (s : Reported) :
    Outcome UpdError Reported :=
  forLoopE s.upd.rrd.dsCnt (fun dsIdx s =>
    let v := (s.upd.rrd.cdpPrep (s.upd.rrd.cdpIdx rraIdx dsIdx)).scratch sc
    s.write v ⟨rraIdx, dsIdx, rraTime, v⟩) s

/-- `rra_time`: computed in an `unsigned long`, and stored into a `time_t`. -/
def rraTime (r : Rrd) (rraIdx rraStepCnt stepSubtract : ℕ) (currentTime : ℤ) : ℤ :=
  let stepTime := ulong ((r.rraDef rraIdx).pdpCnt * r.pdpStep)
  ((currentTime - umod currentTime stepTime) - ((rraStepCnt : ℤ) - stepSubtract) * stepTime).bmod (2 ^ 64)

/-- One pass of the inner loop of `write_to_rras`. -/
def writeNextRowV (rraIdx rraStepCnt : ℕ) (sc : ScratchIdx) (stepSubtract : ℕ) (s : Reported) :
    Outcome UpdError Reported :=
  let u : Reported := { s with upd := seekNextRow rraIdx s.upd }
  if u.upd.skipUpdate rraIdx then .ok u
  else
    (writeRRARowV rraIdx sc (rraTime s.upd.rrd rraIdx rraStepCnt stepSubtract s.upd.currentTime) u).andThen
      fun t => .ok { t with upd := { t.upd with notified := t.upd.notified ++ [(rraIdx, u.upd.pos)] } }

/-- The inner loop of `write_to_rras`. -/
def writeRowsV (rraIdx : ℕ) : ℕ → ScratchIdx → ℕ → Reported → Outcome UpdError Reported
  | 0, _, _, s => .ok s
  | n + 1, sc, stepSubtract, s => (writeNextRowV rraIdx (n + 1) sc stepSubtract s).andThen fun s =>
    writeRowsV rraIdx n .secondary 2
      { s with upd := { s.upd with rraStepCnt := Function.update s.upd.rraStepCnt rraIdx n } }

/-- `write_to_rras` -/
def writeToRrasV (s : Reported) : Outcome UpdError Reported :=
  forLoopE s.upd.rrd.rraCnt (fun rraIdx s =>
    writeRowsV rraIdx (s.upd.rraStepCnt rraIdx) .primary 1 s) s

/-! ## Without the summary -/

/-- Leave the summary out. -/
def forget : Outcome UpdError Reported → UpdResult
  | .ok s => .ok s.upd
  | .fail e s => .fail e s.upd

theorem forget_andThen {o : Outcome UpdError Reported} {f : Reported → Outcome UpdError Reported}
    {g : Upd → UpdResult} (h : ∀ s, forget (f s) = g s.upd) :
    forget (o.andThen f) = (forget o).andThen g := by
  cases o with
  | ok s => exact h s
  | fail e s => rfl

theorem forget_forLoopE {n : ℕ} {body : ℕ → Reported → Outcome UpdError Reported}
    {body' : ℕ → Upd → UpdResult} (h : ∀ i s, forget (body i s) = body' i s.upd) (s : Reported) :
    forget (forLoopE n body s) = forLoopE n body' s.upd := by
  induction n with
  | zero => rfl
  | succ n ih =>
    rw [forLoopE_succ, forLoopE_succ, ← ih]
    exact forget_andThen (h n)

theorem forget_write (v : RrdValue) (info : RowInfo) (s : Reported) :
    forget (s.write v info) = rrdWrite v s.upd := by
  unfold Reported.write
  cases rrdWrite v s.upd <;> rfl

theorem forget_writeNextRowV (rraIdx rraStepCnt : ℕ) (sc : ScratchIdx) (stepSubtract : ℕ)
    (s : Reported) :
    forget (writeNextRowV rraIdx rraStepCnt sc stepSubtract s) = writeNextRow rraIdx sc s.upd := by
  unfold writeNextRowV writeNextRow
  dsimp only
  split
  · rfl
  · rw [@forget_andThen _ _ (fun t : Upd => .ok
      { t with notified := t.notified ++ [(rraIdx, (seekNextRow rraIdx s.upd).pos)] }) fun _ => rfl]
    congr 1
    unfold writeRRARowV writeRRARow
    exact forget_forLoopE (fun d s => forget_write
      ((s.upd.rrd.cdpPrep (s.upd.rrd.cdpIdx rraIdx d)).scratch sc) _ s) _

theorem forget_writeRowsV (rraIdx n : ℕ) (sc : ScratchIdx) (stepSubtract : ℕ) (s : Reported) :
    forget (writeRowsV rraIdx n sc stepSubtract s) = writeRows rraIdx n sc s.upd := by
  induction n generalizing sc stepSubtract s with
  | zero => rfl
  | succ n ih =>
    unfold writeRowsV writeRows
    rw [← forget_writeNextRowV rraIdx (n + 1) sc stepSubtract s]
    exact forget_andThen fun s => ih .secondary 2 _

/-- **The summary changes nothing.** -/
theorem forget_writeToRrasV (s : Reported) : forget (writeToRrasV s) = writeToRras s.upd :=
  forget_forLoopE (fun i s => forget_writeRowsV i (s.upd.rraStepCnt i) .primary 1 s) s

theorem RowFrame.of_forget {o : Outcome UpdError Reported} {o' : UpdResult} {s : Upd} {t : Reported}
    (h : o = .ok t) (hforget : forget o = o') (hframe : RowFrame s o'.state) : RowFrame s t.upd := by
  subst h
  rwa [← hforget] at hframe

/-- `process_arg` between `update_pdp_prep` and `write_to_rras`, when a step has elapsed. -/
def prepareRows (env : Env) (interval : ℚ) (s : Upd) : UpdResult :=
  let el := s.elapsed interval
  ((processAllPdpSt env.lib interval el s).andThen
    (updateAllCdpPrep el.elapsedPdpSt el.procPdpCnt)).andThen (updateAberrantCdps el.elapsedPdpSt)

theorem processPdps_eq_rows {env : Env} {interval : ℚ} {s : Upd}
    (h : (s.elapsed interval).elapsedPdpSt ≠ 0) :
    processPdps env interval s = (prepareRows env interval s).andThen writeToRras := if_neg h

/-! ## The times -/

/-- The times under which the values of DS `d` in RRA `i` are reported, in the order of the rows. -/
def timesOf (summary : List RowInfo) (i d : ℕ) : List ℤ :=
  (summary.filter fun e => e.rra = i ∧ e.ds = d).map RowInfo.time

/-- The times of `n` rows. -/
def rowTimes (r : Rrd) (rraIdx : ℕ) (currentTime : ℤ) : (n stepSubtract : ℕ) → List ℤ
  | 0, _ => []
  | n + 1, stepSubtract =>
    rraTime r rraIdx (n + 1) stepSubtract currentTime :: rowTimes r rraIdx currentTime n 2

variable {s t : Reported} {i d : ℕ}

theorem timesOf_push (summary : List RowInfo) (info : RowInfo) (i d : ℕ) :
    timesOf (summary ++ [info]) i d =
      timesOf summary i d ++ if info.rra = i ∧ info.ds = d then [info.time] else [] := by
  simp only [timesOf, List.filter_append, List.map_append]
  congr 1
  by_cases h : info.rra = i ∧ info.ds = d <;> simp [h]

theorem write_times {v : RrdValue} {info : RowInfo} (h : s.write v info = .ok t) :
    timesOf t.summary i d =
      timesOf s.summary i d ++ if info.rra = i ∧ info.ds = d then [info.time] else [] := by
  unfold Reported.write at h
  cases hw : rrdWrite v s.upd with
  | fail e u => simp [hw] at h
  | ok u =>
    simp only [hw] at h
    obtain rfl := Outcome.ok.inj h
    exact timesOf_push s.summary info i d

/-- One row has one time. -/
theorem writeRRARowV_times {rraIdx : ℕ} {sc : ScratchIdx} {time : ℤ}
    (h : writeRRARowV rraIdx sc time s = .ok t) :
    timesOf t.summary i d =
      timesOf s.summary i d ++ if rraIdx = i ∧ d < s.upd.rrd.dsCnt then [time] else [] := by
  refine forLoopE_invariant (fun k u => timesOf u.summary i d =
    timesOf s.summary i d ++ if rraIdx = i ∧ d < k then [time] else []) (by simp) ?_ h
  intro k u v _ hu hv
  rw [write_times hv, hu, List.append_assoc]
  congr 1
  by_cases hi : rraIdx = i
  · rcases Nat.lt_trichotomy d k with hlt | rfl | hgt
    · simp [hi, hlt, Nat.lt_succ_of_lt hlt, Nat.ne_of_gt hlt]
    · simp [hi]
    · simp [hi, not_lt.mpr (Nat.succ_le_of_lt hgt), not_lt.mpr hgt.le, Nat.ne_of_lt hgt]
  · simp [hi]

theorem writeNextRowV_times {rraIdx cnt sub : ℕ} {sc : ScratchIdx}
    (h : writeNextRowV rraIdx cnt sc sub s = .ok t) :
    timesOf t.summary i d = timesOf s.summary i d ++
      if rraIdx = i ∧ d < s.upd.rrd.dsCnt ∧ s.upd.skipUpdate rraIdx = false
        then [rraTime s.upd.rrd rraIdx cnt sub s.upd.currentTime] else [] := by
  unfold writeNextRowV at h
  dsimp only at h
  have hskip : (seekNextRow rraIdx s.upd).skipUpdate = s.upd.skipUpdate := rfl
  rw [hskip] at h
  cases hs : s.upd.skipUpdate rraIdx with
  | true =>
    rw [hs, if_pos rfl] at h
    obtain rfl := Outcome.ok.inj h
    simp
  | false =>
    rw [hs, if_neg Bool.false_ne_true] at h
    obtain ⟨u, hu, ht⟩ := Outcome.andThen_eq_ok.mp h
    obtain rfl := Outcome.ok.inj ht
    have hrow := @writeRRARowV_times _ _ i d _ _ _ hu
    have hds : (seekNextRow rraIdx s.upd).rrd.dsCnt = s.upd.rrd.dsCnt := rfl
    simpa [hds] using hrow

theorem writeNextRow_rraStepCnt (rraIdx : ℕ) (sc : ScratchIdx) (s : Upd) :
    (writeNextRow rraIdx sc s).state.rraStepCnt = s.rraStepCnt := by
  unfold writeNextRow
  dsimp only
  split
  · rfl
  · refine Outcome.andThen_state (P := fun u : Upd => u.rraStepCnt = s.rraStepCnt) ?_ fun _ hu => hu
    refine forLoopE_state (fun u : Upd => u.rraStepCnt = s.rraStepCnt) rfl fun d u _ hu => ?_
    unfold rrdWrite
    split_ifs
    · exact hu
    · exact hu

/-- The rows of one RRA are counted for this RRA only. -/
theorem writeRows_rraStepCnt {rraIdx j : ℕ} (hj : j ≠ rraIdx) (n : ℕ) (sc : ScratchIdx) (s : Upd) :
    (writeRows rraIdx n sc s).state.rraStepCnt j = s.rraStepCnt j := by
  induction n generalizing sc s with
  | zero => rfl
  | succ n ih =>
    unfold writeRows
    have hnext := congrFun (writeNextRow_rraStepCnt rraIdx sc s) j
    refine Outcome.andThen_state (P := fun u : Upd => u.rraStepCnt j = s.rraStepCnt j) hnext
      fun u hu => ?_
    rw [ih]
    exact (Function.update_of_ne hj n u.rraStepCnt).trans hu

theorem RowFrame.rowTimes_eq {u v : Upd} (h : RowFrame u v) (i : ℕ) :
    rowTimes v.rrd i v.currentTime = rowTimes u.rrd i u.currentTime := by
  obtain ⟨_, _, _, _, _, rfl⟩ := h
  funext n sub
  induction n generalizing sub with
  | zero => rfl
  | succ n ih => simp only [rowTimes, ih, rraTime]

theorem writeRowsV_times {rraIdx n sub : ℕ} {sc : ScratchIdx}
    (h : writeRowsV rraIdx n sc sub s = .ok t) :
    timesOf t.summary i d = timesOf s.summary i d ++
      if rraIdx = i ∧ d < s.upd.rrd.dsCnt ∧ s.upd.skipUpdate rraIdx = false
        then rowTimes s.upd.rrd rraIdx s.upd.currentTime n sub else [] := by
  induction n generalizing sc sub s with
  | zero =>
    obtain rfl := Outcome.ok.inj h
    simp [rowTimes]
  | succ n ih =>
    obtain ⟨u, hu, ht⟩ := Outcome.andThen_eq_ok.mp h
    have hframe : RowFrame s.upd u.upd :=
      .of_forget hu (forget_writeNextRowV rraIdx (n + 1) sc sub s) (writeNextRow_state rraIdx sc s.upd)
    have hrest := ih ht
    dsimp only at hrest
    have htimes := hframe.rowTimes_eq rraIdx
    obtain ⟨cur, values, cnts, pos, notified, hu'⟩ := hframe
    have hds : u.upd.rrd.dsCnt = s.upd.rrd.dsCnt := by rw [hu']
    have hskip : u.upd.skipUpdate = s.upd.skipUpdate := by rw [hu']
    rw [hrest, htimes, hds, hskip, writeNextRowV_times hu, List.append_assoc]
    congr 1
    split_ifs <;> simp [rowTimes]

/-- **The times of all rows.** Every RRA is reported with its own times. -/
theorem writeToRrasV_times (h : writeToRrasV s = .ok t) (hd : d < s.upd.rrd.dsCnt)
    (hi : i < s.upd.rrd.rraCnt) (hskip : s.upd.skipUpdate i = false) :
    timesOf t.summary i d = timesOf s.summary i d ++
      rowTimes s.upd.rrd i s.upd.currentTime (s.upd.rraStepCnt i) 1 := by
  have hinv := forLoopE_invariant (fun k (u : Reported) => RowFrame s.upd u.upd ∧
      (k ≤ i → u.upd.rraStepCnt i = s.upd.rraStepCnt i) ∧
      timesOf u.summary i d = timesOf s.summary i d ++
        if i < k then rowTimes s.upd.rrd i s.upd.currentTime (s.upd.rraStepCnt i) 1 else [])
    ⟨RowFrame.refl _, fun _ => rfl, by simp⟩ ?_ h
  · rw [hinv.2.2, if_pos hi]
  · rintro k u v hk ⟨hframe, hcnt, htimes⟩ hv
    have hrows := writeRows_state k (u.upd.rraStepCnt k) .primary u.upd
    have hframe' : RowFrame u.upd v.upd :=
      .of_forget hv (forget_writeRowsV k (u.upd.rraStepCnt k) .primary 1 u) hrows
    refine ⟨hframe.trans hframe', fun hle => ?_, ?_⟩
    · have hfree := @writeRows_rraStepCnt k i (by omega) (u.upd.rraStepCnt k) .primary u.upd
      rw [← forget_writeRowsV k (u.upd.rraStepCnt k) .primary 1 u, hv] at hfree
      exact hfree.trans (hcnt (by omega))
    · rw [writeRowsV_times hv, htimes, List.append_assoc]
      congr 1
      have hsame := hframe.rowTimes_eq i
      obtain ⟨cur, values, cnts, pos, notified, hu'⟩ := hframe
      have hds : d < u.upd.rrd.dsCnt := by rwa [hu']
      have hskip' : u.upd.skipUpdate i = false := by rwa [hu']
      rcases Nat.lt_trichotomy i k with hlt | rfl | hgt
      · simp [hlt, Nat.lt_succ_of_lt hlt, Nat.ne_of_gt hlt]
      · simp [hds, hskip', hsame, hcnt le_rfl]
      · simp [not_lt.mpr hgt.le, not_lt.mpr (Nat.succ_le_of_lt hgt), Nat.ne_of_lt hgt]

/-- The times of `n` rows, the last of which ends at `last`. -/
def rowsUpTo (last : ℤ) (step n : ℕ) : List ℤ :=
  (List.range n).map fun k : ℕ => last - ((n : ℤ) - 1 - k) * step

theorem bmod_of_time {z : ℤ} (hlo : 0 ≤ z) (hhi : z < 2 ^ 63) : z.bmod (2 ^ 64) = z := by
  apply Int.bmod_eq_of_le <;> omega

section Step

variable {r : Rrd} {time : ℤ}

/-- In an `unsigned long` nothing is lost. -/
theorem rraTime_eq (hlt : r.rowSecs i < 2 ^ 64) (hlo : 0 ≤ time) (hhi : time < 2 ^ 63) (n sub : ℕ) :
    rraTime r i n sub time =
      (time - time % r.rowSecs i - ((n : ℤ) - sub) * r.rowSecs i).bmod (2 ^ 64) := by
  have hstep : ulong ((r.rraDef i).pdpCnt * r.pdpStep) = r.rowSecs i := Nat.mod_eq_of_lt hlt
  rw [rraTime, hstep, umod, Int.emod_eq_of_lt hlo (hhi.trans (by norm_num))]

theorem rowTimes_one (hs : 0 < r.rowSecs i) (hle : (r.rowSecs i : ℤ) ≤ time) (hhi : time < 2 ^ 63) :
    rowTimes r i time 1 1 = rowsUpTo (time - time % r.rowSecs i) (r.rowSecs i) 1 := by
  have hmod := Int.emod_nonneg time (b := r.rowSecs i) (by omega)
  have hmodle := Int.emod_lt_of_pos time (b := r.rowSecs i) (by omega)
  have htime : rraTime r i 1 1 time = time - time % r.rowSecs i := by
    rw [rraTime_eq (by omega) (by omega) hhi, Nat.cast_one, sub_self, zero_mul, sub_zero]
    exact bmod_of_time (by omega) (by omega)
  simp [rowTimes, rowsUpTo, htime]

/-- The second row has the time of the third. -/
theorem rowTimes_ne (hs : 0 < r.rowSecs i) (hle : (r.rowSecs i : ℤ) ≤ time) (hhi : time < 2 ^ 63) (n : ℕ) :
    rowTimes r i time (n + 2) 1 ≠ rowsUpTo (time - time % r.rowSecs i) (r.rowSecs i) (n + 2) := by
  intro h
  have hsecond : rraTime r i (n + 1) 2 time =
      time - time % r.rowSecs i - (((n + 2 : ℕ) : ℤ) - 1 - (1 : ℕ)) * r.rowSecs i := by
    have hget := congrArg (fun l => l[1]?) h
    simpa [rowTimes, rowsUpTo] using hget
  rw [rraTime_eq (by omega) (by omega) hhi] at hsecond
  -- both are the same in an `unsigned long`, so the step would be zero there
  have hdvd : ((2 : ℤ) ^ 64) ∣ r.rowSecs i := by
    have hmod := Int.dvd_bmod_sub_self
      (x := time - time % r.rowSecs i - (((n + 1 : ℕ) : ℤ) - (2 : ℕ)) * r.rowSecs i) (m := 2 ^ 64)
    rw [hsecond] at hmod
    have hdiff : time - time % r.rowSecs i - (((n + 2 : ℕ) : ℤ) - 1 - (1 : ℕ)) * r.rowSecs i -
        (time - time % r.rowSecs i - (((n + 1 : ℕ) : ℤ) - (2 : ℕ)) * r.rowSecs i) =
        -(r.rowSecs i : ℤ) := by
      push_cast
      ring
    rw [hdiff] at hmod
    exact_mod_cast (Int.dvd_neg.mp hmod)
  have hle' := Int.le_of_dvd (by omega) hdvd
  omega

end Step

/-- **The times of `rrd_updatev`.** The rows of an RRA are reported one step apart up to the last
complete row, if and only if there is a single row. -/
theorem updatev_times_iff {u : Upd} (h : writeToRrasV ⟨u, []⟩ = .ok t) (hi : i < u.rrd.rraCnt)
    (hd : d < u.rrd.dsCnt) (hskip : u.skipUpdate i = false) (hn : 1 ≤ u.rraStepCnt i)
    (hs : 0 < u.rrd.rowSecs i) (hle : (u.rrd.rowSecs i : ℤ) ≤ u.currentTime)
    (htime : u.currentTime < 2 ^ 63) :
    timesOf t.summary i d = rowsUpTo (u.currentTime - u.currentTime % u.rrd.rowSecs i)
      (u.rrd.rowSecs i) (u.rraStepCnt i) ↔ u.rraStepCnt i = 1 := by
  have htimes : timesOf t.summary i d = rowTimes u.rrd i u.currentTime (u.rraStepCnt i) 1 :=
    writeToRrasV_times h hd hi hskip
  rw [htimes]
  constructor
  · intro heq
    by_contra hne
    obtain ⟨n, hcnt⟩ : ∃ n, u.rraStepCnt i = n + 2 := ⟨u.rraStepCnt i - 2, by omega⟩
    rw [hcnt] at heq
    exact rowTimes_ne hs hle htime n heq
  · intro hone
    rw [hone]
    exact rowTimes_one hs hle htime

/-- The state in which the first update of a new file comes to `write_to_rras`. -/
def CreateArgs.atRows (a : CreateArgs) (arg : Text) : Upd :=
  let u := (parseDs .bare arg ((Upd.blank (rrdCreateFn a fun _ => 0)).start
    (rrdCreateFn a fun _ => 0))).state
  (prepareRows .bare (updateInterval u) (updatePdpPrep (updateInterval u) u).state).state

theorem one_row_reported :
    let u := (CreateArgs.gauge .average 1 3 900 rfl (by decide) (by decide)).atRows "1250:5".toList
    timesOf (writeToRrasV ⟨u, []⟩).state.summary 0 0 = rowsUpTo (u.currentTime - u.currentTime % 300) 300 1 := by
  intro u
  have hcnt : u.rraStepCnt 0 = 1 := by decide +kernel
  have hsecs : u.rrd.rowSecs 0 = 300 := by decide +kernel
  have htimes := (@updatev_times_iff (writeToRrasV ⟨u, []⟩).state 0 0 u
    (Outcome.eq_ok_state (by decide +kernel)) (by decide +kernel) (by decide +kernel)
    (by decide +kernel) (by decide +kernel) (by decide +kernel) (by decide +kernel)
    (by decide +kernel)).mpr hcnt
  rwa [hsecs, hcnt] at htimes

/-- Two rows end at 1200 and at 1500, but the second is reported for 1800. -/
theorem second_row_late :
    let u := (CreateArgs.gauge .average 1 3 900 rfl (by decide) (by decide)).atRows "1550:5".toList
    let r := writeToRrasV ⟨u, []⟩
    r.isOk = true ∧ u.rraStepCnt 0 = 2 ∧ u.rrd.rowSecs 0 = 300 ∧
      u.currentTime - u.currentTime % 300 = 1500 ∧ timesOf r.state.summary 0 0 = [1200, 1800] ∧
      timesOf r.state.summary 0 0 ≠ rowsUpTo 1500 300 2 := by
  decide +kernel

end Rrdtool
