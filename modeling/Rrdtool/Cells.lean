import Rrdtool.Position

/-!
# One cell of an update

A cell is one RRA together with one DS: it has one preparation area and one column of the
rows of its RRA. This file follows a cell of a consolidating RRA through the stages of an
update, whatever the other RRAs do meanwhile:

* `cell_prepared` — its preparation area after the CDP stages;
* `cell_written` — its column after `write_to_rras`, in terms of absolute row numbers.
-/

namespace Rrdtool

open Loop

variable {s t : Upd}

/-! ## Preparation areas -/

/-- Cells of different RRAs have different preparation areas. -/
theorem cdpIdx_inj {n i j d d' : ℕ} (hd : d < n) (hd' : d' < n)
    (h : i * n + d = j * n + d') : i = j ∧ d = d' := by
  have hi : (i * n + d) / n = i := by
    rw [Nat.mul_comm, Nat.mul_add_div (by omega), Nat.div_eq_of_lt hd, Nat.add_zero]
  have hj : (j * n + d') / n = j := by
    rw [Nat.mul_comm, Nat.mul_add_div (by omega), Nat.div_eq_of_lt hd', Nat.add_zero]
  have hij : i = j := by rw [← hi, ← hj, h]
  subst hij
  exact ⟨rfl, by omega⟩

/-- The preparation areas after the first `k` DSs of RRA `rraIdx`. -/
def preparedCdps (s : Upd) (elapsed offset rraIdx k : ℕ) : ℕ → CdpPrep := fun idx =>
  if rraIdx * s.rrd.dsCnt ≤ idx ∧ idx < rraIdx * s.rrd.dsCnt + k then
    prepareCdp (s.rrd.rraDef rraIdx) (s.rrd.cdpPrep idx) (s.pdpTemp (idx - rraIdx * s.rrd.dsCnt))
      (s.rraStepCnt rraIdx) elapsed offset (s.lastSeasonalCoef (idx - rraIdx * s.rrd.dsCnt))
      (s.seasonalCoef (idx - rraIdx * s.rrd.dsCnt))
  else s.rrd.cdpPrep idx

/-- `update_cdp_prep`, in closed form. -/
theorem updateCdpPrep_eq (elapsed offset rraIdx : ℕ) (s : Upd) :
    updateCdpPrep elapsed offset rraIdx s = { s with rrd := { s.rrd with
      cdpPrep := preparedCdps s elapsed offset rraIdx s.rrd.dsCnt } } := by
  refine forLoop_invariant (fun k (u : Upd) => u = { s with rrd := { s.rrd with
    cdpPrep := preparedCdps s elapsed offset rraIdx k } }) ?_ ?_
  · have hnone : preparedCdps s elapsed offset rraIdx 0 = s.rrd.cdpPrep :=
      funext fun _ => if_neg (by omega)
    rw [hnone]
  · rintro k u hk rfl
    have hstep : Function.update (preparedCdps s elapsed offset rraIdx k)
        (rraIdx * s.rrd.dsCnt + k)
        (prepareCdp (s.rrd.rraDef rraIdx) (s.rrd.cdpPrep (rraIdx * s.rrd.dsCnt + k)) (s.pdpTemp k)
          (s.rraStepCnt rraIdx) elapsed offset (s.lastSeasonalCoef k) (s.seasonalCoef k)) =
        preparedCdps s elapsed offset rraIdx (k + 1) := by
      funext idx
      by_cases hidx : idx = rraIdx * s.rrd.dsCnt + k
      · subst hidx
        have hin : rraIdx * s.rrd.dsCnt ≤ rraIdx * s.rrd.dsCnt + k ∧
            rraIdx * s.rrd.dsCnt + k < rraIdx * s.rrd.dsCnt + (k + 1) := by omega
        simp [preparedCdps, hin]
      · rw [Function.update_of_ne hidx]
        have hiff : (rraIdx * s.rrd.dsCnt ≤ idx ∧ idx < rraIdx * s.rrd.dsCnt + (k + 1)) ↔
            (rraIdx * s.rrd.dsCnt ≤ idx ∧ idx < rraIdx * s.rrd.dsCnt + k) := by omega
        simp only [preparedCdps, hiff]
    have hold : preparedCdps s elapsed offset rraIdx k (rraIdx * s.rrd.dsCnt + k) =
        s.rrd.cdpPrep (rraIdx * s.rrd.dsCnt + k) := if_neg (by omega)
    rw [← hstep, ← hold]
    rfl

/-- A consolidating RRA does not look at the seasonal coefficients. -/
theorem prepareCdp_plain {rra : RraDef} (h : rra.cf.isPlain = true) (c : CdpPrep) (v : RrdValue)
    (steps elapsed offset : ℕ) (x y : RrdValue) :
    prepareCdp rra c v steps elapsed offset x y = prepareCdp rra c v steps elapsed offset dnan dnan := by
  unfold prepareCdp resetCdp
  cases hcf : rra.cf <;> simp_all [Cf.isPlain]

theorem Cf.isPlain.not_seasonal {cf : Cf} (h : cf.isPlain = true) : cf.isSeasonal = false := by
  cases cf <;> simp_all [Cf.isPlain, Cf.isSeasonal]

section Cell

variable {elapsed proc i d : ℕ}

/-- The seasonal part of `update_all_cdp_prep` stores into preparation areas of its own RRA. -/
theorem prepareRra_cell (hd : d < s.rrd.dsCnt) {j : ℕ}
    (hij : i = j → (s.rrd.rraDef j).cf.isSeasonal = false) :
    (prepareRra elapsed proc j s).rrd.cdpPrep (i * s.rrd.dsCnt + d) =
      s.rrd.cdpPrep (i * s.rrd.dsCnt + d) := by
  by_cases hse : (s.rrd.rraDef j).cf.isSeasonal = true
  · have hne : i * s.rrd.dsCnt + d ≠ j * s.rrd.dsCnt := by
      intro heq
      have hji := (cdpIdx_inj hd (by omega : 0 < s.rrd.dsCnt) (by omega : _ = j * s.rrd.dsCnt + 0)).1
      rw [hij hji] at hse
      exact Bool.noConfusion hse
    -- after the look ahead, which reads only, `do_schedule_smooth` may count a burn-in cycle
    simp only [prepareRra, hse, if_true, scheduleSeasonal]
    generalize hu : (if 1 < _ then skipAhead elapsed j _ else _ : Upd) = u
    have hur : u.rrd = s.rrd := by
      rw [← hu]
      split_ifs <;> rfl
    obtain ⟨c, hc⟩ := doScheduleSmooth_frame u.rrd j elapsed
    rw [hc, Rrd.setCdp, hur]
    exact Function.update_of_ne hne _ _
  · simp [prepareRra, hse]

theorem PrepFrame.pdpTemp (h : PrepFrame s t) : t.pdpTemp = s.pdpTemp := by
  obtain ⟨_, _, _, _, _, _, _, _, rfl⟩ := h
  rfl

/-- A row of a consolidating RRA is never skipped. -/
theorem prepareRra_skipUpdate {j : ℕ} (hij : i = j → (s.rrd.rraDef j).cf.isSeasonal = false) :
    (prepareRra elapsed proc j s).skipUpdate i = if i = j then false else s.skipUpdate i := by
  by_cases hse : (s.rrd.rraDef j).cf.isSeasonal = true
  · have hne : i ≠ j := fun h => by simp [hij h] at hse
    simp only [prepareRra, hse, if_true, scheduleSeasonal, skipAhead, hne, if_false]
    split_ifs <;> simp [hne]
  · by_cases heq : i = j
    · subst heq
      simp [prepareRra, hse]
    · simp [prepareRra, hse, heq]

/-- The passes of `update_all_cdp_prep`, seen from one cell: its own pass prepares it. -/
theorem updateAllCdpPrepRra_cell (hd : d < s.rrd.dsCnt) (hp : (s.rrd.rraDef i).cf.isPlain = true)
    {j : ℕ} (h : updateAllCdpPrepRra elapsed proc j s = .ok t) :
    t.rrd.cdpPrep (i * s.rrd.dsCnt + d) = (if i = j then
      prepareCdp (s.rrd.rraDef i) (s.rrd.cdpPrep (i * s.rrd.dsCnt + d)) (s.pdpTemp d)
        (rraSteps (s.rrd.rraDef i).pdpCnt proc elapsed) elapsed
        (startPdpOffset (s.rrd.rraDef i).pdpCnt proc) dnan dnan
      else s.rrd.cdpPrep (i * s.rrd.dsCnt + d)) ∧
    t.skipUpdate i = if i = j then false else s.skipUpdate i := by
  have hij : i = j → (s.rrd.rraDef j).cf.isSeasonal = false := by
    rintro rfl
    exact Cf.isPlain.not_seasonal hp
  have hf := prepareRra_frame elapsed proc j s
  have hdefs := hf.sameDefs
  rw [updateAllCdpPrepRra_ok h, updateCdpPrep_eq]
  refine ⟨?_, prepareRra_skipUpdate hij⟩
  change preparedCdps _ elapsed _ j _ (i * s.rrd.dsCnt + d) = _
  unfold preparedCdps
  rw [hdefs.dsCnt, hdefs.rraDef, prepareRra_cell hd hij, hf.pdpTemp, prepareRra_rraStepCnt]
  by_cases heq : i = j
  · subst heq
    have hin : i * s.rrd.dsCnt ≤ i * s.rrd.dsCnt + d ∧
        i * s.rrd.dsCnt + d < i * s.rrd.dsCnt + s.rrd.dsCnt := by omega
    rw [if_pos hin, if_pos rfl, prepareCdp_plain hp, Function.update_self, Nat.add_sub_cancel_left]
  · rw [if_neg heq, if_neg]
    rintro ⟨hle, hlt⟩
    have hidx : i * s.rrd.dsCnt + d = j * s.rrd.dsCnt + (i * s.rrd.dsCnt + d - j * s.rrd.dsCnt) := by
      omega
    exact heq (cdpIdx_inj hd (by omega) hidx).1

/-- **`update_all_cdp_prep`, one cell.** -/
theorem updateAllCdpPrep_cell (hd : d < s.rrd.dsCnt) (hi : i < s.rrd.rraCnt)
    (hp : (s.rrd.rraDef i).cf.isPlain = true) (h : updateAllCdpPrep elapsed proc s = .ok t) :
    t.rrd.cdpPrep (i * s.rrd.dsCnt + d) =
      prepareCdp (s.rrd.rraDef i) (s.rrd.cdpPrep (i * s.rrd.dsCnt + d)) (s.pdpTemp d)
        (rraSteps (s.rrd.rraDef i).pdpCnt proc elapsed) elapsed
        (startPdpOffset (s.rrd.rraDef i).pdpCnt proc) dnan dnan ∧
    t.skipUpdate i = false := by
  have hinv := forLoopE_invariant (fun k u => PrepFrame s u ∧
      (k ≤ i → u.rrd.cdpPrep (i * s.rrd.dsCnt + d) = s.rrd.cdpPrep (i * s.rrd.dsCnt + d)) ∧
      (i < k → u.rrd.cdpPrep (i * s.rrd.dsCnt + d) =
        prepareCdp (s.rrd.rraDef i) (s.rrd.cdpPrep (i * s.rrd.dsCnt + d)) (s.pdpTemp d)
          (rraSteps (s.rrd.rraDef i).pdpCnt proc elapsed) elapsed
          (startPdpOffset (s.rrd.rraDef i).pdpCnt proc) dnan dnan ∧ u.skipUpdate i = false))
    ⟨PrepFrame.refl s, fun _ => rfl, by simp⟩ ?_ h
  · exact hinv.2.2 hi
  · rintro k u v - ⟨hf, hlo, hhi⟩ hv
    have hdefs := hf.sameDefs
    have hf' : PrepFrame u v := Outcome.of_state_ok hv (updateAllCdpPrepRra_state elapsed proc k u)
    have hcell := updateAllCdpPrepRra_cell (by rw [hdefs.dsCnt]; exact hd)
      (by rw [hdefs.rraDef]; exact hp) hv (i := i)
    rw [hdefs.dsCnt, hdefs.rraDef, hf.pdpTemp] at hcell
    refine ⟨hf.trans hf', fun hle => ?_, fun hlt => ?_⟩
    · rw [hcell.1, if_neg (by omega), hlo (by omega)]
    · rcases Nat.lt_succ_iff_lt_or_eq.mp hlt with hlt' | rfl
      · obtain ⟨hc, hs⟩ := hhi hlt'
        rw [hcell.1, hcell.2, if_neg (by omega), if_neg (by omega)]
        exact ⟨hc, hs⟩
      · rw [hcell.1, hcell.2, if_pos rfl, if_pos rfl, hlo le_rfl]
        exact ⟨rfl, rfl⟩

/-! ## The passes for single-PDP rows -/

theorem lookupAhead_rrd (sc : ScratchIdx) (j : ℕ) (s : Upd) :
    (lookupAhead elapsed sc j s).rrd = s.rrd := by
  unfold lookupAhead
  split <;> rfl

theorem CdpFrame.pdpTemp (h : CdpFrame s t) : t.pdpTemp = s.pdpTemp := h.prep.pdpTemp

/-- The DS loop of `update_aberrant_cdps` on another RRA. -/
theorem aberrantLoop_other (hd : d < s.rrd.dsCnt) (sc : ScratchIdx) {j : ℕ} (hij : i ≠ j) :
    (aberrantLoop sc j s).rrd.cdpPrep (i * s.rrd.dsCnt + d) =
      s.rrd.cdpPrep (i * s.rrd.dsCnt + d) := by
  suffices h : CdpFrame s (aberrantLoop sc j s) ∧ (aberrantLoop sc j s).rrd.cdpPrep
      (i * s.rrd.dsCnt + d) = s.rrd.cdpPrep (i * s.rrd.dsCnt + d) from h.2
  refine forLoop_invariant (fun _ (u : Upd) => CdpFrame s u ∧
    u.rrd.cdpPrep (i * s.rrd.dsCnt + d) = s.rrd.cdpPrep (i * s.rrd.dsCnt + d))
    ⟨CdpFrame.refl s, rfl⟩ ?_
  rintro k u hk ⟨hf, hu⟩
  have hset := updateAberrantCF_frame u.rrd j k sc u.seasonalCoef (u.pdpTemp k)
  refine ⟨hf.trans (CdpFrame.setsCdp hset), ?_⟩
  obtain ⟨c, hc⟩ := hset
  have hds : u.rrd.dsCnt = s.rrd.dsCnt := hf.prep.sameDefs.dsCnt
  have hne : i * s.rrd.dsCnt + d ≠ u.rrd.cdpIdx j k := by
    rw [Rrd.cdpIdx, hds]
    exact fun h => hij (cdpIdx_inj hd hk h).1
  change (updateAberrantCF u.rrd (u.pdpTemp k) j k sc u.seasonalCoef).cdpPrep _ = _
  rw [hc, Rrd.setCdp_get_of_ne hne, hu]

/-- `update_aberrant_CF` on a consolidating RRA stores the PDP and does nothing else. -/
theorem updateAberrantCF_plain {r : Rrd} (hp : (r.rraDef i).cf.isPlain = true) (v : RrdValue)
    (sc : ScratchIdx) (coef : ℕ → RrdValue) :
    updateAberrantCF r v i d sc coef =
      r.setCdp (r.cdpIdx i d) ((r.cdpPrep (r.cdpIdx i d)).setScratch sc v) := by
  have hcf : ((r.setCdp (r.cdpIdx i d) ((r.cdpPrep (r.cdpIdx i d)).setScratch sc v)).rraDef i).cf =
    (r.rraDef i).cf := rfl
  simp only [updateAberrantCF]
  rw [hcf]
  cases h : (r.rraDef i).cf <;> simp_all [Cf.isPlain]

/-- The DS loop of `update_aberrant_cdps` on the RRA of the cell. -/
theorem aberrantLoop_self (hd : d < s.rrd.dsCnt) (hp : (s.rrd.rraDef i).cf.isPlain = true)
    (sc : ScratchIdx) :
    (aberrantLoop sc i s).rrd.cdpPrep (i * s.rrd.dsCnt + d) =
      (s.rrd.cdpPrep (i * s.rrd.dsCnt + d)).setScratch sc (s.pdpTemp d) := by
  suffices h : CdpFrame s (aberrantLoop sc i s) ∧ (aberrantLoop sc i s).rrd.cdpPrep
      (i * s.rrd.dsCnt + d) = if d < s.rrd.dsCnt then
        (s.rrd.cdpPrep (i * s.rrd.dsCnt + d)).setScratch sc (s.pdpTemp d)
        else s.rrd.cdpPrep (i * s.rrd.dsCnt + d) by
    rw [h.2, if_pos hd]
  refine forLoop_invariant (fun k (u : Upd) => CdpFrame s u ∧
    u.rrd.cdpPrep (i * s.rrd.dsCnt + d) = if d < k then
      (s.rrd.cdpPrep (i * s.rrd.dsCnt + d)).setScratch sc (s.pdpTemp d)
      else s.rrd.cdpPrep (i * s.rrd.dsCnt + d)) ⟨CdpFrame.refl s, rfl⟩ ?_
  rintro k u hk ⟨hf, hu⟩
  have hset := updateAberrantCF_frame u.rrd i k sc u.seasonalCoef (u.pdpTemp k)
  refine ⟨hf.trans (CdpFrame.setsCdp hset), ?_⟩
  have hds : u.rrd.dsCnt = s.rrd.dsCnt := hf.prep.sameDefs.dsCnt
  have hpu : (u.rrd.rraDef i).cf.isPlain = true := by rw [hf.prep.sameDefs.rraDef]; exact hp
  change (updateAberrantCF u.rrd (u.pdpTemp k) i k sc u.seasonalCoef).cdpPrep _ = _
  rw [updateAberrantCF_plain hpu]
  by_cases hdk : d = k
  · subst hdk
    have hidx : u.rrd.cdpIdx i d = i * s.rrd.dsCnt + d := by rw [Rrd.cdpIdx, hds]
    rw [hidx, Rrd.setCdp_get_self, hu, if_neg (lt_irrefl d), if_pos (Nat.lt_succ_self d),
      hf.pdpTemp]
  · have hne : i * s.rrd.dsCnt + d ≠ u.rrd.cdpIdx i k := by
      rw [Rrd.cdpIdx, hds]
      omega
    have hiff : d < k + 1 ↔ d < k := by omega
    rw [Rrd.setCdp_get_of_ne hne, hu]
    simp only [hiff]

/-- One RRA of one pass of `update_aberrant_cdps`, seen from one cell. -/
theorem updateAberrantRra_cell (hd : d < s.rrd.dsCnt) (hp : (s.rrd.rraDef i).cf.isPlain = true)
    {sc : ScratchIdx} {j : ℕ} (h : updateAberrantRra elapsed sc j s = .ok t) :
    t.rrd.cdpPrep (i * s.rrd.dsCnt + d) =
      if i = j ∧ (s.rrd.rraDef i).pdpCnt = 1 then
        (s.rrd.cdpPrep (i * s.rrd.dsCnt + d)).setScratch sc (s.pdpTemp d)
      else s.rrd.cdpPrep (i * s.rrd.dsCnt + d) := by
  have hl := lookupAhead_frame elapsed sc j s
  have hlr : (lookupAhead elapsed sc j s).rrd = s.rrd := lookupAhead_rrd sc j s
  simp only [updateAberrantRra] at h
  split_ifs at h with hone
  · obtain ⟨v, hv, ht⟩ := Outcome.andThen_eq_ok.mp h
    obtain ⟨rfl, -⟩ := testError_ok hv
    obtain rfl := Outcome.ok.inj ht
    by_cases hij : i = j
    · subst hij
      have hself := aberrantLoop_self (by rw [hlr]; exact hd) (by rw [hlr]; exact hp) sc
        (s := lookupAhead elapsed sc i s) (i := i) (d := d)
      rw [hlr, hl.pdpTemp] at hself
      rw [hself, if_pos ⟨rfl, hone⟩]
    · have hother := aberrantLoop_other (by rw [hlr]; exact hd) sc hij
        (s := lookupAhead elapsed sc j s) (d := d)
      rw [hlr] at hother
      rw [hother, if_neg (fun h => hij h.1)]
  · obtain rfl := Outcome.ok.inj h
    rw [if_neg]
    rintro ⟨rfl, h1⟩
    exact hone h1

/-- One pass of `update_aberrant_cdps`, seen from one cell. -/
theorem updateAberrantPass_cell (hd : d < s.rrd.dsCnt) (hi : i < s.rrd.rraCnt)
    (hp : (s.rrd.rraDef i).cf.isPlain = true) {sc : ScratchIdx}
    (h : updateAberrantPass elapsed sc s = .ok t) :
    t.rrd.cdpPrep (i * s.rrd.dsCnt + d) =
      if (s.rrd.rraDef i).pdpCnt = 1 then
        (s.rrd.cdpPrep (i * s.rrd.dsCnt + d)).setScratch sc (s.pdpTemp d)
      else s.rrd.cdpPrep (i * s.rrd.dsCnt + d) := by
  have hinv := forLoopE_invariant (fun k u => CdpFrame s u ∧
      u.rrd.cdpPrep (i * s.rrd.dsCnt + d) =
        if i < k ∧ (s.rrd.rraDef i).pdpCnt = 1 then
          (s.rrd.cdpPrep (i * s.rrd.dsCnt + d)).setScratch sc (s.pdpTemp d)
        else s.rrd.cdpPrep (i * s.rrd.dsCnt + d)) ⟨CdpFrame.refl s, by simp⟩ ?_ h
  · rw [hinv.2]
    simp only [hi, true_and]
  · rintro k u v - ⟨hf, hu⟩ hv
    have hdefs := hf.prep.sameDefs
    have hf' : CdpFrame u v := Outcome.of_state_ok hv (updateAberrantRra_state elapsed sc k u)
    have hcell := updateAberrantRra_cell (by rw [hdefs.dsCnt]; exact hd)
      (by rw [hdefs.rraDef]; exact hp) hv (i := i)
    rw [hdefs.dsCnt, hdefs.rraDef, hf.pdpTemp] at hcell
    refine ⟨hf.trans hf', ?_⟩
    rw [hcell, hu]
    rcases lt_trichotomy i k with hlt | rfl | hgt
    · rw [if_neg (fun h => by omega)]
      simp only [hlt, Nat.lt_succ_of_lt hlt]
    · simp
    · rw [if_neg (fun h => by omega), if_neg (fun h => by omega), if_neg (fun h => by omega)]

/-- **The preparation area of a cell after the CDP stages.** With several PDPs for each row
it is what `update_cdp` makes of it; with one PDP for each row, the rows get that PDP. -/
theorem cell_prepared {u : Upd} (hd : d < s.rrd.dsCnt) (hi : i < s.rrd.rraCnt)
    (hp : (s.rrd.rraDef i).cf.isPlain = true) (he : 0 < elapsed)
    (h : updateAllCdpPrep elapsed proc s = .ok t) (h' : updateAberrantCdps elapsed t = .ok u) :
    (1 < (s.rrd.rraDef i).pdpCnt → u.rrd.cdpPrep (i * s.rrd.dsCnt + d) =
      updateCdp (s.rrd.cdpPrep (i * s.rrd.dsCnt + d)) (s.rrd.rraDef i).cf (s.pdpTemp d)
        (rraSteps (s.rrd.rraDef i).pdpCnt proc elapsed) elapsed
        (startPdpOffset (s.rrd.rraDef i).pdpCnt proc) (s.rrd.rraDef i).pdpCnt
        (s.rrd.rraDef i).xffVal) ∧
    ((s.rrd.rraDef i).pdpCnt = 1 →
      (u.rrd.cdpPrep (i * s.rrd.dsCnt + d)).primaryVal = s.pdpTemp d ∧
      (1 < elapsed → (u.rrd.cdpPrep (i * s.rrd.dsCnt + d)).secondaryVal = s.pdpTemp d)) := by
  have hf : PrepFrame s t := Outcome.of_state_ok h (updateAllCdpPrep_state elapsed proc s)
  have hdefs := hf.sameDefs
  have hdt : d < t.rrd.dsCnt := by rw [hdefs.dsCnt]; exact hd
  have hit : i < t.rrd.rraCnt := by rw [hdefs.rraCnt]; exact hi
  have hpt : (t.rrd.rraDef i).cf.isPlain = true := by rw [hdefs.rraDef]; exact hp
  obtain ⟨hcell, -⟩ := updateAllCdpPrep_cell hd hi hp h
  simp only [updateAberrantCdps] at h'
  split_ifs at h' with h1 h2
  · -- one step: one pass
    have hpass := updateAberrantPass_cell hdt hit hpt h'
    rw [hdefs.dsCnt, hdefs.rraDef, hf.pdpTemp, hcell] at hpass
    refine ⟨fun hm => ?_, fun ho => ?_⟩
    · rw [hpass, if_neg (by omega), prepareCdp, if_pos hm]
    · rw [hpass, if_pos ho]
      exact ⟨rfl, fun h => by omega⟩
  · -- two steps: two passes
    obtain ⟨v, hv, hu⟩ := Outcome.andThen_eq_ok.mp h'
    have hfv : CdpFrame t v := Outcome.of_state_ok hv (updateAberrantPass_state elapsed .primary t)
    have hdv := hdefs.trans hfv.prep.sameDefs
    have hpass := updateAberrantPass_cell hdt hit hpt hv
    have hpass' := updateAberrantPass_cell (by rw [hdv.dsCnt]; exact hd)
      (by rw [hdv.rraCnt]; exact hi) (by rw [hdv.rraDef]; exact hp) hu
    rw [hdefs.dsCnt, hdefs.rraDef, hf.pdpTemp, hcell] at hpass
    rw [hdv.dsCnt, hdv.rraDef, hfv.pdpTemp, hf.pdpTemp, hpass] at hpass'
    refine ⟨fun hm => ?_, fun ho => ?_⟩
    · rw [hpass', if_neg (by omega), if_neg (by omega), prepareCdp, if_pos hm]
    · rw [hpass', if_pos ho, if_pos ho]
      exact ⟨rfl, fun _ => rfl⟩
  · -- a bulk update: no pass, the areas were reset
    obtain rfl := Outcome.ok.inj h'
    rw [hcell]
    refine ⟨fun hm => by rw [prepareCdp, if_pos hm], fun ho => ?_⟩
    have hbulk : 2 < elapsed := by omega
    have hreset : prepareCdp (s.rrd.rraDef i) (s.rrd.cdpPrep (i * s.rrd.dsCnt + d)) (s.pdpTemp d)
        (rraSteps (s.rrd.rraDef i).pdpCnt proc elapsed) elapsed
        (startPdpOffset (s.rrd.rraDef i).pdpCnt proc) dnan dnan =
        { s.rrd.cdpPrep (i * s.rrd.dsCnt + d) with
          primaryVal := s.pdpTemp d, secondaryVal := s.pdpTemp d } := by
      rw [prepareCdp, if_neg (by omega), if_pos hbulk, resetCdp]
      cases hcf : (s.rrd.rraDef i).cf <;> simp_all [Cf.isPlain]
    rw [hreset]
    exact ⟨rfl, fun _ => rfl⟩

/-! ## Rows -/

/-- Where row `row` of RRA `i` keeps the value of DS `d`. -/
def Rrd.cellPos (r : Rrd) (i row d : ℕ) : ℕ := r.rraStart i + r.dsCnt * row + d

/-- Storing a row changes the cells of that row and no cell of another row. -/
theorem storeRow_cell {r : Rrd} {sc : ScratchIdx} {row row' : ℕ} (hd : d < r.dsCnt) :
    storeRow r i sc (r.rraStart i + r.dsCnt * row) (r.cellPos i row' d) =
      if row' = row then (r.cdpPrep (i * r.dsCnt + d)).scratch sc
      else r.values (r.cellPos i row' d) := by
  unfold storeRow storeCells Rrd.cellPos
  by_cases hrow : row' = row
  · subst hrow
    have hin : r.rraStart i + r.dsCnt * row' ≤ r.rraStart i + r.dsCnt * row' + d ∧
        r.rraStart i + r.dsCnt * row' + d < r.rraStart i + r.dsCnt * row' + r.dsCnt := by omega
    rw [if_pos hin, if_pos rfl, Nat.add_sub_cancel_left]
  · rw [if_neg hrow, if_neg]
    rintro ⟨hle, hlt⟩
    have hidx : row' * r.dsCnt + d = row * r.dsCnt +
        (r.rraStart i + r.dsCnt * row' + d - (r.rraStart i + r.dsCnt * row)) := by
      rw [Nat.mul_comm row', Nat.mul_comm row]
      omega
    exact hrow (cdpIdx_inj hd (by omega) hidx).1

/-- **The column of a cell after the rows of its RRA.** The ring holds row number `N` in its
current row; `k` rows later it holds row number `N + k`. A row number up to `N` that is still
in the ring is untouched, the next one holds the first value, all others the secondary one. -/
theorem writeRows_cell {k : ℕ} {sc : ScratchIdx} {base N : ℤ} (hd : d < s.rrd.dsCnt)
    (hc : 0 < (s.rrd.rraDef i).rowCnt) (hskip : s.skipUpdate i = false)
    (hcur : s.rrd.curRow i = Ring.slot (s.rrd.rraDef i).rowCnt base N)
    (h : writeRows i k sc s = .ok t) {M : ℤ} (hlo : N + k < M + (s.rrd.rraDef i).rowCnt)
    (hhi : M ≤ N + k) :
    t.rrd.values (s.rrd.cellPos i (Ring.slot (s.rrd.rraDef i).rowCnt base M) d) =
      if M ≤ N then s.rrd.values (s.rrd.cellPos i (Ring.slot (s.rrd.rraDef i).rowCnt base M) d)
      else if M = N + 1 then (s.rrd.cdpPrep (i * s.rrd.dsCnt + d)).scratch sc
      else (s.rrd.cdpPrep (i * s.rrd.dsCnt + d)).secondaryVal := by
  induction k generalizing sc s N with
  | zero =>
    obtain rfl := Outcome.ok.inj h
    rw [if_pos (by simpa using hhi)]
  | succ k ih =>
    obtain ⟨u, hu, ht⟩ := Outcome.andThen_eq_ok.mp h
    obtain ⟨pos, rfl⟩ := writeNextRow_ok hskip hu
    have hrow : Ring.next (s.rrd.rraDef i).rowCnt (s.rrd.curRow i) =
        Ring.slot (s.rrd.rraDef i).rowCnt base (N + 1) := by
      rw [Ring.slot_succ hc, hcur]
    push_cast at hlo hhi
    have hpos : (seekNextRow i s).pos = s.rrd.rraStart i +
        s.rrd.dsCnt * Ring.slot (s.rrd.rraDef i).rowCnt base (N + 1) := by
      rw [← hrow]
      rfl
    have hcur' : (Function.update s.rrd.curRow i
        (Ring.next (s.rrd.rraDef i).rowCnt (s.rrd.curRow i))) i =
        Ring.slot (s.rrd.rraDef i).rowCnt base (N + 1) := by
      rw [Function.update_self, hrow]
    refine (@ih _ .secondary (N + 1) ?_ ?_ ?_ ?_ ht ?_ ?_).trans ?_
    · exact hd
    · exact hc
    · exact hskip
    · exact hcur'
    · change N + 1 + (k : ℤ) < M + (s.rrd.rraDef i).rowCnt
      linarith
    · linarith
    -- the row just stored is the one of number `N + 1`
    change (if M ≤ N + 1 then storeRow s.rrd i sc (seekNextRow i s).pos
        (s.rrd.cellPos i (Ring.slot (s.rrd.rraDef i).rowCnt base M) d)
      else if M = N + 1 + 1 then (s.rrd.cdpPrep (i * s.rrd.dsCnt + d)).secondaryVal
      else (s.rrd.cdpPrep (i * s.rrd.dsCnt + d)).secondaryVal) = _
    rw [hpos, storeRow_cell hd, ite_self]
    rcases lt_trichotomy M (N + 1) with hlt | rfl | hgt
    · have hne : Ring.slot (s.rrd.rraDef i).rowCnt base M ≠
          Ring.slot (s.rrd.rraDef i).rowCnt base (N + 1) := Ring.slot_ne hc hlt (by linarith)
      rw [if_pos hlt.le, if_neg hne, if_pos (by linarith)]
    · rw [if_pos le_rfl, if_pos rfl, if_neg (by linarith), if_pos rfl]
    · rw [if_neg (by linarith), if_neg (by linarith), if_neg (by linarith)]

/-- The rows of one RRA stay inside its block. -/
theorem writeRows_outside {k : ℕ} {sc : ScratchIdx} (hc : 0 < (s.rrd.rraDef i).rowCnt)
    (h : writeRows i k sc s = .ok t) {q : ℕ}
    (hq : q < s.rrd.rraStart i ∨ s.rrd.rraStart (i + 1) ≤ q) :
    t.rrd.values q = s.rrd.values q := by
  induction k generalizing sc s with
  | zero =>
    obtain rfl := Outcome.ok.inj h
    rfl
  | succ k ih =>
    obtain ⟨u, hu, ht⟩ := Outcome.andThen_eq_ok.mp h
    have hf : RowFrame s u := Outcome.of_state_ok hu (writeNextRow_state i sc s)
    have hdefs := hf.sameDefs
    refine (@ih _ .secondary ?_ ht ?_).trans ?_
    · change 0 < (u.rrd.rraDef i).rowCnt
      rw [hdefs.rraDef]
      exact hc
    · change q < u.rrd.rraStart i ∨ u.rrd.rraStart (i + 1) ≤ q
      rw [hdefs.rraStart, hdefs.rraStart]
      exact hq
    cases hskip : s.skipUpdate i with
    | true =>
      rw [writeNextRow_skip hskip] at hu
      obtain rfl := Outcome.ok.inj hu
      rfl
    | false =>
      obtain ⟨pos, rfl⟩ := writeNextRow_ok hskip hu
      refine if_neg fun hin => ?_
      have hlt := Ring.next_lt hc (s.rrd.curRow i)
      rw [Rrd.rraStart_succ] at hq
      have hle : s.rrd.dsCnt * (Ring.next (s.rrd.rraDef i).rowCnt (s.rrd.curRow i) + 1) ≤
          (s.rrd.rraDef i).rowCnt * s.rrd.dsCnt := by
        rw [Nat.mul_comm]
        exact Nat.mul_le_mul_right _ hlt
      rw [Nat.mul_add] at hle
      simp only [seekNextRow] at hin
      omega

/-- The column of a cell lies in the block of its RRA. -/
theorem Rrd.cellPos_mem {r : Rrd} {row : ℕ} (hd : d < r.dsCnt) (hr : row < (r.rraDef i).rowCnt) :
    r.rraStart i ≤ r.cellPos i row d ∧ r.cellPos i row d < r.rraStart (i + 1) := by
  have hle : r.dsCnt * (row + 1) ≤ (r.rraDef i).rowCnt * r.dsCnt := by
    rw [Nat.mul_comm]
    exact Nat.mul_le_mul_right _ hr
  rw [Nat.mul_add] at hle
  rw [Rrd.rraStart_succ, Rrd.cellPos]
  omega

/-- The rows of another RRA leave the column alone. -/
theorem writeRows_other {k j : ℕ} {sc : ScratchIdx} (hd : d < s.rrd.dsCnt)
    (hc : 0 < (s.rrd.rraDef j).rowCnt) (hij : i ≠ j) (h : writeRows j k sc s = .ok t) {row : ℕ}
    (hr : row < (s.rrd.rraDef i).rowCnt) :
    t.rrd.values (s.rrd.cellPos i row d) = s.rrd.values (s.rrd.cellPos i row d) := by
  obtain ⟨hge, hlt⟩ := Rrd.cellPos_mem hd hr
  refine writeRows_outside hc h ?_
  rcases Nat.lt_or_gt_of_ne hij with hlt' | hgt
  · exact .inl (hlt.trans_le (s.rrd.rraStart_mono hlt'))
  · exact .inr ((s.rrd.rraStart_mono hgt).trans hge)

/-- **The column of a cell after `write_to_rras`.** -/
theorem cell_written {base N : ℤ} (hd : d < s.rrd.dsCnt) (hi : i < s.rrd.rraCnt)
    (hc : ∀ j, j < s.rrd.rraCnt → 0 < (s.rrd.rraDef j).rowCnt) (hskip : s.skipUpdate i = false)
    (hcur : s.rrd.curRow i = Ring.slot (s.rrd.rraDef i).rowCnt base N)
    (h : writeToRras s = .ok t) {M : ℤ}
    (hlo : N + s.rraStepCnt i < M + (s.rrd.rraDef i).rowCnt) (hhi : M ≤ N + s.rraStepCnt i) :
    t.rrd.values (s.rrd.cellPos i (Ring.slot (s.rrd.rraDef i).rowCnt base M) d) =
      if M ≤ N then s.rrd.values (s.rrd.cellPos i (Ring.slot (s.rrd.rraDef i).rowCnt base M) d)
      else if M = N + 1 then (s.rrd.cdpPrep (i * s.rrd.dsCnt + d)).primaryVal
      else (s.rrd.cdpPrep (i * s.rrd.dsCnt + d)).secondaryVal := by
  set q := s.rrd.cellPos i (Ring.slot (s.rrd.rraDef i).rowCnt base M) d with hq
  have hslot : Ring.slot (s.rrd.rraDef i).rowCnt base M < (s.rrd.rraDef i).rowCnt :=
    Ring.slot_lt (hc i hi)
  have hinv := forLoopE_invariant (fun k u => RowFrame s u ∧
      (k ≤ i → u.rrd.values q = s.rrd.values q ∧ u.rrd.curRow i = s.rrd.curRow i ∧
        u.rraStepCnt i = s.rraStepCnt i) ∧
      (i < k → u.rrd.values q = if M ≤ N then s.rrd.values q
        else if M = N + 1 then (s.rrd.cdpPrep (i * s.rrd.dsCnt + d)).primaryVal
        else (s.rrd.cdpPrep (i * s.rrd.dsCnt + d)).secondaryVal))
    ⟨RowFrame.refl s, fun _ => ⟨rfl, rfl, rfl⟩, by simp⟩ ?_ h
  · exact hinv.2.2 hi
  · rintro k u v hk ⟨hf, hbefore, hafter⟩ hv
    have hdefs := hf.sameDefs
    have hf' : RowFrame u v := Outcome.of_state_ok hv (writeRows_state k _ .primary u)
    have hcu : 0 < (u.rrd.rraDef k).rowCnt := by rw [hdefs.rraDef]; exact hc k hk
    have hqu : q = u.rrd.cellPos i (Ring.slot (u.rrd.rraDef i).rowCnt base M) d := by
      rw [hq, Rrd.cellPos, Rrd.cellPos, hdefs.rraStart, hdefs.dsCnt, hdefs.rraDef]
    have hdu : d < u.rrd.dsCnt := by rw [hdefs.dsCnt]; exact hd
    have hother : i ≠ k → v.rrd.values q = u.rrd.values q := by
      intro hik
      rw [hqu]
      exact writeRows_other hdu hcu hik hv (by rw [hdefs.rraDef]; exact hslot)
    have hmoves := (writeRows_ok (by rw [hdefs.rraCnt]; exact hk) hcu hv).2
    refine ⟨hf.trans hf', fun hle => ?_, fun hlt => ?_⟩
    · obtain ⟨hval, hrow, hcnt⟩ := hbefore (by omega)
      rw [hother (by omega), hmoves.1 i (by omega), hmoves.2, Function.update_of_ne (by omega)]
      exact ⟨hval, hrow, hcnt⟩
    · rcases Nat.lt_succ_iff_lt_or_eq.mp hlt with hlt' | rfl
      · rw [hother (by omega)]
        exact hafter hlt'
      · obtain ⟨hval, hrow, hcnt⟩ := hbefore le_rfl
        have hsu : u.skipUpdate i = false ∧ u.rrd.cdpPrep = s.rrd.cdpPrep := by
          obtain ⟨_, _, _, _, _, rfl⟩ := hf
          exact ⟨hskip, rfl⟩
        have hcell := writeRows_cell hdu hcu hsu.1 (by rw [hrow, hcur, hdefs.rraDef]) hv (M := M)
          (by rw [hcnt, hdefs.rraDef]; exact hlo) (by rw [hcnt]; exact hhi)
        rw [← hqu, hval, hsu.2, hdefs.dsCnt] at hcell
        exact hcell

/-! ## The stages together -/

theorem PdpFrame.cdpPrep (h : PdpFrame s t) : t.rrd.cdpPrep = s.rrd.cdpPrep := by
  obtain ⟨_, _, _, rfl⟩ := h
  rfl

theorem RowFrame.cdpPrep (h : RowFrame s t) :
    t.rrd.cdpPrep = s.rrd.cdpPrep ∧ t.pdpTemp = s.pdpTemp := by
  obtain ⟨_, _, _, _, _, rfl⟩ := h
  exact ⟨rfl, rfl⟩

theorem CdpFrame.skipUpdate (h : CdpFrame s t) : t.skipUpdate = s.skipUpdate := by
  obtain ⟨_, _, _, _, rfl⟩ := h
  rfl

/-- **One cell, one update** that crosses `e` steps: its preparation area and its column. -/
theorem cell_updated {env : Env} {interval : ℚ} {w : Upd} {e : ℕ} (hpos : Positioned s.rrd)
    (hd : d < s.rrd.dsCnt) (hi : i < s.rrd.rraCnt) (hp : (s.rrd.rraDef i).cf.isPlain = true)
    (hfit : (setLastUp s).rrd.stepNo - s.rrd.stepNo < 2 ^ 31)
    (he : (setLastUp s).rrd.stepNo - s.rrd.stepNo = e) (hne : e ≠ 0)
    (h : processPdps env interval s = .ok w) :
    (1 < (s.rrd.rraDef i).pdpCnt → w.rrd.cdpPrep (i * s.rrd.dsCnt + d) =
      updateCdp (s.rrd.cdpPrep (i * s.rrd.dsCnt + d)) (s.rrd.rraDef i).cf (w.pdpTemp d)
        (rraSteps (s.rrd.rraDef i).pdpCnt s.rrd.stepNo e) e
        (startPdpOffset (s.rrd.rraDef i).pdpCnt s.rrd.stepNo) (s.rrd.rraDef i).pdpCnt
        (s.rrd.rraDef i).xffVal) ∧
    ((s.rrd.rraDef i).pdpCnt = 1 →
      (w.rrd.cdpPrep (i * s.rrd.dsCnt + d)).primaryVal = w.pdpTemp d ∧
      (1 < e → (w.rrd.cdpPrep (i * s.rrd.dsCnt + d)).secondaryVal = w.pdpTemp d)) ∧
    ∀ {base N M : ℤ}, s.rrd.curRow i = Ring.slot (s.rrd.rraDef i).rowCnt base N →
      N + rraSteps (s.rrd.rraDef i).pdpCnt s.rrd.stepNo e < M + (s.rrd.rraDef i).rowCnt →
      M ≤ N + rraSteps (s.rrd.rraDef i).pdpCnt s.rrd.stepNo e →
      w.rrd.values (s.rrd.cellPos i (Ring.slot (s.rrd.rraDef i).rowCnt base M) d) =
        if M ≤ N then s.rrd.values (s.rrd.cellPos i (Ring.slot (s.rrd.rraDef i).rowCnt base M) d)
        else if M = N + 1 then (w.rrd.cdpPrep (i * s.rrd.dsCnt + d)).primaryVal
        else (w.rrd.cdpPrep (i * s.rrd.dsCnt + d)).secondaryVal := by
  obtain ⟨hel, hproc⟩ := calculateElapsedSteps_eq s.rrd s.currentTime.toNat s.currentTimeUsec
    interval hpos.pdpStep_pos hfit
  have hele : (calculateElapsedSteps s.rrd s.currentTime.toNat s.currentTimeUsec
      interval).elapsedPdpSt = e := hel.trans he
  rcases processPdps_eq_ok h with ⟨hz, -⟩ | ⟨-, a, b, c, ha, hb, hc, hw⟩
  · exact absurd (hele ▸ hz) hne
  · rw [hele, hproc] at hb
    rw [hele] at hc
    have hfa : PdpFrame s a := Outcome.of_state_ok ha (processAllPdpSt_state _ _ _ s)
    have hfb : PrepFrame a b := Outcome.of_state_ok hb (updateAllCdpPrep_state _ _ a)
    have hfc : CdpFrame b c := Outcome.of_state_ok hc (updateAberrantCdps_state _ b)
    have hfw : RowFrame c w := Outcome.of_state_ok hw (writeToRras_state c)
    have hqa := hfa.quiet
    have hqc := hqa.trans (hfb.quiet.trans hfc.prep.quiet)
    have hda : d < a.rrd.dsCnt := by rw [hqa.defs.dsCnt]; exact hd
    have hia : i < a.rrd.rraCnt := by rw [hqa.defs.rraCnt]; exact hi
    have hpa : (a.rrd.rraDef i).cf.isPlain = true := by rw [hqa.defs.rraDef]; exact hp
    obtain ⟨hmany, hone⟩ := cell_prepared hda hia hpa (by omega) hb hc
    obtain ⟨-, hskip⟩ := updateAllCdpPrep_cell hda hia hpa hb
    have hsteps := updateAllCdpPrep_rraStepCnt hb hia
    have htemp : w.pdpTemp = a.pdpTemp := by
      rw [hfw.cdpPrep.2, hfc.pdpTemp, hfb.pdpTemp]
    rw [hqa.defs.dsCnt, hqa.defs.rraDef, hfa.cdpPrep, ← htemp, ← hfw.cdpPrep.1] at hmany
    rw [hqa.defs.dsCnt, hqa.defs.rraDef, ← htemp, ← hfw.cdpPrep.1] at hone
    rw [hqa.defs.rraDef] at hsteps
    refine ⟨hmany, hone, fun {base N M} hcur hlo hhi => ?_⟩
    have hcnt : ∀ j, j < c.rrd.rraCnt → 0 < (c.rrd.rraDef j).rowCnt := by
      intro j hj
      rw [hqc.defs.rraCnt] at hj
      rw [hqc.defs.rraDef]
      have := hpos.curRow_lt j hj
      omega
    have hcell := cell_written (by rw [hqc.defs.dsCnt]; exact hd) (by rw [hqc.defs.rraCnt]; exact hi)
      hcnt (by rw [hfc.skipUpdate]; exact hskip) (by rw [hqc.curRow, hqc.defs.rraDef]; exact hcur) hw
      (M := M) (by rw [hfc.rraStepCnt, hsteps, hqc.defs.rraDef]; exact hlo)
      (by rw [hfc.rraStepCnt, hsteps]; exact hhi)
    rw [Rrd.cellPos, hqc.defs.rraStart, hqc.defs.rraDef, hqc.defs.dsCnt, hqc.values,
      ← hfw.cdpPrep.1] at hcell
    exact hcell

end Cell

end Rrdtool
