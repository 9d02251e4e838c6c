import Rrdtool.Archive
import Rrdtool.HwRun

/-!
# The look-ahead cache of seasonal arrays

A seasonal array keeps the entry for the next observation in its preparation areas. The entry is
looked up relative to the current row before this row moves on, in three places: the pass of a single
step, the two passes of two steps, and `reset_cdp` in a bulk update. Here one such array is followed
through an update, whatever the other RRAs do.

* `aheadEntry_eq` — how far ahead of the new current row the entry has been looked up;
* `seasonal_cache` — the cache is right in every run that takes no two steps at once, makes no
  single step in an array of one row and does not smooth the array;
* `two_steps_stale` — two steps look up one entry too far.
-/

namespace Rrdtool

open Loop

variable {env : Env} {r r' : Rrd} {s t u : Upd} {i d e proc : ℕ}

/-! ## One array -/

/-- A `SEASONAL` or `DEVSEASONAL` RRA whose partner is a prediction. -/
structure SeasonalRra (r : Rrd) (i : ℕ) : Prop where
  lt : i < r.rraCnt
  cf : (r.rraDef i).cf.isSeasonal = true
  pdpCnt : (r.rraDef i).pdpCnt = 1
  prediction : (hwFunctionsOf (r.rraDef (r.rraDef i).dependentRraIdx).cf).isSome = true

theorem SeasonalRra.congr (h : SeasonalRra r i) (hd : SameDefs r r') : SeasonalRra r' i where
  lt := by
    rw [hd.rraCnt]
    exact h.lt
  cf := by
    rw [hd.rraDef]
    exact h.cf
  pdpCnt := by
    rw [hd.rraDef]
    exact h.pdpCnt
  prediction := by
    rw [hd.rraDef]
    exact h.prediction

/-- `scratch[CDP_hw_seasonal]`, which is also `scratch[CDP_seasonal_deviation]`. -/
def Rrd.cached (r : Rrd) (i d : ℕ) : RrdValue := (r.cdp i d).hwSeasonal

/-- **The cache is current**: for every DS it holds the entry in the row after the current one. -/
def CacheCurrent (r : Rrd) (i : ℕ) : Prop := ∀ d, d < r.dsCnt → r.cached i d = r.rowAt i 1 d

/-- With one PDP for each row, every step is a row. -/
theorem rraSteps_one (he : 0 < e) : rraSteps 1 proc e = e := by
  have hoffset : startPdpOffset 1 proc = 1 := by rw [startPdpOffset, Nat.mod_one]
  simp only [rraSteps, hoffset, Nat.div_one]
  split_ifs <;> omega

/-! ## `update_all_cdp_prep` -/

/-- `do_schedule_smooth` counts cycles and nothing else. -/
theorem doScheduleSmooth_cached (r : Rrd) (j e idx : ℕ) :
    ((doScheduleSmooth r j e).1.cdpPrep idx).hwSeasonal = (r.cdpPrep idx).hwSeasonal := by
  simp only [doScheduleSmooth]
  split_ifs
  · rfl
  · rfl
  · by_cases hidx : idx = j * r.dsCnt
    · subst hidx
      rw [Rrd.setCdp_get_self]
    · rw [Rrd.setCdp_get_of_ne hidx]
  · rfl

theorem prepareRra_cached (j idx : ℕ) :
    ((prepareRra e proc j s).rrd.cdpPrep idx).hwSeasonal = (s.rrd.cdpPrep idx).hwSeasonal := by
  simp only [prepareRra]
  split_ifs
  · simp only [scheduleSeasonal, doScheduleSmooth_cached]
    split_ifs <;> rfl
  · rfl

/-- A bulk update skips the rows of the array, and looks one row further than it skips. -/
theorem prepareRra_ahead (hi : SeasonalRra s.rrd i) (he : 0 < e) :
    (prepareRra e proc i s).skipUpdate i = decide (1 < e) ∧
      (1 < e → (prepareRra e proc i s).seasonalCoef = (lookupSeasonal s i (e + 1)).2) := by
  have hsteps : rraSteps (s.rrd.rraDef i).pdpCnt proc e = e := by rw [hi.pdpCnt, rraSteps_one he]
  simp only [prepareRra, hi.cf, if_true, scheduleSeasonal, hsteps, Function.update_self]
  by_cases hbulk : 1 < e
  · simp only [hbulk, if_true, skipAhead, Function.update_self, decide_true, true_and]
    exact fun _ => rfl
  · simp [hbulk]

/-- Another RRA does not decide about the rows of this one. -/
theorem prepareRra_skipUpdate_ne {j : ℕ} (hij : i ≠ j) :
    (prepareRra e proc j s).skipUpdate i = s.skipUpdate i := by
  rw [prepareRra_skipUpdate fun h => absurd h hij, if_neg hij]

/-- How far ahead of the current row the entry is looked up that `e` steps leave in the cache. -/
def lookedAhead (e : ℕ) : ℕ := if e = 2 then 4 else e + 1

/-- That row can be told in an `unsigned long`. -/
def CountsRow (r : Rrd) (i e : ℕ) : Prop := r.curRow i + lookedAhead e < 2 ^ 64

/-- What `lookup_seasonal` finds. -/
theorem lookupSeasonal_eq {k : ℕ} (hk : s.rrd.curRow i + k < 2 ^ 64) (d : ℕ) :
    (lookupSeasonal s i k).2 d = s.rrd.rowAt i k d := by
  have hlong : ulong (s.rrd.curRow i + k) = s.rrd.curRow i + k := Nat.mod_eq_of_lt hk
  simp only [lookupSeasonal, Rrd.rowAt, Rrd.cellPos, hlong]
  rw [Nat.mul_comm]

theorem cdpIdx_mem (hd : d < s.rrd.dsCnt) {j : ℕ} :
    (j * s.rrd.dsCnt ≤ i * s.rrd.dsCnt + d ∧
      i * s.rrd.dsCnt + d < j * s.rrd.dsCnt + s.rrd.dsCnt) ↔ i = j := by
  constructor
  · rintro ⟨hle, hlt⟩
    have hidx : i * s.rrd.dsCnt + d = j * s.rrd.dsCnt + (i * s.rrd.dsCnt + d - j * s.rrd.dsCnt) := by
      omega
    exact (cdpIdx_inj hd (by omega) hidx).1
  · rintro rfl
    omega

/-- One RRA of `update_all_cdp_prep`. -/
theorem updateAllCdpPrepRra_cached (hi : SeasonalRra s.rrd i) (he : 0 < e)
    (hrow : CountsRow s.rrd i e) (hd : d < s.rrd.dsCnt) {j : ℕ}
    (h : updateAllCdpPrepRra e proc j s = .ok t) :
    t.rrd.cached i d = (if i = j ∧ 2 < e then s.rrd.rowAt i (e + 1) d else s.rrd.cached i d) ∧
      t.skipUpdate i = if i = j then decide (1 < e) else s.skipUpdate i := by
  have hf := prepareRra_frame e proc j s
  have hdefs := hf.sameDefs
  rw [updateAllCdpPrepRra_ok h, updateCdpPrep_eq]
  constructor
  · change (preparedCdps _ e _ j _ (i * (prepareRra e proc j s).rrd.dsCnt + d)).hwSeasonal = _
    unfold preparedCdps
    rw [hdefs.dsCnt, hdefs.rraDef]
    simp only [cdpIdx_mem hd]
    by_cases hij : i = j
    · subst hij
      rw [if_pos rfl, Nat.add_sub_cancel_left, prepareCdp, hi.pdpCnt, if_neg (Nat.lt_irrefl 1)]
      split_ifs with hbulk hboth hboth
      · have hlook : (prepareRra e proc i s).seasonalCoef = _ := (prepareRra_ahead hi he).2 (by omega)
        have hcf := hi.cf
        have hlt : s.rrd.curRow i + (e + 1) < 2 ^ 64 := by
          rwa [CountsRow, lookedAhead, if_neg (by omega)] at hrow
        simp only [resetCdp]
        cases hc : (s.rrd.rraDef i).cf <;> simp [hc, Cf.isSeasonal] at hcf
        all_goals
          dsimp only
          rw [hlook]
          exact lookupSeasonal_eq hlt d
      · exact absurd ⟨rfl, hbulk⟩ hboth
      · exact absurd hboth.2 hbulk
      · exact prepareRra_cached i _
    · rw [if_neg hij, if_neg fun h => hij h.1]
      exact prepareRra_cached j _
  · change (prepareRra e proc j s).skipUpdate i = _
    by_cases hij : i = j
    · subst hij
      rw [if_pos rfl]
      exact (prepareRra_ahead hi he).1
    · rw [if_neg hij]
      exact prepareRra_skipUpdate_ne hij

/-- The stages before the rows keep the current row and the rows. -/
theorem Quiet.rowAt (h : Quiet s t) (i k d : ℕ) : t.rrd.rowAt i k d = s.rrd.rowAt i k d := by
  rw [Rrd.rowAt, Rrd.rowAt, Rrd.cellPos, Rrd.cellPos, h.curRow, h.values, h.defs.rraDef,
    h.defs.rraStart, h.defs.dsCnt]

theorem CountsRow.congr (h : CountsRow s.rrd i e) (hq : Quiet s t) : CountsRow t.rrd i e := by
  rw [CountsRow, hq.curRow]
  exact h

/-- **`update_all_cdp_prep`** refreshes the cache in a bulk update only. -/
theorem updateAllCdpPrep_cached (hi : SeasonalRra s.rrd i) (he : 0 < e)
    (hrow : CountsRow s.rrd i e) (hd : d < s.rrd.dsCnt)
    (h : updateAllCdpPrep e proc s = .ok t) :
    t.rrd.cached i d = (if 2 < e then s.rrd.rowAt i (e + 1) d else s.rrd.cached i d) ∧
      t.skipUpdate i = decide (1 < e) := by
  have hinv := forLoopE_invariant (fun k u => PrepFrame s u ∧
      (k ≤ i → u.rrd.cached i d = s.rrd.cached i d) ∧
      (i < k → u.rrd.cached i d = (if 2 < e then s.rrd.rowAt i (e + 1) d else s.rrd.cached i d) ∧
        u.skipUpdate i = decide (1 < e)))
    ⟨PrepFrame.refl s, fun _ => rfl, by simp⟩ ?_ h
  · exact hinv.2.2 hi.lt
  · rintro k u v - ⟨hf, hbefore, hafter⟩ hv
    have hq := hf.quiet
    have hf' : PrepFrame u v := Outcome.of_state_ok hv (updateAllCdpPrepRra_state e proc k u)
    have hdu : d < u.rrd.dsCnt := by
      rw [hq.defs.dsCnt]
      exact hd
    obtain ⟨hcached, hskip⟩ :=
      updateAllCdpPrepRra_cached (hi.congr hq.defs) he (hrow.congr hq) hdu hv
    refine ⟨hf.trans hf', fun hle => ?_, fun hlt => ?_⟩
    · rw [hcached, if_neg (by omega), hbefore (by omega)]
    · rcases Nat.lt_succ_iff_lt_or_eq.mp hlt with hlt' | rfl
      · have hik : i ≠ k := by omega
        rw [hcached, hskip, if_neg fun h => hik h.1, if_neg hik]
        exact hafter hlt'
      · rw [hcached, hskip, if_pos rfl, hbefore le_rfl, hq.rowAt]
        simp

/-! ## `update_aberrant_cdps` -/

/-- `update_seasonal` and `update_devseasonal` store the entry that they are given. -/
theorem updateAberrantCF_cached (hi : SeasonalRra r i) (v : RrdValue) (sc : ScratchIdx)
    (coef : ℕ → RrdValue) :
    ((updateAberrantCF r v i d sc coef).cdpPrep (r.cdpIdx i d)).hwSeasonal = coef d := by
  have hcf := hi.cf
  obtain ⟨fn, hfn⟩ := Option.isSome_iff_exists.mp hi.prediction
  have hscratch : ∀ (c : CdpPrep) x, (c.setScratch sc x).hwSeasonal = c.hwSeasonal := by
    intro c x
    cases sc <;> rfl
  simp only [updateAberrantCF, Rrd.setCdp_rraDef, hfn]
  cases hc : (r.rraDef i).cf <;> simp [hc, Cf.isSeasonal] at hcf
  · simp only [updateSeasonal, Rrd.cdpIdx, Rrd.setCdp_dsCnt, Rrd.setCdp_get_self, hscratch]
  · simp only [updateDevseasonal, Rrd.cdpIdx, Rrd.setCdp_dsCnt, Rrd.setCdp_get_self, hscratch]

/-- The DS loop of the array itself. -/
theorem aberrantLoop_cached (hi : SeasonalRra s.rrd i) (sc : ScratchIdx) (hd : d < s.rrd.dsCnt) :
    (aberrantLoop sc i s).rrd.cached i d = s.seasonalCoef d := by
  refine (forLoop_invariant (fun k (u : Upd) => CdpFrame s u ∧ u.seasonalCoef = s.seasonalCoef ∧
    (d < k → u.rrd.cached i d = s.seasonalCoef d))
    ⟨CdpFrame.refl s, rfl, by simp⟩ ?_).2.2 hd
  rintro k u hk ⟨hf, hcoef, hlow⟩
  have hset := updateAberrantCF_frame u.rrd i k sc u.seasonalCoef (u.pdpTemp k)
  have hdefs := hf.prep.sameDefs
  have hstore := updateAberrantCF_cached (d := k) (hi.congr hdefs) (u.pdpTemp k) sc u.seasonalCoef
  refine ⟨hf.trans (CdpFrame.setsCdp hset), hcoef, fun hlt => ?_⟩
  obtain ⟨c, hc⟩ := hset
  rw [hc, Rrd.setCdp_get_self] at hstore
  change (updateAberrantCF u.rrd (u.pdpTemp k) i k sc u.seasonalCoef).cached i d = _
  rw [hc, Rrd.cached, ← hcoef]
  rcases Nat.lt_succ_iff_lt_or_eq.mp hlt with hlt' | rfl
  · have hne : d ≠ k := by omega
    rw [Rrd.cdp_setCdp_of_ne (by rw [hdefs.dsCnt]; exact hk) (by rw [hdefs.dsCnt]; exact hd)
      (.inr hne), hcoef]
    exact hlow hlt'
  · rw [Rrd.cdp_setCdp_self]
    exact hstore

/-- The offset of the lookup in one pass. -/
def passAhead (e : ℕ) (sc : ScratchIdx) : ℕ := e + if sc = .primary then 1 else 2

/-- One RRA of one pass. -/
theorem updateAberrantRra_cached (hi : SeasonalRra s.rrd i) {sc : ScratchIdx}
    (hrow : s.rrd.curRow i + passAhead e sc < 2 ^ 64) (hd : d < s.rrd.dsCnt) {j : ℕ}
    (h : updateAberrantRra e sc j s = .ok t) :
    t.rrd.cached i d =
      if i = j then s.rrd.rowAt i (passAhead e sc) d else s.rrd.cached i d := by
  have hlr : (lookupAhead e sc j s).rrd = s.rrd := lookupAhead_rrd sc j s
  by_cases hij : i = j
  · subst hij
    rw [updateAberrantRra, if_pos hi.pdpCnt] at h
    obtain ⟨v, hv, ht⟩ := Outcome.andThen_eq_ok.mp h
    obtain ⟨rfl, -⟩ := testError_ok hv
    obtain rfl := Outcome.ok.inj ht
    rw [if_pos rfl, aberrantLoop_cached (by rw [hlr]; exact hi) sc (by rw [hlr]; exact hd)]
    simp only [lookupAhead, hi.cf, if_true]
    exact lookupSeasonal_eq hrow d
  · rw [if_neg hij]
    simp only [updateAberrantRra] at h
    split_ifs at h
    · obtain ⟨v, hv, ht⟩ := Outcome.andThen_eq_ok.mp h
      obtain ⟨rfl, -⟩ := testError_ok hv
      obtain rfl := Outcome.ok.inj ht
      have hother := aberrantLoop_other (s := lookupAhead e sc j s) (by rw [hlr]; exact hd) sc hij
      have hdefs := (aberrantLoop_frame sc j (lookupAhead e sc j s)).prep.sameDefs
      rw [Rrd.cached, Rrd.cdp, Rrd.cdpIdx, hdefs.dsCnt, hother, hlr]
      rfl
    · obtain rfl := Outcome.ok.inj h
      rfl

/-- **One pass.** -/
theorem updateAberrantPass_cached (hi : SeasonalRra s.rrd i) {sc : ScratchIdx}
    (hrow : s.rrd.curRow i + passAhead e sc < 2 ^ 64) (hd : d < s.rrd.dsCnt)
    (h : updateAberrantPass e sc s = .ok t) :
    t.rrd.cached i d = s.rrd.rowAt i (passAhead e sc) d := by
  have hinv := forLoopE_invariant (fun k u => CdpFrame s u ∧
      (i < k → u.rrd.cached i d = s.rrd.rowAt i (passAhead e sc) d))
    ⟨CdpFrame.refl s, by simp⟩ ?_ h
  · exact hinv.2 hi.lt
  · rintro k u v - ⟨hf, hafter⟩ hv
    have hq := hf.prep.quiet
    have hf' : CdpFrame u v := Outcome.of_state_ok hv (updateAberrantRra_state e sc k u)
    have hcached := updateAberrantRra_cached (hi.congr hq.defs) (by rw [hq.curRow]; exact hrow)
      (by rw [hq.defs.dsCnt]; exact hd) hv
    refine ⟨hf.trans hf', fun hlt => ?_⟩
    rcases Nat.lt_succ_iff_lt_or_eq.mp hlt with hlt' | rfl
    · rw [hcached, if_neg (by omega)]
      exact hafter hlt'
    · rw [hcached, if_pos rfl, hq.rowAt]

/-- **The cache before the rows are written**, after both CDP stages. -/
theorem cached_prepared (hi : SeasonalRra s.rrd i) (he : 0 < e) (hcur : s.rrd.curRow i < 2 ^ 63)
    (hrow : CountsRow s.rrd i e) (hd : d < s.rrd.dsCnt) (h : updateAllCdpPrep e proc s = .ok t)
    (h' : updateAberrantCdps e t = .ok u) :
    u.rrd.cached i d = s.rrd.rowAt i (lookedAhead e) d ∧ u.skipUpdate i = decide (1 < e) := by
  have hf : PrepFrame s t := Outcome.of_state_ok h (updateAllCdpPrep_state e proc s)
  have hf' : CdpFrame t u := Outcome.of_state_ok h' (updateAberrantCdps_state e t)
  have hq := hf.quiet
  have hit := hi.congr hq.defs
  have hdt : d < t.rrd.dsCnt := by
    rw [hq.defs.dsCnt]
    exact hd
  have hct : t.rrd.curRow i < 2 ^ 63 := by
    rw [hq.curRow]
    exact hcur
  obtain ⟨hcached, hskip⟩ := updateAllCdpPrep_cached hi he hrow hd h
  refine ⟨?_, by rw [hf'.skipUpdate, hskip]⟩
  simp only [updateAberrantCdps] at h'
  split_ifs at h' with hone htwo
  · -- a single step: the row after the next one
    subst hone
    have hpass : passAhead 1 .primary = 2 := rfl
    rw [updateAberrantPass_cached hit (by rw [hpass]; omega) hdt h', hq.rowAt]
    rfl
  · -- two steps: the second pass looks two rows further than the steps go
    subst htwo
    obtain ⟨v, hv, hu⟩ := Outcome.andThen_eq_ok.mp h'
    have hfv : CdpFrame t v := Outcome.of_state_ok hv (updateAberrantPass_state 2 .primary t)
    have hqv := hfv.prep.quiet
    have hpass : passAhead 2 .secondary = 4 := rfl
    rw [updateAberrantPass_cached (hit.congr hqv.defs) (by rw [hpass, hqv.curRow]; omega)
      (by rw [hqv.defs.dsCnt]; exact hdt) hu, hqv.rowAt, hq.rowAt]
    rfl
  · -- a bulk update
    obtain rfl := Outcome.ok.inj h'
    rw [hcached, if_pos (by omega), lookedAhead, if_neg htwo]

/-! ## Rows -/

/-- Rows that are skipped are passed over. -/
theorem writeRows_skipped {n : ℕ} {sc : ScratchIdx} (hskip : s.skipUpdate i = true)
    (h : writeRows i n sc s = .ok t) : t.rrd.values = s.rrd.values := by
  induction n generalizing sc s with
  | zero =>
    obtain rfl := Outcome.ok.inj h
    rfl
  | succ n ih =>
    obtain ⟨v, hv, ht⟩ := Outcome.andThen_eq_ok.mp h
    rw [writeNextRow_skip hskip] at hv
    obtain rfl := Outcome.ok.inj hv
    refine (@ih _ .secondary ?_ ht).trans rfl
    exact hskip

/-- An array whose rows are skipped keeps its column. -/
theorem writeToRras_skipped (hring : InRing s.rrd)
    (hskip : s.skipUpdate i = true) (h : writeToRras s = .ok t) {row : ℕ}
    (hr : row < (s.rrd.rraDef i).rowCnt) (hd : d < s.rrd.dsCnt) :
    t.rrd.values (s.rrd.cellPos i row d) = s.rrd.values (s.rrd.cellPos i row d) := by
  refine (forLoopE_invariant (fun _ u => RowFrame s u ∧
    u.rrd.values (s.rrd.cellPos i row d) = s.rrd.values (s.rrd.cellPos i row d))
    ⟨RowFrame.refl s, rfl⟩ ?_ h).2
  rintro k u v hk ⟨hf, hval⟩ hv
  have hdefs := hf.sameDefs
  have hf' : RowFrame u v := Outcome.of_state_ok hv (writeRows_state k _ .primary u)
  refine ⟨hf.trans hf', ?_⟩
  have hcell : s.rrd.cellPos i row d = u.rrd.cellPos i row d := by
    rw [Rrd.cellPos, Rrd.cellPos, hdefs.rraStart, hdefs.dsCnt]
  rw [← hval]
  by_cases hik : i = k
  · subst hik
    have hsu : u.skipUpdate i = true := by
      obtain ⟨_, _, _, _, _, rfl⟩ := hf
      exact hskip
    rw [writeRows_skipped hsu hv]
  · rw [hcell]
    refine writeRows_other (by rw [hdefs.dsCnt]; exact hd) ?_ hik hv (by rw [hdefs.rraDef]; exact hr)
    rw [hdefs.rraDef]
    exact Nat.lt_of_le_of_lt (Nat.zero_le _) (hring.curRow_lt k hk)

theorem InRing.congr (h : InRing r) (hd : SameDefs r r') (hcur : ∀ i, i < r.rraCnt →
    r'.curRow i < (r.rraDef i).rowCnt) : InRing r' := by
  refine ⟨fun i hi => ?_, fun i hi => ?_⟩
  · rw [hd.rraCnt] at hi
    rw [hd.rraDef]
    exact hcur i hi
  · rw [hd.rraCnt] at hi
    rw [hd.rraDef]
    exact h.rowCnt_lt i hi

theorem InRing.of_quiet (h : InRing s.rrd) (hq : Quiet s t) : InRing t.rrd := by
  refine h.congr hq.defs fun i hi => ?_
  rw [hq.curRow]
  exact h.curRow_lt i hi

theorem InRing.rowCnt_pos (h : InRing r) : ∀ i, i < r.rraCnt → 0 < (r.rraDef i).rowCnt :=
  fun i hi => Nat.lt_of_le_of_lt (Nat.zero_le _) (h.curRow_lt i hi)

/-- Rows stay inside their rings. -/
theorem writeToRras_inRing (hring : InRing s.rrd) (h : writeToRras s = .ok t) : InRing t.rrd := by
  obtain ⟨hrows, hcur⟩ := writeToRras_ok hring.rowCnt_pos h
  refine hring.congr hrows.1.sameDefs fun i hi => ?_
  rw [hcur i hi, stepRow_eq_mod (hring.curRow_lt i hi)]
  exact Nat.mod_lt _ (hring.rowCnt_pos i hi)

theorem processPdps_inRing {interval : ℚ} (hring : InRing s.rrd)
    (h : processPdps env interval s = .ok t) : InRing t.rrd := by
  rcases processPdps_eq_ok h with ⟨-, rfl⟩ | ⟨-, a, b, c, ha, hb, hc, hw⟩
  · exact hring.of_quiet (simpleUpdate_frame interval s).quiet
  · have hfa : PdpFrame s a := Outcome.of_state_ok ha (processAllPdpSt_state _ _ _ s)
    have hfb : PrepFrame a b := Outcome.of_state_ok hb (updateAllCdpPrep_state _ _ a)
    have hfc : CdpFrame b c := Outcome.of_state_ok hc (updateAberrantCdps_state _ b)
    have hq := hfa.quiet.trans (hfb.quiet.trans hfc.prep.quiet)
    exact writeToRras_inRing (hring.of_quiet hq) hw

/-- **What `e` steps leave**: the entry in the cache, and the one in the next row. -/
theorem aheadEntry_eq {interval : ℚ} (hi : SeasonalRra s.rrd i) (hring : InRing s.rrd)
    (hel : (calculateElapsedSteps s.rrd s.currentTime.toNat s.currentTimeUsec
      interval).elapsedPdpSt = e) (he : 0 < e) (hcounts : CountsRow s.rrd i e)
    (hone : e = 1 → 1 < (s.rrd.rraDef i).rowCnt) (hd : d < s.rrd.dsCnt)
    (h : processPdps env interval s = .ok t) :
    t.rrd.cached i d = s.rrd.rowAt i (lookedAhead e) d ∧
      t.rrd.rowAt i 1 d = s.rrd.rowAt i (e + 1) d := by
  rcases processPdps_eq_ok h with ⟨hz, -⟩ | ⟨-, a, b, c, ha, hb, hc, hw⟩
  · omega
  rw [hel] at hb hc
  have hfa : PdpFrame s a := Outcome.of_state_ok ha (processAllPdpSt_state _ _ _ s)
  have hfb : PrepFrame a b := Outcome.of_state_ok hb (updateAllCdpPrep_state _ _ a)
  have hfc : CdpFrame b c := Outcome.of_state_ok hc (updateAberrantCdps_state _ b)
  have hqa := hfa.quiet
  have hqc := hqa.trans (hfb.quiet.trans hfc.prep.quiet)
  have hia := hi.congr hqa.defs
  have hdc : d < c.rrd.dsCnt := by
    rw [hqc.defs.dsCnt]
    exact hd
  have hringc : InRing c.rrd := hring.of_quiet hqc
  have hcura : a.rrd.curRow i < 2 ^ 63 := by
    rw [hqa.curRow]
    exact (hring.curRow_lt i hi.lt).trans (hring.rowCnt_lt i hi.lt)
  obtain ⟨hcached, hskip⟩ := cached_prepared hia he hcura (hcounts.congr hqa)
    (by rw [hqa.defs.dsCnt]; exact hd) hb hc
  have hsteps : c.rraStepCnt i = e := by
    rw [hfc.rraStepCnt, updateAllCdpPrep_rraStepCnt hb hia.lt, hia.pdpCnt, rraSteps_one he]
  obtain ⟨hrows, hcur⟩ := writeToRras_ok hringc.rowCnt_pos hw
  have hdefs := hrows.1.sameDefs
  have hic : i < c.rrd.rraCnt := (hi.congr hqc.defs).lt
  refine ⟨?_, ?_⟩
  · rw [Rrd.cached, Rrd.cdp, hrows.1.cdpPrep.1, Rrd.cdpIdx, hdefs.dsCnt]
    exact hcached.trans (hqa.rowAt i _ d)
  · rw [← hqc.rowAt i (e + 1) d]
    by_cases hbulk : 1 < e
    · -- the rows are passed over
      rw [decide_eq_true hbulk] at hskip
      have hindex : (t.rrd.curRow i + 1) % (t.rrd.rraDef i).rowCnt =
          (c.rrd.curRow i + (e + 1)) % (c.rrd.rraDef i).rowCnt := by
        rw [hcur i hic, stepRow_eq_mod (hringc.curRow_lt i hic), hsteps, hdefs.rraDef,
          Nat.mod_add_mod, Nat.add_assoc]
      rw [Rrd.rowAt, Rrd.rowAt, hindex, Rrd.cellPos, hdefs.rraStart, hdefs.dsCnt]
      exact writeToRras_skipped hringc hskip hw (Nat.mod_lt _ (hringc.rowCnt_pos i hic)) hdc
    · -- the new row is not the next one
      obtain rfl : e = 1 := by omega
      have hrow := (writeToRras_rowAt hringc hic ⟨hsteps, hskip⟩ hw).2 1 d hdc
      have hmod : 1 % (c.rrd.rraDef i).rowCnt ≠ 0 := by
        rw [hqc.defs.rraDef, Nat.mod_eq_of_lt (hone rfl)]
        exact one_ne_zero
      rw [hrow, if_neg hmod]

/-! ## Arguments -/

/-- The steps that the readings of an argument cross. -/
def elapsedSteps (s : Upd) : ℕ :=
  (calculateElapsedSteps s.rrd s.currentTime.toNat s.currentTimeUsec
    (updateInterval s)).elapsedPdpSt

/-- **What `e` steps have to find** to leave the cache of RRA `i` current: more than one row for a
single step, and for two steps the same entry in the rows three and four after the current one. -/
structure CacheSafe (r : Rrd) (i e : ℕ) : Prop where
  oneStep : e = 1 → 1 < (r.rraDef i).rowCnt
  twoSteps : e = 2 → ∀ d, d < r.dsCnt → r.rowAt i 4 d = r.rowAt i 3 d
  counts : CountsRow r i e

/-- The entry that the steps have looked up is the next one. -/
theorem CacheSafe.ahead (h : CacheSafe r i e) (hd : d < r.dsCnt) :
    r.rowAt i (lookedAhead e) d = r.rowAt i (e + 1) d := by
  by_cases htwo : e = 2
  · subst htwo
    exact h.twoSteps rfl d hd
  · rw [lookedAhead, if_neg htwo]

theorem CacheCurrent.congr (h : CacheCurrent s.rrd i) (hq : Quiet s t)
    (hcdp : t.rrd.cdpPrep = s.rrd.cdpPrep) : CacheCurrent t.rrd i := by
  intro d hd
  rw [hq.defs.dsCnt] at hd
  rw [hq.rowAt, ← h d hd, Rrd.cached, Rrd.cached, Rrd.cdp, Rrd.cdp, Rrd.cdpIdx, hq.defs.dsCnt, hcdp]

/-- **The readings of an argument** keep the cache current. -/
theorem processReadings_cache (hi : SeasonalRra s.rrd i) (hring : InRing s.rrd)
    (hcache : CacheCurrent s.rrd i) (hsafe : CacheSafe s.rrd i (elapsedSteps s))
    (h : processReadings env s = .ok t) : InRing t.rrd ∧ CacheCurrent t.rrd i := by
  obtain ⟨w, hw, ht⟩ := Outcome.andThen_eq_ok.mp h
  obtain ⟨v, hv, hw⟩ := Outcome.andThen_eq_ok.mp hw
  obtain rfl := Outcome.ok.inj ht
  have hf : PdpFrame s v := Outcome.of_state_ok hv (updatePdpPrep_state _ s)
  have hq := hf.quiet
  have hel : (calculateElapsedSteps v.rrd v.currentTime.toNat v.currentTimeUsec
      (updateInterval s)).elapsedPdpSt = elapsedSteps s := by
    obtain ⟨_, _, _, rfl⟩ := hf
    rfl
  have hringv := hring.of_quiet hq
  have hringw := processPdps_inRing hringv hw
  have hdone : CacheCurrent w.rrd i := by
    rcases Nat.eq_zero_or_pos (elapsedSteps s) with hz | hpos
    · -- no step is crossed
      rcases processPdps_eq_ok hw with ⟨-, rfl⟩ | ⟨hne, -⟩
      · have hfs := simpleUpdate_frame (updateInterval s) v
        exact (hcache.congr hq hf.cdpPrep).congr hfs.quiet hfs.cdpPrep
      · exact absurd (hel.trans hz) hne
    · intro d hd
      have hk : Keeps v w := Outcome.of_state_ok hw (processPdps_keeps _ v)
      rw [hk.defs.dsCnt] at hd
      have hone : elapsedSteps s = 1 → 1 < (v.rrd.rraDef i).rowCnt := fun he => by
        rw [hq.defs.rraDef]
        exact hsafe.oneStep he
      obtain ⟨hcached, hnext⟩ := aheadEntry_eq (hi.congr hq.defs) hringv hel hpos
        (hsafe.counts.congr hq) hone hd hw
      rw [hcached, hnext, hq.rowAt, hq.rowAt]
      exact hsafe.ahead (by rw [← hq.defs.dsCnt]; exact hd)
  exact ⟨⟨hringw.curRow_lt, hringw.rowCnt_lt⟩, hdone⟩

/-! ## Smoothing -/

/-- **The smoother has nothing to do** in RRA `i`: its window is one row, or a value is unknown. -/
def Unsmoothed (r : Rrd) (i : ℕ) : Prop :=
  smootherOffset r i = 0 ∨
    ∃ p, p < (r.rraDef i).rowCnt * r.dsCnt ∧ (r.values (r.rraStart i + p)).isnan = true

theorem applySmoother_unsmoothed (h : Unsmoothed r i) : applySmoother r i = .ok r := by
  simp only [applySmoother]
  split_ifs with hoffset hnan
  · rfl
  · rfl
  · rcases h with h | ⟨p, hp, hval⟩
    · exact absurd h hoffset
    · exact absurd (List.any_eq_true.mpr ⟨p, List.mem_range.mpr hp, hval⟩) hnan
  · rcases h with h | ⟨p, hp, hval⟩
    · exact absurd h hoffset
    · exact absurd (List.any_eq_true.mpr ⟨p, List.mem_range.mpr hp, hval⟩) hnan

/-- What a smoothing run keeps of an array that it does not smooth. -/
structure ArrayKept (i : ℕ) (r r' : Rrd) : Prop where
  keeps : SmoothKeeps i r r'
  cached : ∀ d, d < r.dsCnt → r'.cached i d = r.cached i d

theorem ArrayKept.trans {r'' : Rrd} (h : ArrayKept i r r') (h' : ArrayKept i r' r'') :
    ArrayKept i r r'' := by
  refine ⟨h.keeps.trans h'.keeps, fun d hd => ?_⟩
  rw [h'.cached d (by rw [h.keeps.frame.sameDefs.dsCnt]; exact hd)]
  exact h.cached d hd

theorem Unsmoothed.congr (h : Unsmoothed r i) (hk : SmoothKeeps i r r') : Unsmoothed r' i := by
  have hdefs := hk.frame.sameDefs
  rcases h with h | ⟨p, hp, hval⟩
  · left
    rw [smootherOffset, hdefs.rraDef, hdefs.version]
    exact h
  · right
    refine ⟨p, by rw [hdefs.rraDef, hdefs.dsCnt]; exact hp, ?_⟩
    have hlast : r.rraStart i + p < r.rraStart (i + 1) := by
      rw [Rrd.rraStart_succ]
      omega
    rw [hdefs.rraStart, hk.block _ (Nat.le_add_right _ p) hlast]
    exact hval

/-- The renormalisation stores into the areas of a prediction. -/
theorem smootherRenormalise_cached {j : ℕ} (hne : (r.rraDef j).dependentRraIdx ≠ i) (m : Smoother)
    (init : RrdValue → RrdValue → RrdValue) (hd : d < r.dsCnt) :
    (smootherRenormalise r j m init).1.cached i d = r.cached i d := by
  refine (forLoop_invariant (fun _ (t : Rrd) => t.dsCnt = r.dsCnt ∧ t.cached i d = r.cached i d)
    ⟨rfl, rfl⟩ ?_).2
  rintro k t hk ⟨hds, hcached⟩
  refine ⟨hds, ?_⟩
  rw [← hcached]
  exact congrArg CdpPrep.hwSeasonal (Rrd.cdp_setCdp_of_ne (by rw [hds]; exact hk)
    (by rw [hds]; exact hd) (.inl hne.symm) _)

/-- The smoother on another array. -/
theorem applySmoother_arrayKept (hi : SeasonalRra r i) {j : ℕ} (hij : i ≠ j) :
    ArrayKept i r (applySmoother r j).state := by
  refine ⟨applySmoother_keeps hij r, fun d hd => ?_⟩
  simp only [applySmoother]
  split_ifs
  · rfl
  · rfl
  · cases hfn : hwFunctionsOf (r.rraDef (r.rraDef j).dependentRraIdx).cf with
    | none => rfl
    | some fn =>
      refine smootherRenormalise_cached ?_ _ _ hd
      rintro rfl
      have hcf := hi.cf
      cases hc : (r.rraDef (r.rraDef j).dependentRraIdx).cf <;>
        simp [hc, Cf.isSeasonal, hwFunctionsOf] at hcf hfn
  · rfl

/-- **A smoothing run** that leaves the array alone leaves its cache current. -/
theorem smoothAllRras_arrayKept (hi : SeasonalRra r i) (h : Unsmoothed r i) :
    ArrayKept i r (smoothAllRras r) := by
  refine forLoopE_state (ArrayKept i r) ⟨SmoothKeeps.refl i r, fun _ _ => rfl⟩ fun j t _ ht => ?_
  split
  · by_cases hij : i = j
    · subst hij
      rw [applySmoother_unsmoothed (h.congr ht.keeps)]
      exact ht
    · exact ht.trans (applySmoother_arrayKept (hi.congr ht.keeps.frame.sameDefs) hij)
  · exact ht

theorem ArrayKept.cacheCurrent (h : ArrayKept i r r') (hi : i < r.rraCnt) (hring : InRing r)
    (hcache : CacheCurrent r i) : InRing r' ∧ CacheCurrent r' i := by
  have hdefs := h.keeps.frame.sameDefs
  have hcur : r'.curRow = r.curRow := by
    obtain ⟨_, _, hr⟩ := h.keeps.frame
    rw [hr]
  refine ⟨hring.congr hdefs fun j hj => ?_, fun d hd => ?_⟩
  · rw [hcur]
    exact hring.curRow_lt j hj
  · rw [hdefs.dsCnt] at hd
    have hmem := Rrd.cellPos_mem (i := i) hd (Nat.mod_lt (r.curRow i + 1) (hring.rowCnt_pos i hi))
    have hpos : r'.cellPos i ((r'.curRow i + 1) % (r'.rraDef i).rowCnt) d =
        r.cellPos i ((r.curRow i + 1) % (r.rraDef i).rowCnt) d := by
      rw [Rrd.cellPos, Rrd.cellPos, hdefs.rraStart, hdefs.dsCnt, hdefs.rraDef, hcur]
    rw [h.cached d hd, hcache d hd, Rrd.rowAt, Rrd.rowAt, hpos]
    exact (h.keeps.block _ hmem.1 hmem.2).symm

/-! ## Runs -/

/-- **Runs of successful calls** on a file, in which every call meets a condition on the argument loop
it starts. -/
inductive UpdateRun (safe : Env → List ℕ → List Text → Upd → Prop) (r : Rrd) : Rrd → Prop where
  | start : UpdateRun safe r r
  | call {r' r'' : Rrd} {tmpl : List ℕ} (env : Env) (junk : Upd) (tmplt : Option Text)
      (args : List Text) : UpdateRun safe r r' → tmplIdxOf r' tmplt = .ok tmpl →
      safe env tmpl args (junk.start r') → rrdUpdateR env junk tmplt args r' = .ok r'' →
      UpdateRun safe r r''

/-- What the arguments of a call have to find for RRA `i`, and its smoothing run. -/
def CacheSafeArgs (i : ℕ) (env : Env) (tmpl : List ℕ) : List Text → Upd → Prop
  | [], s => s.scheduleSmooth = true → Unsmoothed s.rrd i
  | arg :: args, s =>
    (∀ u, parseDsWith env tmpl arg s = .ok u → CacheSafe u.rrd i (elapsedSteps u)) ∧
      ∀ t, processArgWith env tmpl arg s = .ok t → CacheSafeArgs i env tmpl args t

theorem processArgsWith_cache {tmpl : List ℕ} {args : List Text} (hi : SeasonalRra s.rrd i)
    (hring : InRing s.rrd) (hcache : CacheCurrent s.rrd i) (hsafe : CacheSafeArgs i env tmpl args s)
    (h : processArgsWith env tmpl args s = .ok t) :
    SeasonalRra t.rrd i ∧ InRing t.rrd ∧ CacheCurrent t.rrd i ∧
      (t.scheduleSmooth = true → Unsmoothed t.rrd i) := by
  induction args generalizing s with
  | nil =>
    obtain rfl := Outcome.ok.inj h
    exact ⟨hi, hring, hcache, hsafe⟩
  | cons arg args ih =>
    obtain ⟨v, hv, ht⟩ := Outcome.andThen_eq_ok.mp h
    obtain ⟨u, hu, huv⟩ := Outcome.andThen_eq_ok.mp hv
    have hread := hsafe.1 u hu
    have hdefs : SameDefs u.rrd v.rrd := Outcome.of_state_ok huv
      (P := HasDefs u.rrd) (processReadings_hasDefs env (SameDefs.refl u.rrd))
    have hparse : u.rrd = s.rrd := by
      obtain ⟨_, _, _, rfl⟩ : ParseFrame s u := Outcome.of_state_ok hu (parseDsWith_state tmpl arg s)
      rfl
    rw [← hparse] at hi hring hcache
    obtain ⟨hringv, hcachev⟩ := processReadings_cache hi hring hcache hread huv
    exact ih (hi.congr hdefs) hringv hcachev (hsafe.2 v hv) ht

/-- **One call.** -/
theorem rrdUpdateR_cache {junk : Upd} {tmplt : Option Text} {tmpl : List ℕ} {args : List Text}
    (hi : SeasonalRra r i) (hring : InRing r) (hcache : CacheCurrent r i)
    (htm : tmplIdxOf r tmplt = .ok tmpl) (hsafe : CacheSafeArgs i env tmpl args (junk.start r))
    (h : rrdUpdateR env junk tmplt args r = .ok r') :
    SeasonalRra r' i ∧ InRing r' ∧ CacheCurrent r' i := by
  simp only [rrdUpdateR, htm] at h
  split_ifs at h
  cases hp : processArgsWith env tmpl args (junk.start r) with
  | fail e s => simp [hp] at h
  | ok s =>
    simp only [hp] at h
    obtain rfl := Outcome.ok.inj h
    obtain ⟨his, hrings, hcaches, hsmooth⟩ := processArgsWith_cache hi hring hcache hsafe hp
    split_ifs with hs
    · have hkept := smoothAllRras_arrayKept his (hsmooth hs)
      exact ⟨his.congr hkept.keeps.frame.sameDefs, hkept.cacheCurrent his.lt hrings hcaches⟩
    · exact ⟨his, hrings, hcaches⟩

/-- A new file has unknown entries everywhere. -/
theorem cacheCurrent_create {a : CreateArgs} {random : ℕ → ℕ}
    (hsmall : (rrdCreateFn a random).wantedCnt < 2 ^ 31) (hi : i < a.rraCnt)
    (hcf : (a.rraDef i).cf.isSeasonal = true) : CacheCurrent (rrdCreateFn a random) i := by
  intro d hd
  rw [rowAt_create hsmall hi hd, Rrd.cached, cdp_create hd, CreateArgs.cdpOf, forLoop_succ,
    CreateArgs.initCdp]
  cases hc : (a.rraDef i).cf <;> simp [hc, Cf.isSeasonal] at hcf
  · rfl
  · rfl

theorem inRing_create (a : CreateArgs) (random : ℕ → ℕ) : InRing (rrdCreateFn a random) :=
  ⟨fun i hi => Nat.mod_lt _ (a.rowCnt_pos i hi), fun i hi => (a.rowCnt_lt i hi).trans (by norm_num)⟩

/-- **The cache of a seasonal array** holds the entry for the next observation, after every run of
successful calls that takes no two steps at once (unless the entries agree), makes no single step in
an array of one row, counts its rows in an `unsigned long`, and does not smooth the array. -/
theorem seasonal_cache {a : CreateArgs} {random : ℕ → ℕ}
    (hsmall : (rrdCreateFn a random).wantedCnt < 2 ^ 31)
    (hi : SeasonalRra (rrdCreateFn a random) i)
    (hrun : UpdateRun (CacheSafeArgs i) (rrdCreateFn a random) r) : CacheCurrent r i := by
  have hinv : SeasonalRra r i ∧ InRing r ∧ CacheCurrent r i := by
    induction hrun with
    | start => exact ⟨hi, inRing_create a random, cacheCurrent_create hsmall hi.lt hi.cf⟩
    | call env junk tmplt args _ htm hsafe h ih =>
      exact rrdUpdateR_cache ih.1 ih.2.1 ih.2.2 htm hsafe h
  exact hinv.2.2

theorem holtWinters_seasonal : SeasonalRra (rrdCreateFn .holtWinters fun _ => 0) 1 :=
  ⟨by decide, rfl, rfl, rfl⟩

/-- Five steps at once. They complete a season, but the window of the smoother is one row. -/
theorem five_steps_current :
    let r := rrdCreateFn .holtWinters fun _ => 0
    let args := ["2400:1".toList]
    (rrdUpdateR .bare (.blank r) none args r).isOk = true ∧
      CacheCurrent (rrdUpdateR .bare (.blank r) none args r).state 1 := by
  intro r args
  have hok : (rrdUpdateR .bare (.blank r) none args r).isOk = true := by decide +kernel
  refine ⟨hok, seasonal_cache (by decide) holtWinters_seasonal
    (.call .bare (.blank r) none args .start rfl ?_ (Outcome.eq_ok_state hok))⟩
  refine ⟨fun u hu => ?_, fun t ht _ => ?_⟩
  · obtain rfl : (parseDsWith _ _ _ _).state = u := Outcome.of_state_ok hu rfl
    have hsteps : elapsedSteps (parseDsWith .bare (tmplIdx r) "2400:1".toList
        ((Upd.blank r).start r)).state = 5 := by decide +kernel
    rw [hsteps]
    refine ⟨fun h => absurd h (by decide), fun h => absurd h (by decide), ?_⟩
    rw [CountsRow]
    decide +kernel
  · obtain rfl : (processArgWith _ _ _ _).state = t := Outcome.of_state_ok ht rfl
    exact .inl (by decide +kernel)

/-- **Two steps look up one entry too far**: the cache holds the entry after the next one. -/
theorem two_steps_stale : ¬ ∀ (a : CreateArgs) (random : ℕ → ℕ) (i : ℕ) (r : Rrd),
    (rrdCreateFn a random).wantedCnt < 2 ^ 31 → SeasonalRra (rrdCreateFn a random) i →
    UpdateRun (fun _ _ _ _ => True) (rrdCreateFn a random) r → CacheCurrent r i := by
  intro h
  let r := rrdCreateFn .holtWinters fun _ => 0
  let args := ["1200:0".toList, "1500:1".toList, "2100:0".toList]
  have hok : (rrdUpdateR .bare (.blank r) none args r).isOk = true := by decide +kernel
  have hcache := h .holtWinters (fun _ => 0) 1 _ (by decide) holtWinters_seasonal
    (.call .bare (.blank r) none args .start rfl trivial (Outcome.eq_ok_state hok)) 0
    (by decide +kernel)
  have hcached : (rrdUpdateR .bare (.blank r) none args r).state.cached 1 0 = .num 1 := by
    decide +kernel
  have hnext : (rrdUpdateR .bare (.blank r) none args r).state.rowAt 1 1 0 = .num 0 := by
    decide +kernel
  rw [hcached, hnext] at hcache
  exact absurd hcache (by decide)

end Rrdtool
