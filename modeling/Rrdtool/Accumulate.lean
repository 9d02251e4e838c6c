import Rrdtool.Atomic
import Rrdtool.Position

/-!
# What an argument leaves in `pdp_prep`

`update_pdp_prep` stores the reading, and then either `simple_update` adds the amount of the interval
to the PDP, or `process_pdp_st` completes the PDP and starts the next one. Both are described here for
one DS at a time, for every argument that succeeds (`processArg_pdpPrep`).
-/

namespace Rrdtool

open Loop

variable {env : Env} {s t u w : Upd} {interval : ℚ} {i : ℕ}

/-- `simple_update`: the `pdp_prep` of DS `i` with the amount of the interval. -/
def Upd.added (w : Upd) (interval : ℚ) (i : ℕ) : PdpPrep :=
  let p := w.rrd.pdpPrep i
  if (w.pdpNew i).isnan then { p with unknSecCnt := p.unknSecCnt + ⌊interval⌋.toNat }
  else if p.pdpVal.isnan then { p with pdpVal := w.pdpNew i }
  else { p with pdpVal := p.pdpVal + w.pdpNew i }

/-- **`simple_update`**, one DS at a time. -/
theorem simpleUpdate_pdpPrep (interval : ℚ) (w : Upd) :
    (simpleUpdate interval w).rrd.pdpPrep =
      fun i => if i < w.rrd.dsCnt then w.added interval i else w.rrd.pdpPrep i := by
  have hinv : (simpleUpdate interval w).pdpNew = w.pdpNew ∧ (simpleUpdate interval w).rrd.pdpPrep =
      fun i => if i < w.rrd.dsCnt then w.added interval i else w.rrd.pdpPrep i := by
    refine forLoop_invariant (fun k (t : Upd) => t.pdpNew = w.pdpNew ∧
      t.rrd.pdpPrep = fun i => if i < k then w.added interval i else w.rrd.pdpPrep i)
      ⟨rfl, by simp⟩ ?_
    rintro k t - ⟨hnew, hprep⟩
    refine ⟨hnew, ?_⟩
    have hk : t.rrd.pdpPrep k = w.rrd.pdpPrep k := by simp [hprep]
    have hadd : t.added interval k = w.added interval k := by simp only [Upd.added, hnew, hk]
    change Function.update t.rrd.pdpPrep k (t.added interval k) = _
    rw [hadd, hprep, update_below]
  exact hinv.2

/-- An argument keeps the definitions. -/
theorem processArg_sameDefs {arg : Text} (h : processArg env arg s = .ok t) : SameDefs s.rrd t.rrd := by
  obtain ⟨u, v, w, hu, hv, hw, rfl⟩ := processArg_eq_ok h
  have hsu : SameDefs s.rrd u.rrd := (Outcome.of_state_ok hu (parseDs_state arg s)).sameDefs
  have huv : SameDefs u.rrd v.rrd := (Outcome.of_state_ok hv (updatePdpPrep_state _ u)).sameDefs
  have hvw : SameDefs v.rrd w.rrd := by
    obtain ⟨-, rfl⟩ | ⟨-, a, b, c, ha, hb, hc, hw⟩ := processPdps_eq_ok hw
    · exact (simpleUpdate_frame _ v).sameDefs
    · have hva := (Outcome.of_state_ok ha (processAllPdpSt_state env.lib _ _ v)).sameDefs
      have hab := (Outcome.of_state_ok hb (updateAllCdpPrep_state _ _ a)).sameDefs
      have hbc := (Outcome.of_state_ok hc (updateAberrantCdps_state _ b)).prep.sameDefs
      have hcw := (Outcome.of_state_ok hw (writeToRras_state c)).sameDefs
      exact ((hva.trans hab).trans hbc).trans hcw
  exact ((hsu.trans huv).trans hvw).trans ⟨rfl, rfl, rfl, rfl, rfl, rfl, rfl⟩

/-- The `pdp_prep` of DS `i` behind `update_pdp_prep`, for a parsed argument. -/
def Upd.next (u : Upd) (interval : ℚ) (i : ℕ) : PdpPrep :=
  let w := u.prepared interval u.rrd.dsCnt
  if (u.elapsed interval).elapsedPdpSt = 0 then w.added interval i
  else w.ready interval (u.elapsed interval).postInt i

/-- **What an argument that succeeds leaves in `pdp_prep`.** -/
theorem processArg_pdpPrep {arg : Text} (h : processArg env arg s = .ok t) :
    ∃ u, parseDs env arg s = .ok u ∧
      (∀ i, i < u.rrd.dsCnt → u.refuses (updateInterval u) i = false) ∧
      t.rrd.lastUp = u.currentTime.toNat ∧ t.rrd.lastUpUsec = u.currentTimeUsec ∧
      ∀ i, i < u.rrd.dsCnt → t.rrd.pdpPrep i = u.next (updateInterval u) i := by
  obtain ⟨u, v, w, hu, hv, hw, rfl⟩ := processArg_eq_ok h
  obtain ⟨hgood, rfl⟩ := updatePdpPrep_loop.mp hv
  refine ⟨u, hu, hgood, ?_⟩
  obtain ⟨hzero, rfl⟩ | ⟨hne, a, b, c, ha, hb, hc, hw⟩ := processPdps_eq_ok hw
  · have hprep := simpleUpdate_pdpPrep (updateInterval u) (u.prepared (updateInterval u) u.rrd.dsCnt)
    have hframe := simpleUpdate_frame (updateInterval u) (u.prepared (updateInterval u) u.rrd.dsCnt)
    generalize simpleUpdate (updateInterval u) (u.prepared (updateInterval u) u.rrd.dsCnt) = w
      at hprep hframe ⊢
    obtain ⟨_, _, _, rfl⟩ := hframe
    refine ⟨rfl, rfl, fun i hi => ?_⟩
    have hz : (u.elapsed (updateInterval u)).elapsedPdpSt = 0 := hzero
    have hi' : i < (u.prepared (updateInterval u) u.rrd.dsCnt).rrd.dsCnt := hi
    simp only [Upd.next, hz, if_true]
    exact (congrFun hprep i).trans (if_pos hi')
  · obtain ⟨hrrd, -⟩ := processPdpSt_loop ha
    have hframe : PdpFrame _ a := Outcome.of_state_ok ha (processAllPdpSt_state env.lib _ _ _)
    have hfb : PrepFrame a b := Outcome.of_state_ok hb (updateAllCdpPrep_state _ _ a)
    have hfc : CdpFrame b c := Outcome.of_state_ok hc (updateAberrantCdps_state _ b)
    have hfw : RowFrame c w := Outcome.of_state_ok hw (writeToRras_state c)
    have hkeep : (setLastUp w).rrd.pdpPrep = a.rrd.pdpPrep ∧ w.currentTime = a.currentTime ∧
        w.currentTimeUsec = a.currentTimeUsec := by
      obtain ⟨_, _, _, _, _, _, _, _, rfl⟩ := hfb
      obtain ⟨_, _, _, _, rfl⟩ := hfc
      obtain ⟨_, _, _, _, _, rfl⟩ := hfw
      exact ⟨rfl, rfl, rfl⟩
    have htime : a.currentTime = u.currentTime ∧ a.currentTimeUsec = u.currentTimeUsec := by
      obtain ⟨_, _, _, rfl⟩ := hframe
      exact ⟨rfl, rfl⟩
    refine ⟨?_, ?_, fun i hi => ?_⟩
    · change w.currentTime.toNat = _
      rw [hkeep.2.1, htime.1]
    · change w.currentTimeUsec = _
      rw [hkeep.2.2, htime.2]
    · have hz : ¬(u.elapsed (updateInterval u)).elapsedPdpSt = 0 := hne
      have hi' : i < (u.prepared (updateInterval u) u.rrd.dsCnt).rrd.dsCnt := hi
      simp only [Upd.next, if_neg hz]
      rw [hkeep.1, hrrd]
      exact if_pos hi'

/-! ## The PDP that an argument completes -/

/-- `process_pdp_st`: the PDP of DS `i` over the `diff` seconds of the completed steps. -/
def Upd.pdpSt (w : Upd) (interval preInt : ℚ) (diff i : ℕ) : RrdValue :=
  let p := w.rrd.pdpPrep i
  let new := w.pdpNew i
  let val := if new.isnan then p.pdpVal
    else (if p.pdpVal.isnan then .num 0 else p.pdpVal) + new / .num interval * .num preInt
  if ((w.rrd.dsDef i).mrhbCnt : ℚ) < interval ∨ (w.rrd.pdpStep : ℚ) / 2 < p.unknSecCnt then dnan
  else val / .num ((diff : ℚ) - p.unknSecCnt - if new.isnan then preInt else 0)

section Temp

variable {lib : Libm} {preInt postInt : ℚ} {diff k : ℕ}

/-- One pass writes the `pdp_temp` of its DS. -/
theorem processPdpSt_pdpTemp (h : processPdpSt lib interval preInt postInt diff i s = .ok t) :
    (∀ j, j ≠ i → t.pdpTemp j = s.pdpTemp j) ∧
      ((s.rrd.dsDef i).dst ≠ .cdef → t.pdpTemp i = s.pdpSt interval preInt diff i) := by
  simp only [processPdpSt] at h
  split at h
  · rename_i hc
    split at h
    · exact absurd h (by simp)
    · obtain rfl := Outcome.ok.inj h
      refine ⟨fun j hj => ?_, fun hn => absurd hc hn⟩
      simp [Function.update_of_ne hj]
  · obtain rfl := Outcome.ok.inj h
    refine ⟨fun j hj => Function.update_of_ne hj _ _, fun _ => ?_⟩
    simp only [Function.update_self, Upd.pdpSt]
    split_ifs <;> rfl

/-- The passes of `process_all_pdp_st` write the `pdp_temp` of every DS that is not computed. -/
theorem processPdpSt_loop_pdpTemp
    (h : forLoopE k (processPdpSt lib interval preInt postInt diff) s = .ok t) :
    ∀ j, j < k → (s.rrd.dsDef j).dst ≠ .cdef → t.pdpTemp j = s.pdpSt interval preInt diff j := by
  induction k generalizing t with
  | zero => exact fun j hj => absurd hj (Nat.not_lt_zero j)
  | succ k ih =>
    rw [forLoopE_succ] at h
    obtain ⟨u, hu, ht⟩ := Outcome.andThen_eq_ok.mp h
    obtain ⟨hother, hown⟩ := processPdpSt_pdpTemp ht
    intro j hj hc
    obtain hj | rfl := Nat.lt_succ_iff_lt_or_eq.mp hj
    · rw [hother j hj.ne, ih hu j hj hc]
    · -- the scratch values of this DS have not been touched before
      obtain ⟨hrrd, hnew⟩ := processPdpSt_loop hu
      rw [hown (by rw [hrrd]; exact hc)]
      simp only [Upd.pdpSt, hrrd, hnew, lt_irrefl, if_false]

/-- **The PDP that an argument that succeeds has completed.** -/
theorem processArg_pdpTemp {arg : Text} (h : processArg env arg s = .ok t)
    (hu : parseDs env arg s = .ok u) (hne : (u.elapsed (updateInterval u)).elapsedPdpSt ≠ 0)
    (hi : i < u.rrd.dsCnt) (hc : (u.rrd.dsDef i).dst ≠ .cdef) :
    t.pdpTemp i = (u.prepared (updateInterval u) u.rrd.dsCnt).pdpSt (updateInterval u)
      (u.elapsed (updateInterval u)).preInt
      ((u.elapsed (updateInterval u)).elapsedPdpSt * u.rrd.pdpStep) i := by
  obtain ⟨u₁, v, w, hu₁, hv, hw, rfl⟩ := processArg_eq_ok h
  obtain rfl : u₁ = u := Outcome.ok.inj (hu₁.symm.trans hu)
  obtain ⟨-, rfl⟩ := updatePdpPrep_loop.mp hv
  obtain ⟨hzero, -⟩ | ⟨-, a, b, c, ha, hb, hc', hw⟩ := processPdps_eq_ok hw
  · exact absurd hzero hne
  · have hfb : PrepFrame a b := Outcome.of_state_ok hb (updateAllCdpPrep_state _ _ a)
    have hfc : CdpFrame b c := Outcome.of_state_ok hc' (updateAberrantCdps_state _ b)
    have hfw : RowFrame c w := Outcome.of_state_ok hw (writeToRras_state c)
    have hkeep : (setLastUp w).pdpTemp = a.pdpTemp := by
      obtain ⟨_, _, _, _, _, _, _, _, rfl⟩ := hfb
      obtain ⟨_, _, _, _, rfl⟩ := hfc
      obtain ⟨_, _, _, _, _, rfl⟩ := hfw
      rfl
    rw [hkeep]
    exact processPdpSt_loop_pdpTemp ha i hi hc

end Temp

/-! ## Between two updates -/

/-- What stands between two updates: nothing, or the end of a call and the start of the next. -/
inductive NextUpdate (t : Upd) : Upd → Prop where
  /-- two arguments of one call -/
  | arg : NextUpdate t t
  /-- the last argument of a call and the first of the next -/
  | call (junk : Upd) :
      NextUpdate t (junk.start (if t.scheduleSmooth then smoothAllRras t.rrd else t.rrd))

theorem NextUpdate.pdpPrep {t t' : Upd} (h : NextUpdate t t') :
    SameDefs t.rrd t'.rrd ∧ t'.rrd.pdpPrep = t.rrd.pdpPrep ∧ t'.rrd.lastUp = t.rrd.lastUp ∧
      t'.rrd.lastUpUsec = t.rrd.lastUpUsec := by
  cases h with
  | arg => exact ⟨SameDefs.refl _, rfl, rfl, rfl⟩
  | call junk =>
    cases hsm : t.scheduleSmooth with
    | false => exact ⟨SameDefs.refl _, rfl, rfl, rfl⟩
    | true =>
      obtain ⟨_, _, hframe⟩ := smoothAllRras_frame t.rrd
      simp only [Upd.start, if_true, hframe, and_true]
      exact ⟨rfl, rfl, rfl, rfl, rfl, rfl, rfl⟩

end Rrdtool
