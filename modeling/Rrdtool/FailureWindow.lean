import Rrdtool.Lib.ShiftRegister
import Rrdtool.SeasonalCache
import Rrdtool.SmoothingWindow

/-!
# The window of a `FAILURES` RRA

A `FAILURES` RRA keeps the last violations of each data source in the bytes of its preparation area:
a shift register, of which a window is in use. Four functions store into it: `update_failures` shifts
it, `reset_cdp` and `rrd_tune` erase it, and `rrd_create_fn` clears it.

A violation is looked for with the deviation, the coefficient and the prediction from before the
step. `update_failures` finds them in its partners, whether these have been updated in the same pass or
not, except that it asks the `SEASONAL` RRA where it should ask the `DEVSEASONAL` RRA.

* `updateAberrantPass_failures` — what one pass stores, and what it does to the window
* `processReadings_window` — the readings of an argument: no step, one, two, or a bulk update
* `InWindow.tune` — the window options of `rrd_tune`
* `failure_window` — every run of these
* `violation_unseen` — a violation that the RRA does not see between the two others
-/

namespace Rrdtool

open Loop

variable {env : Env} {r r' : Rrd} {s t u : Upd} {i j d e proc : ℕ} {v : RrdValue} {sc : ScratchIdx}
  {coef : ℕ → RrdValue}

/-! ## The partners -/

/-- The `DEVSEASONAL` RRA that a `FAILURES` RRA depends on. -/
abbrev Rrd.devOf (r : Rrd) (i : ℕ) : ℕ := (r.rraDef i).dependentRraIdx

/-- The prediction that this one depends on. -/
abbrev Rrd.hwOf (r : Rrd) (i : ℕ) : ℕ := (r.rraDef (r.devOf i)).dependentRraIdx

/-- The `SEASONAL` RRA of this prediction. -/
abbrev Rrd.seasonOf (r : Rrd) (i : ℕ) : ℕ := (r.rraDef (r.hwOf i)).dependentRraIdx

/-- A `FAILURES` RRA with its partners. -/
structure FailuresRra (r : Rrd) (i : ℕ) : Prop where
  lt : i < r.rraCnt
  cf : (r.rraDef i).cf = .failures
  pdpCnt : (r.rraDef i).pdpCnt = 1
  dev : SeasonalRra r (r.devOf i)
  season : SeasonalRra r (r.seasonOf i)
  hw_lt : r.hwOf i < r.rraCnt
  hw_pdpCnt : (r.rraDef (r.hwOf i)).pdpCnt = 1

/-- Two files with the same archives, but for the parameters that no link depends on. -/
structure SameLinks (r r' : Rrd) : Prop where
  dsCnt : r'.dsCnt = r.dsCnt
  rraCnt : r'.rraCnt = r.rraCnt
  cf : ∀ k, (r'.rraDef k).cf = (r.rraDef k).cf
  pdpCnt : ∀ k, (r'.rraDef k).pdpCnt = (r.rraDef k).pdpCnt
  dependentRraIdx : ∀ k, (r'.rraDef k).dependentRraIdx = (r.rraDef k).dependentRraIdx

theorem SameDefs.sameLinks (h : SameDefs r r') : SameLinks r r' :=
  ⟨h.dsCnt, h.rraCnt, fun _ => by rw [h.rraDef], fun _ => by rw [h.rraDef],
    fun _ => by rw [h.rraDef]⟩

theorem SameLinks.partners (h : SameLinks r r') (i : ℕ) : r'.devOf i = r.devOf i ∧
    r'.hwOf i = r.hwOf i ∧ r'.seasonOf i = r.seasonOf i := by
  simp only [Rrd.devOf, Rrd.hwOf, Rrd.seasonOf, h.dependentRraIdx, and_self]

theorem SeasonalRra.linked (h : SeasonalRra r j) (hl : SameLinks r r') : SeasonalRra r' j where
  lt := by
    rw [hl.rraCnt]
    exact h.lt
  cf := by
    rw [hl.cf]
    exact h.cf
  pdpCnt := by
    rw [hl.pdpCnt]
    exact h.pdpCnt
  prediction := by
    rw [hl.dependentRraIdx, hl.cf]
    exact h.prediction

theorem FailuresRra.linked (h : FailuresRra r i) (hl : SameLinks r r') : FailuresRra r' i := by
  obtain ⟨hdev, hhw, hseason⟩ := hl.partners i
  refine ⟨?_, ?_, ?_, ?_, ?_, ?_, ?_⟩
  · rw [hl.rraCnt]
    exact h.lt
  · rw [hl.cf]
    exact h.cf
  · rw [hl.pdpCnt]
    exact h.pdpCnt
  · rw [hdev]
    exact h.dev.linked hl
  · rw [hseason]
    exact h.season.linked hl
  · rw [hhw, hl.rraCnt]
    exact h.hw_lt
  · rw [hhw, hl.pdpCnt]
    exact h.hw_pdpCnt

theorem FailuresRra.congr (h : FailuresRra r i) (hd : SameDefs r r') : FailuresRra r' i :=
  h.linked hd.sameLinks

theorem FailuresRra.dev_ne (h : FailuresRra r i) : r.devOf i ≠ i := by
  intro heq
  have hcf := h.dev.cf
  rw [heq, h.cf] at hcf
  cases hcf

theorem FailuresRra.season_ne (h : FailuresRra r i) : r.seasonOf i ≠ i := by
  intro heq
  have hcf := h.season.cf
  rw [heq, h.cf] at hcf
  cases hcf

theorem FailuresRra.hw_ne (h : FailuresRra r i) : r.hwOf i ≠ i := by
  intro heq
  have hfn : (hwFunctionsOf (r.rraDef (r.hwOf i)).cf).isSome = true := h.dev.prediction
  rw [heq, h.cf] at hfn
  cases hfn

/-- **Is the value `x` a violation?** The deviation, the coefficient and the prediction are those
that the areas hold. -/
def Rrd.violation (r : Rrd) (i d : ℕ) (x : RrdValue) : Bool :=
  violates (fnOf r.rraDef (r.hwOf i)) (r.rraDef i) (forecast false (r.cdp (r.hwOf i) d))
    (r.cdp (r.seasonOf i) d).hwSeasonal (r.cdp (r.devOf i) d).hwSeasonal x

/-! ## One RRA -/

theorem setScratch_intercept (c : CdpPrep) (sc : ScratchIdx) (x : RrdValue) :
    (c.setScratch sc x).hwIntercept = c.hwIntercept ∧
      (c.setScratch sc x).hwLastIntercept = c.hwLastIntercept := by
  cases sc
  · exact ⟨rfl, rfl⟩
  · exact ⟨rfl, rfl⟩

/-- A seasonal array keeps the entry that it drops. -/
theorem updateAberrantCF_last (hj : SeasonalRra r j) :
    ((updateAberrantCF r v j d sc coef).cdpPrep (r.cdpIdx j d)).hwLastSeasonal =
      (r.cdp j d).hwSeasonal := by
  have hcf := hj.cf
  obtain ⟨fn, hfn⟩ := Option.isSome_iff_exists.mp hj.prediction
  simp only [updateAberrantCF, Rrd.setCdp_rraDef, hfn]
  cases hc : (r.rraDef j).cf <;> simp [hc, Cf.isSeasonal] at hcf
  · simp only [updateSeasonal, Rrd.cdpIdx, Rrd.setCdp_dsCnt, Rrd.setCdp_get_self,
      setScratch_intercept]
    rfl
  · simp only [updateDevseasonal, Rrd.cdpIdx, Rrd.setCdp_dsCnt, Rrd.setCdp_get_self,
      setScratch_intercept]
    rfl

/-- A prediction keeps the coefficients that it replaces, unless it starts. -/
theorem updateHwpredict_forecast (sc : ScratchIdx) (fn : HwFunctions)
    (hno : ¬((r.cdp j d).hwIntercept.isnan = true ∧ ((r.cdp j d).scratch sc).isnan = false)) :
    forecast true ((updateHwpredict r j d sc fn).cdpPrep (r.cdpIdx j d)) =
      forecast false (r.cdp j d) := by
  have hstart : ((r.cdpPrep (r.cdpIdx j d)).hwIntercept.isnan &&
      !((r.cdpPrep (r.cdpIdx j d)).scratch sc).isnan) = false := by
    rw [Bool.and_eq_false_imp]
    intro hint
    by_contra hx
    rw [Bool.not_eq_false, Bool.not_eq_true'] at hx
    exact hno ⟨hint, hx⟩
  have hscratch (c : CdpPrep) (a b : RrdValue) (n : ℕ) :
      { c with hwLastIntercept := a, hwLastSlope := b, lastNullCount := n }.scratch sc =
        c.scratch sc := by
    cases sc <;> rfl
  simp only [updateHwpredict, hscratch, hstart, Bool.false_eq_true, if_false]
  split_ifs
  all_goals
    rw [Rrd.setCdp_get_self]
    cases sc <;> rfl

theorem updateAberrantCF_forecast (hfn : (hwFunctionsOf (r.rraDef j).cf).isSome = true)
    (hno : ¬((r.cdp j d).hwIntercept.isnan = true ∧ v.isnan = false)) :
    forecast true ((updateAberrantCF r v j d sc coef).cdpPrep (r.cdpIdx j d)) =
      forecast false (r.cdp j d) := by
  have hcell : (r.setCdp (r.cdpIdx j d) ((r.cdpPrep (r.cdpIdx j d)).setScratch sc v)).cdp j d =
      (r.cdp j d).setScratch sc v := Rrd.cdp_setCdp_self ..
  have hkeep : forecast false ((r.cdp j d).setScratch sc v) = forecast false (r.cdp j d) := by
    cases sc <;> rfl
  have hset : ¬(((r.cdp j d).setScratch sc v).hwIntercept.isnan = true ∧
      (((r.cdp j d).setScratch sc v).scratch sc).isnan = false) := by
    cases sc
    · exact hno
    · exact hno
  have hrun (fn : HwFunctions) := updateHwpredict_forecast sc fn
    (r := r.setCdp (r.cdpIdx j d) ((r.cdpPrep (r.cdpIdx j d)).setScratch sc v))
    (by rw [hcell]; exact hset)
  simp only [hcell, hkeep] at hrun
  unfold updateAberrantCF
  simp only [Rrd.setCdp_rraDef]
  cases hc : (r.rraDef j).cf <;> simp [hc, hwFunctionsOf] at hfn
  · exact hrun _
  · exact hrun _

/-- The violation that `update_failures` finds in the areas as they are when it is called. -/
def Rrd.violationSeen (r : Rrd) (i d : ℕ) (x : RrdValue) : Bool :=
  violates (fnOf r.rraDef (r.hwOf i)) (r.rraDef i)
    (forecast (decide (¬i < r.hwOf i)) (r.cdp (r.hwOf i) d))
    (if i < r.seasonOf i then (r.cdp (r.seasonOf i) d).hwSeasonal
      else (r.cdp (r.seasonOf i) d).hwLastSeasonal)
    (if i < r.seasonOf i then (r.cdp (r.devOf i) d).hwSeasonal
      else (r.cdp (r.devOf i) d).hwLastSeasonal) x

/-- The area of a `FAILURES` RRA after one more observation. -/
def CdpPrep.shifted (c : CdpPrep) (rra : RraDef) (sc : ScratchIdx) (violation : Bool) : CdpPrep :=
  let violations := pushViolation rra c.violations violation
  { c with violations := violations }.setScratch sc (failureStored rra violations)

/-- **`update_failures`** shifts the window and counts its violations. -/
theorem updateAberrantCF_failures (hi : FailuresRra r i) (hd : d < r.dsCnt) :
    (updateAberrantCF r v i d sc coef).cdpPrep (r.cdpIdx i d) =
      (r.cdp i d).shifted (r.rraDef i) sc (r.violationSeen i d v) := by
  have hother : ∀ k, k ≠ i → ∀ c, (r.setCdp (r.cdpIdx i d) c).cdpPrep (k * r.dsCnt + d) = r.cdp k d :=
    fun k hk c => Rrd.cdp_setCdp_of_ne hd hd (.inl hk) c
  have hself (c : CdpPrep) : (c.setScratch sc v).scratch sc = v := by cases sc <;> rfl
  have hkeep (c : CdpPrep) : (c.setScratch sc v).violations = c.violations := by cases sc <;> rfl
  have hstore (c : CdpPrep) (x : RrdValue) (f : ℕ → Bool) :
      { c.setScratch sc v with violations := f }.setScratch sc x =
        { c with violations := f }.setScratch sc x := by
    cases sc <;> rfl
  obtain ⟨fn, hfn⟩ := Option.isSome_iff_exists.mp hi.dev.prediction
  have hfnOf : fnOf r.rraDef (r.hwOf i) = fn := by
    rw [fnOf, hfn]
    rfl
  simp only [updateAberrantCF, Rrd.setCdp_rraDef, hi.cf, hfn, updateFailures, Rrd.cdpIdx,
    Rrd.setCdp_dsCnt, Rrd.setCdp_get_self, hother _ hi.dev_ne, hother _ hi.season_ne,
    hother _ hi.hw_ne, hself, hkeep, hstore]
  have hseen : r.violationSeen i d v = if (if i < r.seasonOf i then (r.cdp (r.devOf i) d).hwSeasonal
        else (r.cdp (r.devOf i) d).hwLastSeasonal).isnan then false
      else if v.isnan then true
      else hwIsViolation v
        (if i < r.hwOf i then
          fn.predict (r.cdp (r.hwOf i) d).hwIntercept (r.cdp (r.hwOf i) d).hwSlope
            (r.cdp (r.hwOf i) d).nullCount (if i < r.seasonOf i then
              (r.cdp (r.seasonOf i) d).hwSeasonal else (r.cdp (r.seasonOf i) d).hwLastSeasonal)
        else
          fn.predict (r.cdp (r.hwOf i) d).hwLastIntercept (r.cdp (r.hwOf i) d).hwLastSlope
            (r.cdp (r.hwOf i) d).lastNullCount (if i < r.seasonOf i then
              (r.cdp (r.seasonOf i) d).hwSeasonal else (r.cdp (r.seasonOf i) d).hwLastSeasonal))
        (if i < r.seasonOf i then (r.cdp (r.devOf i) d).hwSeasonal
          else (r.cdp (r.devOf i) d).hwLastSeasonal) (r.rraDef i).deltaPos (r.rraDef i).deltaNeg := by
    rw [Rrd.violationSeen, hfnOf, violates]
    by_cases hlt : i < r.hwOf i
    · simp only [forecast, hlt, not_true, decide_false, Bool.false_eq_true, if_false, if_true,
        Forecast.value]
    · simp only [forecast, hlt, not_false_eq_true, decide_true, if_false, if_true, Forecast.value]
  rw [hseen]
  rfl

/-! ## One pass -/

/-- The DS loop of one RRA, for one DS: the others leave its areas alone. -/
theorem aberrantLoop_ds (hd : d < s.rrd.dsCnt) (sc : ScratchIdx) (j : ℕ) :
    ∃ r', SameDefs s.rrd r' ∧ (∀ k, r'.cdp k d = s.rrd.cdp k d) ∧
      (aberrantLoop sc j s).rrd.cdp j d =
        (updateAberrantCF r' (s.pdpTemp d) j d sc s.seasonalCoef).cdpPrep (r'.cdpIdx j d) := by
  refine (forLoop_invariant (fun k (u : Upd) => CdpFrame s u ∧ u.seasonalCoef = s.seasonalCoef ∧
    (k ≤ d → ∀ m, u.rrd.cdp m d = s.rrd.cdp m d) ∧
    (d < k → ∃ r', SameDefs s.rrd r' ∧ (∀ m, r'.cdp m d = s.rrd.cdp m d) ∧ u.rrd.cdp j d =
      (updateAberrantCF r' (s.pdpTemp d) j d sc s.seasonalCoef).cdpPrep (r'.cdpIdx j d)))
    ⟨CdpFrame.refl s, rfl, fun _ _ => rfl, by simp⟩ ?_).2.2.2 hd
  rintro k u hk ⟨hf, hcoef, hbefore, hafter⟩
  have hdefs := hf.prep.sameDefs
  have hset := updateAberrantCF_frame u.rrd j k sc u.seasonalCoef (u.pdpTemp k)
  have hother (hkd : d ≠ k) (m : ℕ) :
      (updateAberrantCF u.rrd (u.pdpTemp k) j k sc u.seasonalCoef).cdp m d = u.rrd.cdp m d := by
    obtain ⟨c, hc⟩ := hset
    rw [hc]
    exact Rrd.cdp_setCdp_of_ne (by rw [hdefs.dsCnt]; exact hk) (by rw [hdefs.dsCnt]; exact hd)
      (.inr hkd) c
  refine ⟨hf.trans (CdpFrame.setsCdp hset), hcoef, fun hle m => ?_, fun hlt => ?_⟩
  · rw [← hbefore (by omega) m]
    exact hother (by omega) m
  · rcases Nat.lt_succ_iff_lt_or_eq.mp hlt with hlt' | rfl
    · obtain ⟨r', hr', hcells, hself⟩ := hafter hlt'
      exact ⟨r', hr', hcells, (hother (by omega) j).trans hself⟩
    · refine ⟨u.rrd, hdefs, hbefore (le_refl d), ?_⟩
      rw [hcoef, hf.pdpTemp]
      obtain ⟨c, hc⟩ := updateAberrantCF_frame u.rrd j d sc s.seasonalCoef (s.pdpTemp d)
      change (updateAberrantCF u.rrd (s.pdpTemp d) j d sc s.seasonalCoef).cdp j d = _
      rw [hc, Rrd.cdp_setCdp_self, Rrd.setCdp_get_self]

/-- What one RRA of a pass leaves alone, and what it does to its own area. -/
theorem updateAberrantRra_cells (hd : d < s.rrd.dsCnt) (h : updateAberrantRra e sc j s = .ok t) :
    (∀ k, k ≠ j → t.rrd.cdp k d = s.rrd.cdp k d) ∧ ((s.rrd.rraDef j).pdpCnt = 1 →
      ∃ r' coef, SameDefs s.rrd r' ∧ (∀ k, r'.cdp k d = s.rrd.cdp k d) ∧
        t.rrd.cdp j d =
          (updateAberrantCF r' (s.pdpTemp d) j d sc coef).cdpPrep (r'.cdpIdx j d)) := by
  have hlr : (lookupAhead e sc j s).rrd = s.rrd := lookupAhead_rrd sc j s
  have hld : d < (lookupAhead e sc j s).rrd.dsCnt := by rw [hlr]; exact hd
  simp only [updateAberrantRra] at h
  split_ifs at h with hone
  · obtain ⟨v, hv, ht⟩ := Outcome.andThen_eq_ok.mp h
    obtain ⟨rfl, -⟩ := testError_ok hv
    obtain rfl := Outcome.ok.inj ht
    have hdefs := (aberrantLoop_frame sc j (lookupAhead e sc j s)).prep.sameDefs
    refine ⟨fun k hk => ?_, fun _ => ?_⟩
    · rw [Rrd.cdp, Rrd.cdpIdx, hdefs.dsCnt, aberrantLoop_other hld sc hk, hlr]
      rfl
    · obtain ⟨r', hr', hcells, hself⟩ := aberrantLoop_ds hld sc j
      rw [(lookupAhead_frame e sc j s).pdpTemp] at hself
      rw [hlr] at hr' hcells
      exact ⟨r', _, hr', hcells, hself⟩
  · obtain rfl := Outcome.ok.inj h
    exact ⟨fun _ _ => rfl, fun hp => absurd hp hone⟩

/-- **A pass in which the prediction of RRA `i` does not start** while there is something to compare
with it, or stands behind RRA `i`. -/
def PassSafe (s : Upd) (i d : ℕ) : Prop :=
  s.rrd.hwOf i < i → (s.rrd.cdp (s.rrd.hwOf i) d).hwIntercept.isnan = true →
    (s.pdpTemp d).isnan = true ∨ (s.rrd.cdp (s.rrd.seasonOf i) d).hwSeasonal.isnan = true ∨
      (s.rrd.cdp (s.rrd.devOf i) d).hwSeasonal.isnan = true

/-- The RRA stands on the same side of its `SEASONAL` and of its `DEVSEASONAL` RRA. -/
def SameSide (r : Rrd) (i : ℕ) : Prop := i < r.seasonOf i ↔ i < r.devOf i

/-- In the middle of a pass, RRA `j` has its old area until its turn, and `P` holds of the new one
from then on. -/
def Passed (s u : Upd) (P : CdpPrep → Prop) (j d k : ℕ) : Prop :=
  (k ≤ j → u.rrd.cdp j d = s.rrd.cdp j d) ∧ (j < k → P (u.rrd.cdp j d))

theorem Passed.step {P : CdpPrep → Prop} {k : ℕ} {w : Upd} (h : Passed s u P j d k)
    (hd : d < u.rrd.dsCnt) (hw : updateAberrantRra e sc k u = .ok w)
    (hturn : k = j → u.rrd.cdp j d = s.rrd.cdp j d → P (w.rrd.cdp j d)) :
    Passed s w P j d (k + 1) := by
  have hother := (updateAberrantRra_cells hd hw).1
  refine ⟨fun hle => ?_, fun hlt => ?_⟩
  · rw [hother j (by omega)]
    exact h.1 (by omega)
  · rcases Nat.lt_succ_iff_lt_or_eq.mp hlt with hlt' | rfl
    · rw [hother j (by omega)]
      exact h.2 hlt'
    · exact hturn rfl (h.1 (le_refl j))

/-- The coefficients of a prediction are still to be had after its turn, unless it has started. -/
def KeepsForecast (x : RrdValue) (c c' : CdpPrep) : Prop :=
  ¬(c.hwIntercept.isnan = true ∧ x.isnan = false) → forecast true c' = forecast false c

/-- In the middle of a pass, the partners of RRA `i` and the RRA itself. -/
structure Middle (s u : Upd) (i d k : ℕ) : Prop where
  frame : CdpFrame s u
  dev : Passed s u (fun c => c.hwLastSeasonal = (s.rrd.cdp (s.rrd.devOf i) d).hwSeasonal)
    (s.rrd.devOf i) d k
  season : Passed s u (fun c => c.hwLastSeasonal = (s.rrd.cdp (s.rrd.seasonOf i) d).hwSeasonal)
    (s.rrd.seasonOf i) d k
  hw : Passed s u (KeepsForecast (s.pdpTemp d) (s.rrd.cdp (s.rrd.hwOf i) d)) (s.rrd.hwOf i) d k

/-- **The violation that is seen** when it is the turn of RRA `i` is the one from before the pass. -/
theorem Middle.violationSeen (h : Middle s u i d i) (hi : FailuresRra s.rrd i)
    (hside : SameSide s.rrd i) (hsafe : PassSafe s i d) (hr : SameDefs s.rrd r')
    (hcells : ∀ k, r'.cdp k d = u.rrd.cdp k d) :
    r'.violationSeen i d (s.pdpTemp d) = s.rrd.violation i d (s.pdpTemp d) := by
  have hdev : (if i < s.rrd.seasonOf i then (u.rrd.cdp (s.rrd.devOf i) d).hwSeasonal
      else (u.rrd.cdp (s.rrd.devOf i) d).hwLastSeasonal) =
        (s.rrd.cdp (s.rrd.devOf i) d).hwSeasonal := by
    by_cases hlt : i < s.rrd.seasonOf i
    · rw [if_pos hlt, h.dev.1 (hside.mp hlt).le]
    · have hne := hi.dev_ne
      have hdlt : s.rrd.devOf i < i := by
        have := mt hside.mpr hlt
        omega
      rw [if_neg hlt, h.dev.2 hdlt]
  have hcoef : (if i < s.rrd.seasonOf i then (u.rrd.cdp (s.rrd.seasonOf i) d).hwSeasonal
      else (u.rrd.cdp (s.rrd.seasonOf i) d).hwLastSeasonal) =
        (s.rrd.cdp (s.rrd.seasonOf i) d).hwSeasonal := by
    by_cases hlt : i < s.rrd.seasonOf i
    · rw [if_pos hlt, h.season.1 hlt.le]
    · have hne := hi.season_ne
      rw [if_neg hlt, h.season.2 (by omega)]
  obtain ⟨hdev', hhw', hseason'⟩ := hr.sameLinks.partners i
  rw [Rrd.violationSeen, Rrd.violation, hr.rraDef, hdev', hhw', hseason', hcells, hcells, hcells,
    hdev, hcoef]
  by_cases hlt : i < s.rrd.hwOf i
  · rw [h.hw.1 hlt.le]
    simp only [hlt, not_true, decide_false]
  · have hne := hi.hw_ne
    have hhw : s.rrd.hwOf i < i := by omega
    simp only [hlt, not_false_eq_true, decide_true]
    by_cases hstart : (s.rrd.cdp (s.rrd.hwOf i) d).hwIntercept.isnan = true ∧
        (s.pdpTemp d).isnan = false
    · -- a start: there is nothing to compare
      rcases hsafe hhw hstart.1 with hx | hc | hv
      · rw [hstart.2] at hx
        cases hx
      · rw [Dbl.isnan_iff.mp hc]
        simp only [violates, fnOf_predict_nan hi.dev.prediction]
      · simp only [violates, hv, if_true]
    · rw [h.hw.2 hhw hstart]

/-- **One pass over a `FAILURES` RRA.** -/
theorem updateAberrantPass_failures (hi : FailuresRra s.rrd i) (hside : SameSide s.rrd i)
    (hsafe : PassSafe s i d) (hd : d < s.rrd.dsCnt) (h : updateAberrantPass e sc s = .ok t) :
    t.rrd.cdp i d =
      (s.rrd.cdp i d).shifted (s.rrd.rraDef i) sc (s.rrd.violation i d (s.pdpTemp d)) := by
  refine (forLoopE_invariant (fun k u => Middle s u i d k ∧ Passed s u (fun c => c = _) i d k)
    ⟨⟨CdpFrame.refl s, ⟨fun _ => rfl, fun h => absurd h (Nat.not_lt_zero _)⟩,
      ⟨fun _ => rfl, fun h => absurd h (Nat.not_lt_zero _)⟩,
      ⟨fun _ => rfl, fun h => absurd h (Nat.not_lt_zero _)⟩⟩,
      ⟨fun _ => rfl, fun h => absurd h (Nat.not_lt_zero _)⟩⟩ ?_ h).2.2 hi.lt
  rintro k u w - ⟨hm, hself⟩ hw
  have hdefs := hm.frame.prep.sameDefs
  have hdu : d < u.rrd.dsCnt := by rw [hdefs.dsCnt]; exact hd
  have hown := (updateAberrantRra_cells hdu hw).2
  rw [hdefs.rraDef, hm.frame.pdpTemp] at hown
  refine ⟨⟨hm.frame.trans (Outcome.of_state_ok hw (updateAberrantRra_state e sc k u)), ?_, ?_, ?_⟩, ?_⟩
  · refine hm.dev.step hdu hw ?_
    rintro rfl hold
    obtain ⟨r', coef, hr', hcells, hcell⟩ := hown hi.dev.pdpCnt
    rw [hcell, updateAberrantCF_last (hi.dev.congr (hdefs.trans hr')), hcells, hold]
  · refine hm.season.step hdu hw ?_
    rintro rfl hold
    obtain ⟨r', coef, hr', hcells, hcell⟩ := hown hi.season.pdpCnt
    rw [hcell, updateAberrantCF_last (hi.season.congr (hdefs.trans hr')), hcells, hold]
  · refine hm.hw.step hdu hw ?_
    rintro rfl hold hno
    obtain ⟨r', coef, hr', hcells, hcell⟩ := hown hi.hw_pdpCnt
    rw [hcell, updateAberrantCF_forecast, hcells, hold]
    · rw [(hdefs.trans hr').rraDef]
      exact hi.dev.prediction
    · rw [hcells, hold]
      exact hno
  · refine hself.step hdu hw ?_
    rintro rfl hold
    obtain ⟨r', coef, hr', hcells, hcell⟩ := hown hi.pdpCnt
    have hall := hdefs.trans hr'
    rw [hcell, updateAberrantCF_failures (hi.congr hall) (by rw [hall.dsCnt]; exact hd),
      hm.violationSeen hi hside hsafe hall hcells, hcells, hold, hall.rraDef]

/-! ## `update_all_cdp_prep` -/

/-- The area of a `FAILURES` RRA after a bulk update. -/
def CdpPrep.forgotten (c : CdpPrep) (rra : RraDef) : CdpPrep :=
  eraseViolations rra { c with primaryVal := .num 0, secondaryVal := .num 0 }

/-- The counter of the burn-in cycles is in the area of a seasonal array. -/
theorem prepareRra_failures (hcf : (s.rrd.rraDef i).cf = .failures) (hd : d < s.rrd.dsCnt)
    (e proc k : ℕ) :
    (prepareRra e proc k s).rrd.cdp i d = s.rrd.cdp i d := by
  simp only [prepareRra]
  split_ifs with hseasonal
  · have hik : i ≠ k := by
      rintro rfl
      rw [hcf] at hseasonal
      cases hseasonal
    have hsmooth (r' : Rrd) (hds : r'.dsCnt = s.rrd.dsCnt) :
        (doScheduleSmooth r' k e).1.cdp i d = r'.cdp i d := by
      obtain ⟨c, hc⟩ := doScheduleSmooth_frame r' k e
      rw [hc]
      have hd' : d < r'.dsCnt := by rw [hds]; exact hd
      exact Rrd.setCdp_get_of_ne
        (fun heq => hik (cdpIdx_inj hd' (Nat.zero_lt_of_lt hd') heq).1) c
    simp only [scheduleSeasonal]
    split_ifs
    · exact (hsmooth _ rfl).trans rfl
    · exact (hsmooth _ rfl).trans rfl
  · rfl

/-- One RRA of `update_all_cdp_prep`. -/
theorem updateAllCdpPrepRra_failures (hi : FailuresRra s.rrd i) (hd : d < s.rrd.dsCnt) {k : ℕ}
    (h : updateAllCdpPrepRra e proc k s = .ok t) :
    t.rrd.cdp i d = if i = k ∧ 2 < e then (s.rrd.cdp i d).forgotten (s.rrd.rraDef i)
      else s.rrd.cdp i d := by
  have hdefs := (prepareRra_frame e proc k s).sameDefs
  have hkeep := prepareRra_failures hi.cf hd e proc k
  rw [Rrd.cdp, Rrd.cdpIdx, hdefs.dsCnt] at hkeep
  rw [updateAllCdpPrepRra_ok h, updateCdpPrep_eq]
  change preparedCdps _ e _ k _ (i * (prepareRra e proc k s).rrd.dsCnt + d) = _
  unfold preparedCdps
  rw [hdefs.dsCnt, hdefs.rraDef, hkeep]
  simp only [cdpIdx_mem hd]
  by_cases hik : i = k
  · subst hik
    rw [if_pos rfl, prepareCdp, hi.pdpCnt, if_neg (lt_irrefl 1)]
    by_cases hbulk : 2 < e
    · rw [if_pos hbulk, if_pos ⟨rfl, hbulk⟩]
      simp only [resetCdp, hi.cf]
      rfl
    · rw [if_neg hbulk, if_neg fun h => hbulk h.2]
  · rw [if_neg hik, if_neg fun h => hik h.1]

/-- **`update_all_cdp_prep`** erases the window in a bulk update. -/
theorem updateAllCdpPrep_failures (hi : FailuresRra s.rrd i) (hd : d < s.rrd.dsCnt)
    (h : updateAllCdpPrep e proc s = .ok t) :
    t.rrd.cdp i d = if 2 < e then (s.rrd.cdp i d).forgotten (s.rrd.rraDef i)
      else s.rrd.cdp i d := by
  refine (forLoopE_invariant (fun k u => PrepFrame s u ∧
      (k ≤ i → u.rrd.cdp i d = s.rrd.cdp i d) ∧
      (i < k → u.rrd.cdp i d = if 2 < e then (s.rrd.cdp i d).forgotten (s.rrd.rraDef i)
        else s.rrd.cdp i d))
    ⟨PrepFrame.refl s, fun _ => rfl, fun h => absurd h (Nat.not_lt_zero _)⟩ ?_ h).2.2 hi.lt
  rintro k u w - ⟨hf, hbefore, hafter⟩ hw
  have hdefs := hf.sameDefs
  have hcell := updateAllCdpPrepRra_failures (hi.congr hdefs) (by rw [hdefs.dsCnt]; exact hd) hw
  rw [hdefs.rraDef] at hcell
  refine ⟨hf.trans (Outcome.of_state_ok hw (updateAllCdpPrepRra_state e proc k u)), fun hle => ?_,
    fun hlt => ?_⟩
  · rw [hcell, if_neg fun h => absurd h.1 (by omega)]
    exact hbefore (by omega)
  · rcases Nat.lt_succ_iff_lt_or_eq.mp hlt with hlt' | rfl
    · rw [hcell, if_neg fun h => absurd h.1 (by omega)]
      exact hafter hlt'
    · rw [hcell, hbefore (le_refl i)]
      simp only [true_and]

/-! ## Arguments -/

/-- The state in which `update_aberrant_cdps` is called for the readings of an argument. -/
def beforePasses (env : Env) (s : Upd) : Upd :=
  ((updatePdpPrep (updateInterval s) s).andThen fun t =>
    let el := calculateElapsedSteps t.rrd t.currentTime.toNat t.currentTimeUsec (updateInterval s)
    (processAllPdpSt env.lib (updateInterval s) el t).andThen
      (updateAllCdpPrep el.elapsedPdpSt el.procPdpCnt)).state

/-- **The states in which the passes begin** that the readings of an argument take: none without a
step and in a bulk update, one for a single step, and two for two steps. -/
def passes (env : Env) (s : Upd) : List Upd :=
  match elapsedSteps s with
  | 1 => [beforePasses env s]
  | 2 => [beforePasses env s, (updateAberrantPass 2 .primary (beforePasses env s)).state]
  | _ => []

/-- The observation of a pass. -/
def Upd.violation (s : Upd) (i d : ℕ) : Bool := s.rrd.violation i d (s.pdpTemp d)

/-- **The history of DS `d`** after the readings of an argument: a bulk update forgets it, a pass adds
one observation. -/
def historyNext (env : Env) (i d : ℕ) (s : Upd) (history : List Bool) : List Bool :=
  if 2 < elapsedSteps s then []
  else ((passes env s).map fun u => u.violation i d).reverse ++ history

/-- What `update_failures` is to store for the newest observation of a history. -/
def failureOf (rra : RraDef) (history : List Bool) : RrdValue :=
  if rra.failureThreshold ≤ (history.take rra.windowLen).count true then .num 1 else .num 0

/-- The window holds the history. -/
def WindowHolds (r : Rrd) (i d : ℕ) (history : List Bool) : Prop :=
  ShiftRegister.Holds (r.rraDef i).windowLen false (r.cdp i d).violations history

/-- The window of a full area. -/
theorem WindowHolds.shifted {history : List Bool} {c : CdpPrep} {rra : RraDef}
    (hpos : 0 < rra.windowLen) (h : ShiftRegister.Holds rra.windowLen false c.violations history)
    (sc : ScratchIdx) (violation : Bool) :
    ShiftRegister.Holds rra.windowLen false (c.shifted rra sc violation).violations
        (violation :: history) ∧
      (c.shifted rra sc violation).scratch sc = failureOf rra (violation :: history) := by
  have hpush : ShiftRegister.Holds rra.windowLen false (pushViolation rra c.violations violation)
      (violation :: history) := h.push violation
  have hcount : (pushViolation rra c.violations violation 0).toNat +
      forLoop (rra.windowLen - 1)
        (fun i cnt => cnt + (pushViolation rra c.violations violation (i + 1)).toNat) 0 =
      ((violation :: history).take rra.windowLen).count true := by
    rw [ShiftRegister.count_eq, Nat.sub_add_cancel hpos]
    exact hpush.count (le_refl _)
  have hstored : failureStored rra (pushViolation rra c.violations violation) =
      failureOf rra (violation :: history) := by
    rw [failureStored, hcount, failureOf]
    by_cases hle : rra.failureThreshold ≤ ((violation :: history).take rra.windowLen).count true
    · rw [if_neg (Nat.not_lt.mpr hle), if_pos hle]
    · rw [if_pos (Nat.not_le.mp hle), if_neg hle]
  rw [← hstored]
  cases sc
  · exact ⟨hpush, rfl⟩
  · exact ⟨hpush, rfl⟩

/-- What is stored for the observations of an argument: `CDP_primary_val` for the first one, and
`CDP_secondary_val` for the second one of two steps. -/
def StoresFailures (c : CdpPrep) (rra : RraDef) (e : ℕ) (history : List Bool) : Prop :=
  (e = 1 → c.primaryVal = failureOf rra history) ∧
    (e = 2 → c.primaryVal = failureOf rra history.tail ∧ c.secondaryVal = failureOf rra history)

/-- **`update_aberrant_cdps`**, after `update_all_cdp_prep`. -/
theorem updateAberrantCdps_window {history : List Bool} (hi : FailuresRra s.rrd i)
    (hside : SameSide s.rrd i) (hpos : 0 < (s.rrd.rraDef i).windowLen) (hd : d < s.rrd.dsCnt)
    (hholds : WindowHolds s.rrd i d history) (he : 0 < e)
    (hb : updateAllCdpPrep e proc s = .ok t)
    (hsafe : (e ≤ 2 → PassSafe t i d) ∧
      (e = 2 → PassSafe (updateAberrantPass 2 .primary t).state i d))
    (hc : updateAberrantCdps e t = .ok u) :
    let next := if 2 < e then [] else
      (if e = 2 then [(updateAberrantPass 2 .primary t).state.violation i d] else []) ++
        t.violation i d :: history
    ShiftRegister.Holds (s.rrd.rraDef i).windowLen false (u.rrd.cdp i d).violations next ∧
      StoresFailures (u.rrd.cdp i d) (s.rrd.rraDef i) e next := by
  intro next
  have hf : PrepFrame s t := Outcome.of_state_ok hb (updateAllCdpPrep_state e proc s)
  have hdefs := hf.sameDefs
  have hit := hi.congr hdefs
  have hdt : d < t.rrd.dsCnt := by rw [hdefs.dsCnt]; exact hd
  have hsidet : SameSide t.rrd i := by
    obtain ⟨hdev, -, hseason⟩ := hdefs.sameLinks.partners i
    rw [SameSide, hdev, hseason]
    exact hside
  have hcell := updateAllCdpPrep_failures hi hd hb
  simp only [updateAberrantCdps] at hc
  split_ifs at hc with hone htwo
  · -- a single step
    subst hone
    rw [if_neg (by omega)] at hcell
    have hpass := updateAberrantPass_failures hit hsidet (hsafe.1 (by omega)) hdt hc
    rw [hcell, hdefs.rraDef] at hpass
    obtain ⟨hwindow, hstored⟩ := WindowHolds.shifted hpos hholds .primary
      (t.violation i d)
    rw [hpass]
    exact ⟨hwindow, fun _ => hstored, fun h => absurd h (by decide)⟩
  · -- two steps: the second pass follows the first one
    subst htwo
    rw [if_neg (by omega)] at hcell
    obtain ⟨w, hw, hu⟩ := Outcome.andThen_eq_ok.mp hc
    have hfw : CdpFrame t w := Outcome.of_state_ok hw (updateAberrantPass_state 2 .primary t)
    have hdefsw := hfw.prep.sameDefs
    have hsidew : SameSide w.rrd i := by
      obtain ⟨hdev, -, hseason⟩ := hdefsw.sameLinks.partners i
      rw [SameSide, hdev, hseason]
      exact hsidet
    have hsafe' := hsafe.2 rfl
    have hnext : next = w.violation i d :: t.violation i d :: history := by
      simp only [next, hw, Outcome.state_ok]
      rfl
    rw [hw, Outcome.state_ok] at hsafe'
    have hpass := updateAberrantPass_failures hit hsidet (hsafe.1 (by omega)) hdt hw
    have hpass' := updateAberrantPass_failures (hit.congr hdefsw) hsidew hsafe'
      (by rw [hdefsw.dsCnt]; exact hdt) hu
    rw [hcell, hdefs.rraDef] at hpass
    rw [hpass, hdefsw.rraDef, hdefs.rraDef] at hpass'
    obtain ⟨hwindow, hstored⟩ := WindowHolds.shifted hpos hholds .primary
      (t.violation i d)
    obtain ⟨hwindow', hstored'⟩ := WindowHolds.shifted hpos hwindow .secondary
      (w.violation i d)
    rw [hpass', hnext]
    exact ⟨hwindow', fun h => absurd h (by decide), fun _ => ⟨hstored, hstored'⟩⟩
  · -- a bulk update
    have hbulk : 2 < e := by omega
    obtain rfl := Outcome.ok.inj hc
    rw [if_pos hbulk] at hcell
    have hnext : next = [] := if_pos hbulk
    rw [hnext]
    refine ⟨?_, fun h => absurd h hone, fun h => absurd h htwo⟩
    rw [hcell, CdpPrep.forgotten, eraseViolations, if_pos hi.cf]
    exact ShiftRegister.holds_erase _ _ _

/-- The stages in front of the passes. -/
theorem beforePasses_eq {a b : Upd} (hv : updatePdpPrep (updateInterval s) s = .ok t)
    (ha : processAllPdpSt env.lib (updateInterval s) (calculateElapsedSteps t.rrd
      t.currentTime.toNat t.currentTimeUsec (updateInterval s)) t = .ok a)
    (hb : updateAllCdpPrep (calculateElapsedSteps t.rrd t.currentTime.toNat t.currentTimeUsec
      (updateInterval s)).elapsedPdpSt (calculateElapsedSteps t.rrd t.currentTime.toNat
      t.currentTimeUsec (updateInterval s)).procPdpCnt a = .ok b) : beforePasses env s = b := by
  rw [beforePasses, hv, Outcome.ok_andThen]
  dsimp only
  rw [ha, Outcome.ok_andThen, hb, Outcome.state_ok]

/-- The history in terms of the passes. -/
theorem historyNext_eq {history : List Bool} (he : 0 < elapsedSteps s) :
    historyNext env i d s history = if 2 < elapsedSteps s then [] else
      (if elapsedSteps s = 2 then
        [(updateAberrantPass 2 .primary (beforePasses env s)).state.violation i d] else []) ++
        (beforePasses env s).violation i d :: history := by
  rw [historyNext]
  by_cases hbulk : 2 < elapsedSteps s
  · rw [if_pos hbulk, if_pos hbulk]
  · rw [if_neg hbulk, if_neg hbulk, passes]
    rcases (by omega : elapsedSteps s = 1 ∨ elapsedSteps s = 2) with h1 | h2
    · simp [h1]
    · simp [h2]

/-- **The readings of an argument** keep the history in the window, and store what it says. -/
theorem processReadings_window {history : List Bool} (hi : FailuresRra s.rrd i)
    (hside : SameSide s.rrd i) (hpos : 0 < (s.rrd.rraDef i).windowLen) (hd : d < s.rrd.dsCnt)
    (hholds : WindowHolds s.rrd i d history) (hsafe : ∀ u ∈ passes env s, PassSafe u i d)
    (h : processReadings env s = .ok t) :
    WindowHolds t.rrd i d (historyNext env i d s history) ∧
      StoresFailures (t.rrd.cdp i d) (t.rrd.rraDef i) (elapsedSteps s)
        (historyNext env i d s history) := by
  have hdefs : SameDefs s.rrd t.rrd := Outcome.of_state_ok h
    (P := HasDefs s.rrd) (processReadings_hasDefs env (SameDefs.refl s.rrd))
  obtain ⟨w, hw, ht⟩ := Outcome.andThen_eq_ok.mp h
  obtain ⟨v, hv, hw⟩ := Outcome.andThen_eq_ok.mp hw
  obtain rfl := Outcome.ok.inj ht
  have hf : PdpFrame s v := Outcome.of_state_ok hv (updatePdpPrep_state _ s)
  have hq := hf.quiet
  have hel : (calculateElapsedSteps v.rrd v.currentTime.toNat v.currentTimeUsec
      (updateInterval s)).elapsedPdpSt = elapsedSteps s := by
    obtain ⟨_, _, _, rfl⟩ := hf
    rfl
  rw [WindowHolds, hdefs.rraDef]
  rcases processPdps_eq_ok hw with ⟨hz, rfl⟩ | ⟨hne, a, b, c, ha, hb, hc, hrows⟩
  · -- no step is crossed
    rw [hel] at hz
    have hhist : historyNext env i d s history = history := by
      rw [historyNext, hz, passes, hz]
      rfl
    have hcell : (setLastUp (simpleUpdate (updateInterval s) v)).rrd.cdp i d = s.rrd.cdp i d := by
      have hfs := simpleUpdate_frame (updateInterval s) v
      change (simpleUpdate (updateInterval s) v).rrd.cdp i d = _
      rw [Rrd.cdp, Rrd.cdp, hfs.cdpPrep, hf.cdpPrep, Rrd.cdpIdx, Rrd.cdpIdx, hfs.quiet.defs.dsCnt,
        hq.defs.dsCnt]
    rw [hhist, hcell]
    exact ⟨hholds, fun h1 => absurd (hz.symm.trans h1) (by decide),
      fun h2 => absurd (hz.symm.trans h2) (by decide)⟩
  · have hbefore := beforePasses_eq hv ha hb
    rw [hel] at hb hc hne
    have hfa : PdpFrame v a := Outcome.of_state_ok ha (processAllPdpSt_state _ _ _ v)
    have hqa := hq.trans hfa.quiet
    have hcells : a.rrd.cdp i d = s.rrd.cdp i d := by
      rw [Rrd.cdp, Rrd.cdp, hfa.cdpPrep, hf.cdpPrep, Rrd.cdpIdx, Rrd.cdpIdx, hqa.defs.dsCnt]
    have hsidea : SameSide a.rrd i := by
      obtain ⟨hdev, -, hseason⟩ := hqa.defs.sameLinks.partners i
      rw [SameSide, hdev, hseason]
      exact hside
    have hwindow := updateAberrantCdps_window (hi.congr hqa.defs)
      hsidea (by rw [hqa.defs.rraDef]; exact hpos) (by rw [hqa.defs.dsCnt]; exact hd)
      (by rw [WindowHolds, hcells, hqa.defs.rraDef]; exact hholds) (Nat.pos_of_ne_zero hne) hb ?_ hc
    · rw [← hbefore, ← historyNext_eq (Nat.pos_of_ne_zero hne), hqa.defs.rraDef] at hwindow
      have hcdp : (setLastUp w).rrd.cdp i d = c.rrd.cdp i d := by
        have hkeep := (writeToRras_state c)
        have hk := Outcome.of_state_ok hrows hkeep
        obtain ⟨_, _, _, _, _, rfl⟩ := hk
        rfl
      rw [hcdp]
      exact hwindow
    · rw [← hbefore]
      refine ⟨fun hle => hsafe _ ?_, fun htwo => hsafe _ ?_⟩
      · rw [passes]
        rcases (by omega : elapsedSteps s = 1 ∨ elapsedSteps s = 2) with h1 | h2
        · simp [h1]
        · simp [h2]
      · rw [passes, htwo]
        simp

/-! ## `rrd_tune` -/

/-- The loop of `set_windowarg`. -/
def Rrd.eraseWindows (r : Rrd) (f : ℕ) (rra : RraDef) : Rrd :=
  forLoop r.dsCnt (fun d rrd => rrd.setCdp (rrd.cdpIdx f d)
    (eraseViolations rra (rrd.cdpPrep (rrd.cdpIdx f d)))) r

/-- It erases the windows of one RRA. -/
theorem eraseWindows_cells (r : Rrd) (f : ℕ) (rra : RraDef) :
    (∃ c, r.eraseWindows f rra = { r with cdpPrep := c }) ∧ ∀ k d, d < r.dsCnt →
      (r.eraseWindows f rra).cdp k d =
        if k = f ∧ d < r.dsCnt then eraseViolations rra (r.cdp f d) else r.cdp k d := by
  refine forLoop_invariant (fun n (t : Rrd) => (∃ c, t = { r with cdpPrep := c }) ∧
    ∀ k d, d < r.dsCnt → t.cdp k d =
      if k = f ∧ d < n then eraseViolations rra (r.cdp f d) else r.cdp k d)
    ⟨⟨r.cdpPrep, rfl⟩, fun k d _ => (if_neg fun h => absurd h.2 (Nat.not_lt_zero d)).symm⟩ ?_
  rintro n t hn ⟨⟨c, rfl⟩, hcells⟩
  refine ⟨⟨_, rfl⟩, fun k d hd => ?_⟩
  have hold := hcells f n hn
  rw [if_neg fun h => absurd h.2 (lt_irrefl n)] at hold
  by_cases hcell : k = f ∧ d = n
  · obtain ⟨rfl, rfl⟩ := hcell
    rw [if_pos ⟨rfl, Nat.lt_succ_self d⟩, ← hold]
    exact Rrd.cdp_setCdp_self { r with cdpPrep := c } k d _
  · have hne : k ≠ f ∨ d ≠ n := by tauto
    have hiff : (k = f ∧ d < n + 1) ↔ (k = f ∧ d < n) := by omega
    rw [Rrd.cdp_setCdp_of_ne (r := { r with cdpPrep := c }) hn hd hne, hcells k d hd]
    simp only [hiff]

/-- The options that change a window. -/
def TuneOpt.isWindow : TuneOpt → Bool
  | .windowLength => true
  | .failureThreshold => true
  | _ => false

/-- The definition of a `FAILURES` RRA with another window. -/
structure Rewindowed (rra rra' : RraDef) : Prop where
  cf : rra'.cf = rra.cf
  pdpCnt : rra'.pdpCnt = rra.pdpCnt
  dependentRraIdx : rra'.dependentRraIdx = rra.dependentRraIdx
  window_pos : 0 < rra.windowLen → 0 < rra'.windowLen

/-- **A window option** changes the first `FAILURES` RRA, and erases its windows. -/
theorem rrdTune_window {opt : TuneOpt} {arg : Text} {t : TuneRrd} (hopt : opt.isWindow = true)
    (h : rrdTune [(opt, arg)] (.open r) = .ok t) :
    ∃ f rra, (TuneRrd.open r).findRra .failures = some f ∧ Rewindowed (r.rraDef f) rra ∧
      t.rrd = ({ r with rraDef := Function.update r.rraDef f rra } : Rrd).eraseWindows f rra := by
  obtain ⟨t', ht, h⟩ := Outcome.andThen_eq_ok.mp h
  obtain rfl := Outcome.ok.inj h
  have hset (store : RraDef → ℕ → RraDef)
      (hstore : ∀ x n, 0 < n → Rewindowed x (store x n))
      (hs : setWindowarg store arg (.open r) = .ok t') :
      ∃ f rra, (TuneRrd.open r).findRra .failures = some f ∧ Rewindowed (r.rraDef f) rra ∧
        t'.rrd = ({ r with rraDef := Function.update r.rraDef f rra } : Rrd).eraseWindows f rra := by
    simp only [setWindowarg] at hs
    split_ifs at hs with hrange
    obtain ⟨f, hf, rfl⟩ := tuneRra_eq_ok hs
    refine ⟨f, _, hf, hstore (r.rraDef f) _ ?_, rfl⟩
    omega
  cases opt <;> simp only [TuneOpt.isWindow, Bool.false_eq_true] at hopt
  · exact hset (fun x n => { x with seasonalSmoothIdx := n })
      (fun _ _ hn => ⟨rfl, rfl, rfl, fun _ => hn⟩) ht
  · exact hset (fun x n => { x with failureThreshold := n })
      (fun _ _ _ => ⟨rfl, rfl, rfl, fun hx => hx⟩) ht

/-! ## The smoother -/

/-- A smoothing run stores into no window. -/
theorem applySmoother_violations (r : Rrd) (j idx : ℕ) :
    ((applySmoother r j).state.cdpPrep idx).violations = (r.cdpPrep idx).violations := by
  have hset (t : Rrd) (k : ℕ) (x : RrdValue) :
      ((t.setCdp k { t.cdpPrep k with hwIntercept := x }).cdpPrep idx).violations =
        (t.cdpPrep idx).violations := by
    by_cases hk : idx = k
    · rw [hk, Rrd.setCdp_get_self]
    · rw [Rrd.setCdp_get_of_ne hk]
  have hrenorm (m : Smoother) (init : RrdValue → RrdValue → RrdValue) :
      ((smootherRenormalise r j m init).1.cdpPrep idx).violations =
        (r.cdpPrep idx).violations := by
    refine forLoop_invariant
      (fun _ (t : Rrd) => (t.cdpPrep idx).violations = (r.cdpPrep idx).violations) rfl ?_
    intro k t _ ht
    exact (hset t _ _).trans ht
  unfold applySmoother
  dsimp only
  split_ifs
  · rfl
  · rfl
  · split
    · exact hrenorm _ _
    · rfl
  · rfl

theorem smoothAllRras_violations (r : Rrd) (idx : ℕ) :
    ((smoothAllRras r).cdpPrep idx).violations = (r.cdpPrep idx).violations := by
  refine forLoopE_state (fun (t : Rrd) => (t.cdpPrep idx).violations = (r.cdpPrep idx).violations)
    rfl ?_
  intro j t _ ht
  split
  · rw [applySmoother_violations]
    exact ht
  · exact ht

/-! ## New files -/

section Threshold

variable {hashedName idx version period : ℕ} {tokens args : List Text} {x : RraSt} {rras : List RraDef}
  {a b : Defs}

/-- The threshold of a `FAILURES` RRA is positive: its token is read, and checked. -/
theorem contingent_threshold (hx : parseRra hashedName idx version period tokens = .ok x)
    (hrras : contingentRras hashedName idx x = .ok rras) :
    ∀ rra ∈ rras, rra.cf = .failures → 0 < rra.failureThreshold := by
  obtain ⟨cf, -, hmin, hseen⟩ := parseRra_seen hx
  intro rra hmem hcf
  simp only [contingentRras] at hrras
  split_ifs at hrras with hb
  · obtain ⟨n, -, hrras⟩ := bind_eq_ok.mp hrras
    obtain rfl := Except.ok.inj hrras
    simp only [List.mem_cons, List.not_mem_nil, or_false] at hmem
    obtain rfl | rfl | rfl | rfl | rfl := hmem
    · rcases isHwpredict_cases hb.1 with hhw | hhw
      · cases hhw.symm.trans hcf
      · cases hhw.symm.trans hcf
    · cases hcf
    · cases hcf
    · cases hcf
    · exact Nat.succ_pos _
  · obtain rfl := Except.ok.inj hrras
    obtain rfl := List.mem_singleton.mp hmem
    obtain rfl : cf = .failures := hseen.same.symm.trans hcf
    have hfive : 5 ≤ tokens.length := hmin
    exact hseen.threshold rfl (by omega)

theorem createArgs_threshold
    (ha : ∀ rra ∈ a.rras, rra.cf = .failures → 0 < rra.failureThreshold)
    (h : createArgs hashedName args a = .ok b) :
    ∀ rra ∈ b.rras, rra.cf = .failures → 0 < rra.failureThreshold := by
  induction args generalizing a with
  | nil =>
    obtain rfl := Except.ok.inj h
    exact ha
  | cons arg args ih =>
    obtain ⟨c, hc, h⟩ := bind_eq_ok.mp h
    refine ih ?_ h
    rcases createArg_eq_ok hc with ⟨_, _, -, -, rfl⟩ | ⟨_, x, rras, -, -, hx, hrras, rfl⟩
    · exact ha
    · intro rra hmem
      rcases List.mem_append.mp hmem with hmem | hmem
      · exact ha rra hmem
      · exact contingent_threshold hx hrras rra hmem

end Threshold

/-- The window of a `FAILURES` RRA of a new file has room for one observation. -/
theorem Created.window_pos (h : Created r) (hi : i < r.rraCnt) (hcf : (r.rraDef i).cf = .failures) :
    0 < (r.rraDef i).windowLen := by
  have hle := (h.checked hi).failures hcf
  refine Nat.lt_of_lt_of_le ?_ hle
  obtain ⟨_, pdpStep, lastUp, _, random, a, ha, rfl⟩ := h
  obtain ⟨b, hb, ha⟩ := bind_eq_ok.mp ha
  split_ifs at ha
  obtain rfl := Except.ok.inj ha
  change i < b.rras.length at hi
  change (b.rras.getD i (rraDefault 0 .average)).cf = _ at hcf
  change 0 < (b.rras.getD i (rraDefault 0 .average)).failureThreshold
  rw [List.getD_eq_getElem _ _ hi] at hcf ⊢
  exact createArgs_threshold (fun _ hmem => absurd hmem List.not_mem_nil) hb _
    (List.getElem_mem hi) hcf

theorem cdp_create_failures {a : CreateArgs} {random : ℕ → ℕ} (hcf : (a.rraDef i).cf = .failures)
    (hd : d < a.dsCnt) : (rrdCreateFn a random).cdp i d = zeroCdp := by
  rw [cdp_create hd, CreateArgs.cdpOf, forLoop_succ, CreateArgs.initCdp, hcf]

/-- No observation is in the window of a new file. -/
theorem Created.windowHolds (h : Created r) (hcf : (r.rraDef i).cf = .failures) (hd : d < r.dsCnt) :
    WindowHolds r i d [] := by
  refine ShiftRegister.holds_nil fun k _ => ?_
  obtain ⟨_, pdpStep, lastUp, _, random, a, ha, rfl⟩ := h
  rw [cdp_create_failures hcf hd]
  rfl

/-! ## Runs -/

/-- **Runs on a file**: arguments of `rrd_update`, the ends of its calls, and window options of
`rrd_tune`, with the history of one DS of one `FAILURES` RRA. Every pass begins in a state that is
`safe`. -/
inductive FailureRun (safe : Upd → Prop) (i d : ℕ) (r₀ : Rrd) : Upd → List Bool → Prop where
  | start (junk : Upd) : FailureRun safe i d r₀ (junk.start r₀) []
  | argument {s u t : Upd} {history : List Bool} (env : Env) (tmpl : List ℕ) (arg : Text) :
    FailureRun safe i d r₀ s history → parseDsWith env tmpl arg s = .ok u →
    (∀ w ∈ passes env u, safe w) → processReadings env u = .ok t →
    FailureRun safe i d r₀ t (historyNext env i d u history)
  | nextCall {s : Upd} {history : List Bool} (junk : Upd) : FailureRun safe i d r₀ s history →
    FailureRun safe i d r₀
      (junk.start (if s.scheduleSmooth then smoothAllRras s.rrd else s.rrd)) history
  | tune {s : Upd} {t : TuneRrd} {history : List Bool} (opt : TuneOpt) (arg : Text) (junk : Upd) :
    FailureRun safe i d r₀ s history → opt.isWindow = true →
    rrdTune [(opt, arg)] (.open s.rrd) = .ok t →
    FailureRun safe i d r₀ (junk.start t.rrd)
      (if (TuneRrd.open s.rrd).findRra .failures = some i then [] else history)

/-- What every run keeps. -/
structure InWindow (r : Rrd) (i d : ℕ) (history : List Bool) : Prop where
  rra : FailuresRra r i
  side : SameSide r i
  window_pos : 0 < (r.rraDef i).windowLen
  ds_lt : d < r.dsCnt
  holds : WindowHolds r i d history

theorem SameSide.linked (h : SameSide r i) (hl : SameLinks r r') : SameSide r' i := by
  obtain ⟨hdev, -, hseason⟩ := hl.partners i
  rw [SameSide, hdev, hseason]
  exact h

theorem InWindow.congr {history history' : List Bool} (h : InWindow r i d history)
    (hdefs : SameDefs r r') (hw : WindowHolds r' i d history') : InWindow r' i d history' :=
  ⟨h.rra.congr hdefs, h.side.linked hdefs.sameLinks, by rw [hdefs.rraDef]; exact h.window_pos,
    by rw [hdefs.dsCnt]; exact h.ds_lt, hw⟩

/-- **A window option of `rrd_tune`** erases the window that it changes, and keeps the others. -/
theorem InWindow.tune {history : List Bool} (h : InWindow r i d history) {opt : TuneOpt} {arg : Text}
    {t : TuneRrd} (hopt : opt.isWindow = true) (ht : rrdTune [(opt, arg)] (.open r) = .ok t) :
    InWindow t.rrd i d (if (TuneRrd.open r).findRra .failures = some i then [] else history) := by
  obtain ⟨f, rra, hf, hrew, heq⟩ := rrdTune_window hopt ht
  obtain ⟨⟨c, hc⟩, hcells⟩ :=
    eraseWindows_cells { r with rraDef := Function.update r.rraDef f rra } f rra
  have hself : t.rrd.rraDef = Function.update r.rraDef f rra := by rw [heq, hc]
  have hlinks : SameLinks r t.rrd := by
    refine ⟨by rw [heq, hc], by rw [heq, hc], fun k => ?_, fun k => ?_, fun k => ?_⟩
    all_goals
      rw [hself]
      by_cases hk : k = f
      · subst hk
        rw [Function.update_self]
        first | exact hrew.cf | exact hrew.pdpCnt | exact hrew.dependentRraIdx
      · rw [Function.update_of_ne hk]
  have hcell := hcells i d h.ds_lt
  rw [← heq] at hcell
  by_cases hfi : f = i
  · subst hfi
    rw [if_pos hf]
    have hlen : t.rrd.rraDef f = rra := by rw [hself, Function.update_self]
    refine ⟨h.rra.linked hlinks, h.side.linked hlinks, ?_, by rw [hlinks.dsCnt]; exact h.ds_lt, ?_⟩
    · rw [hlen]
      exact hrew.window_pos h.window_pos
    · rw [WindowHolds, hlen, hcell, if_pos ⟨rfl, h.ds_lt⟩, eraseViolations,
        if_pos (hrew.cf.trans h.rra.cf)]
      exact ShiftRegister.holds_erase _ _ _
  · have hlen : t.rrd.rraDef i = r.rraDef i := by rw [hself, Function.update_of_ne (Ne.symm hfi)]
    rw [if_neg fun hsome => hfi (Option.some.inj (hf.symm.trans hsome))]
    refine ⟨h.rra.linked hlinks, h.side.linked hlinks, ?_, by rw [hlinks.dsCnt]; exact h.ds_lt, ?_⟩
    · rw [hlen]
      exact h.window_pos
    · rw [WindowHolds, hlen, hcell, if_neg fun hif => hfi hif.1.symm]
      exact h.holds

/-- **Invariant of all runs**: the window holds the history. -/
theorem FailureRun.inWindow {r₀ : Rrd} {history : List Bool} (hc : Created r₀)
    (hi : FailuresRra r₀ i) (hside : SameSide r₀ i) (hd : d < r₀.dsCnt)
    (hrun : FailureRun (PassSafe · i d) i d r₀ s history) : InWindow s.rrd i d history := by
  induction hrun with
  | start junk =>
    exact ⟨hi, hside, hc.window_pos hi.lt hi.cf, hd, hc.windowHolds hi.cf hd⟩
  | @argument s u t history env tmpl arg _ hu hsafe ht ih =>
    have hrrd : u.rrd = s.rrd := by
      obtain ⟨_, _, _, _, _, rfl⟩ := Outcome.of_state_ok hu (parseDsWith_state tmpl arg s)
      rfl
    rw [← hrrd] at ih
    have hdefs : SameDefs u.rrd t.rrd := Outcome.of_state_ok ht
      (P := HasDefs u.rrd) (processReadings_hasDefs env (SameDefs.refl u.rrd))
    exact ih.congr hdefs
      (processReadings_window ih.rra ih.side ih.window_pos ih.ds_lt ih.holds hsafe ht).1
  | @nextCall s history junk _ ih =>
    cases hs : s.scheduleSmooth with
    | false => exact ih
    | true =>
      have hframe := smoothAllRras_frame s.rrd
      refine ih.congr hframe.sameDefs ?_
      have hds := hframe.sameDefs.dsCnt
      change WindowHolds (smoothAllRras s.rrd) i d history
      rw [WindowHolds, hframe.sameDefs.rraDef, Rrd.cdp, Rrd.cdpIdx, hds, smoothAllRras_violations]
      exact ih.holds
  | tune opt arg junk _ hopt ht ih => exact ih.tune hopt ht

/-- **The window of a `FAILURES` RRA**: what is stored for an observation says whether the last
`window_len` observations since the window was erased contain `failure_threshold` violations, in all
runs in which the RRA stands on the same side of its `SEASONAL` and its `DEVSEASONAL` RRA, and in
which its prediction does not start in front of it while there is something to compare with. -/
theorem failure_window {r₀ : Rrd} {history : List Bool} {tmpl : List ℕ} {arg : Text}
    (hc : Created r₀) (hi : FailuresRra r₀ i) (hside : SameSide r₀ i) (hd : d < r₀.dsCnt)
    (hrun : FailureRun (PassSafe · i d) i d r₀ s history)
    (hu : parseDsWith env tmpl arg s = .ok u) (hsafe : ∀ w ∈ passes env u, PassSafe w i d)
    (ht : processReadings env u = .ok t) :
    StoresFailures (t.rrd.cdp i d) (t.rrd.rraDef i) (elapsedSteps u)
      (historyNext env i d u history) := by
  have hin := hrun.inWindow hc hi hside hd
  have hrrd : u.rrd = s.rrd := by
    obtain ⟨_, _, _, _, _, rfl⟩ := Outcome.of_state_ok hu (parseDsWith_state tmpl arg s)
    rfl
  rw [← hrrd] at hin
  exact (processReadings_window hin.rra hin.side hin.window_pos hin.ds_lt hin.holds hsafe ht).2

/-- The readings of one more argument. -/
def readArg (env : Env) (tmpl : List ℕ) (s : Upd) (arg : Text) : Upd :=
  (processReadings env (parseDsWith env tmpl arg s).state).state

theorem FailureRun.readArg {safe : Upd → Prop} {r₀ : Rrd} {history : List Bool}
    (h : FailureRun safe i d r₀ s history) (env : Env) (tmpl : List ℕ) (arg : Text)
    (hu : (parseDsWith env tmpl arg s).isOk = true)
    (ht : (processReadings env (parseDsWith env tmpl arg s).state).isOk = true)
    (hsafe : ∀ w ∈ passes env (parseDsWith env tmpl arg s).state, safe w) :
    FailureRun safe i d r₀ (readArg env tmpl s arg)
      (historyNext env i d (parseDsWith env tmpl arg s).state history) :=
  .argument env tmpl arg h (Outcome.eq_ok_state hu) hsafe (Outcome.eq_ok_state ht)

/-- The window of the file that comes with a prediction, after two observations. -/
theorem newSeason_window :
    let s := readArg .bare [0, 1] ((Upd.blank newSeason).start newSeason) "1200:0".toList
    let u := (parseDsWith .bare [0, 1] "1500:1".toList s).state
    StoresFailures ((processReadings .bare u).state.rrd.cdp 4 0)
      ((processReadings .bare u).state.rrd.rraDef 4) 1 [false, false] := by
  intro s u
  have hi : FailuresRra newSeason 4 :=
    ⟨by decide, rfl, rfl, ⟨by decide, rfl, rfl, rfl⟩, ⟨by decide, rfl, rfl, rfl⟩, by decide, rfl⟩
  have hstart : FailureRun (PassSafe · 4 0) 4 0 newSeason _ [] := .start (Upd.blank newSeason)
  have hrun := hstart.readArg .bare [0, 1] "1200:0".toList
    (by decide +kernel) (by decide +kernel) (by unfold PassSafe; decide +kernel)
  have hsteps : elapsedSteps u = 1 := by decide +kernel
  have hhist : historyNext .bare 4 0 u (historyNext .bare 4 0 (parseDsWith .bare [0, 1]
      "1200:0".toList ((Upd.blank newSeason).start newSeason)).state []) = [false, false] := by
    decide +kernel
  rw [← hsteps, ← hhist]
  exact failure_window newSeason_created hi (by unfold SameSide; decide) (by decide) hrun
    (Outcome.eq_ok_state (by decide +kernel)) (by unfold PassSafe; decide +kernel)
    (Outcome.eq_ok_state (by decide +kernel))

/-- `FAILURES` between `SEASONAL` and `DEVSEASONAL`. -/
def betweenArgs : List Text :=
  ["DS:d:GAUGE:600:U:U".toList, "RRA:HWPREDICT:4:0.5:0.5:2:2".toList, "RRA:SEASONAL:2:0.5:1".toList,
    "RRA:FAILURES:4:1:1:4".toList, "RRA:DEVSEASONAL:2:0.5:1".toList, "RRA:DEVPREDICT:4:4".toList]

/-- What `rrd_create_r` makes of them. -/
def betweenDefs : Defs where
  version := 3
  ds := [⟨['d'], .gauge, .generic 600 dnan dnan⟩]
  rras := [⟨.hwpredict, 4, 1, .num 0, .num (1 / 2), .num (1 / 2), 1, 0, 0⟩,
    ⟨.seasonal, 2, 1, .num 0, .num (1 / 2), .num (1 / 20), 0, 0, 0⟩,
    ⟨.failures, 4, 1, .num 0, .num 2, .num 2, 3, 1, 1⟩,
    ⟨.devseasonal, 2, 1, .num 0, .num (1 / 2), .num (1 / 20), 0, 0, 0⟩,
    ⟨.devpredict, 4, 1, .num 0, .num 0, .num 0, 3, 0, 0⟩]
  period := 2

theorem betweenDefs_created : rrdCreateR 0 300 betweenArgs = .ok betweenDefs := by decide +kernel

theorem betweenDefs_accepted : betweenDefs.Accepted :=
  (accepted_of_rrdCreateR betweenDefs_created).1

theorem betweenDefs_step : 0 < 300 := (accepted_of_rrdCreateR betweenDefs_created).2

/-- The new file. -/
def newBetween : Rrd :=
  rrdCreateFn (betweenDefs.toArgs 300 900 betweenDefs_accepted betweenDefs_step) fun _ => 0

theorem newBetween_created : Created newBetween :=
  ⟨0, 300, 900, betweenArgs, fun _ => 0, betweenDefs, betweenDefs_created, rfl⟩

/-- **A violation that is not seen**: the last value is one, and its deviation is taken from the
season before. -/
theorem violation_unseen : ¬ ∀ (env : Env) (r₀ : Rrd) (i d : ℕ) (s u t : Upd) (history : List Bool)
    (tmpl : List ℕ) (arg : Text), Created r₀ → FailuresRra r₀ i → d < r₀.dsCnt →
    FailureRun (fun _ => True) i d r₀ s history → parseDsWith env tmpl arg s = .ok u →
    processReadings env u = .ok t →
    StoresFailures (t.rrd.cdp i d) (t.rrd.rraDef i) (elapsedSteps u)
      (historyNext env i d u history) := by
  intro h
  have hi : FailuresRra newBetween 2 :=
    ⟨by decide, rfl, rfl, ⟨by decide, rfl, rfl, rfl⟩, ⟨by decide, rfl, rfl, rfl⟩, by decide, rfl⟩
  have hstart : FailureRun (fun _ => True) 2 0 newBetween _ [] := .start (Upd.blank newBetween)
  have hrun₁ := hstart.readArg .bare [0, 1] "1200:0".toList
    (by decide +kernel) (by decide +kernel) fun _ _ => trivial
  have hrun₂ := hrun₁.readArg .bare [0, 1] "1500:1".toList
    (by decide +kernel) (by decide +kernel) fun _ _ => trivial
  have hrun₃ := hrun₂.readArg .bare [0, 1] "1800:0".toList
    (by decide +kernel) (by decide +kernel) fun _ _ => trivial
  have hrun₄ := hrun₃.readArg .bare [0, 1] "2100:0".toList
    (by decide +kernel) (by decide +kernel) fun _ _ => trivial
  have hstored := (h .bare newBetween 2 0 _ _ _ _ [0, 1] "2400:0".toList newBetween_created hi
    (by decide) hrun₄ (Outcome.eq_ok_state (by decide +kernel))
    (Outcome.eq_ok_state (by decide +kernel))).1 (by decide +kernel)
  exact absurd hstored (by decide +kernel)

end Rrdtool
