import Rrdtool.Atomic
import Rrdtool.Cells

/-!
# One pass over Holt-Winters arrays

The functions of `rrd_hw_update.c` find out by comparing indices which of their partners have been
updated in the current pass. Here a single step is taken apart, for one DS at a time: `stepCell` is
what one RRA does to its preparation area, in terms of the areas it sees then, and `cellNext` the
same in terms of the areas before the pass (`hwPass_eq`). The step ends with one more row of every
RRA (`writeToRras_rowAt`).
-/

namespace Rrdtool

open Loop

/-! ## One RRA -/

/-- The preparation area of RRA `i` and DS `d`. -/
def Rrd.cdp (r : Rrd) (i d : ℕ) : CdpPrep := r.cdpPrep (r.cdpIdx i d)

/-- The model of a prediction. -/
def fnOf (defs : ℕ → RraDef) (h : ℕ) : HwFunctions :=
  (hwFunctionsOf (defs h).cf).getD hwAdditiveFunctions

/-- `update_hwpredict`: the new area of a prediction, for a seasonal coefficient and a value. -/
def predictNext (fn : HwFunctions) (rra : RraDef) (c : CdpPrep) (coef x : RrdValue) : CdpPrep :=
  let c := { c with
    hwLastIntercept := c.hwIntercept, hwLastSlope := c.hwSlope, lastNullCount := c.nullCount,
    primaryVal := x }
  if c.hwIntercept.isnan || c.hwSlope.isnan || coef.isnan then
    { (if c.hwIntercept.isnan && !x.isnan then initSlopeIntercept c .primary else c) with
      primaryVal := dnan }
  else
    { (if x.isnan then { c with nullCount := c.nullCount + 1 }
      else
        let c' := { c with hwIntercept := fn.intercept rra.hwAlpha x coef c }
        { c' with hwSlope := hwCalculateSlope rra.hwBeta c', nullCount := 1 }) with
      primaryVal := fn.predict c.hwIntercept c.hwSlope c.nullCount coef }

/-- `update_seasonal`: what is stored for the old coefficient `seasonal`, with the area of the
prediction as it is seen, before or after its own update. -/
def seasonalStored (fn : HwFunctions) (gamma alpha : RrdValue) (hwFirst : Bool) (hw : CdpPrep)
    (seasonal x : RrdValue) : RrdValue :=
  if x.isnan then seasonal
  else if hwFirst then
    if hw.hwLastIntercept.isnan || hw.hwLastSlope.isnan then dnan
    else if seasonal.isnan then fn.initSeasonality x hw.hwLastIntercept
    else fn.seasonality gamma x hw.hwIntercept seasonal
  else
    if hw.hwIntercept.isnan || hw.hwSlope.isnan then fn.identity
    else if seasonal.isnan then fn.initSeasonality x hw.hwIntercept
    else fn.seasonality gamma x (fn.intercept alpha x seasonal hw) seasonal

/-- What a prediction was for this step, as it is seen before or after its own update. -/
structure Forecast : Type where
  intercept : RrdValue
  slope : RrdValue
  nullCount : ℕ

/-- The coefficients another RRA takes from a prediction. -/
def forecast (hwFirst : Bool) (hw : CdpPrep) : Forecast :=
  if hwFirst then ⟨hw.hwLastIntercept, hw.hwLastSlope, hw.lastNullCount⟩
  else ⟨hw.hwIntercept, hw.hwSlope, hw.nullCount⟩

/-- The prediction. -/
def Forecast.value (f : Forecast) (fn : HwFunctions) (coef : RrdValue) : RrdValue :=
  fn.predict f.intercept f.slope f.nullCount coef

/-- `update_devseasonal`: what is stored for the old deviation `dev`. -/
def devStored (fn : HwFunctions) (gamma : RrdValue) (f : Forecast) (coef dev x : RrdValue) :
    RrdValue :=
  if f.intercept.isnan || f.slope.isnan || coef.isnan then dnan
  else if x.isnan then dev
  else if dev.isnan then hwInitSeasonalDeviation (f.value fn coef) x
  else hwCalculateSeasonalDeviation gamma (f.value fn coef) x dev

/-- `update_failures`: is this value a violation? -/
def violates (fn : HwFunctions) (rra : RraDef) (f : Forecast) (coef dev x : RrdValue) : Bool :=
  if dev.isnan then false
  else if x.isnan then true
  else hwIsViolation x (f.value fn coef) dev rra.deltaPos rra.deltaNeg

/-- `update_failures`: the history with one more entry. -/
def pushViolation (rra : RraDef) (violations : ℕ → Bool) (violation : Bool) : ℕ → Bool := fun i =>
  if i = 0 then violation
  else if i < rra.windowLen then violations (i - 1) else violations i

/-- `update_failures`: is it a failure? -/
def failureStored (rra : RraDef) (violations : ℕ → Bool) : RrdValue :=
  let cnt := (violations 0).toNat +
    forLoop (rra.windowLen - 1) (fun i cnt => cnt + (violations (i + 1)).toNat) 0
  if cnt < rra.failureThreshold then .num 0 else .num 1

/-- The current entry of a seasonal array, as RRA `i` sees it. -/
def seen (view : ℕ → CdpPrep) (s i : ℕ) : RrdValue :=
  if s < i then (view s).hwLastSeasonal else (view s).hwSeasonal

/-- **`update_aberrant_CF`** in terms of the areas of one DS: the new area of RRA `i`. `coef` is the
entry that is looked up for the next step. -/
def stepCell (defs : ℕ → RraDef) (view : ℕ → CdpPrep) (coef x : RrdValue) (i : ℕ) : CdpPrep :=
  let rra := defs i
  let dep := rra.dependentRraIdx
  let c := view i
  match rra.cf with
  | .hwpredict | .mhwpredict => predictNext (fnOf defs i) rra c (seen view dep i) x
  | .seasonal =>
    { c with
      hwLastIntercept := c.hwSeasonal, hwIntercept := coef,
      primaryVal := seasonalStored (fnOf defs dep) rra.seasonalGamma (defs dep).hwAlpha
        (decide (dep < i)) (view dep) c.hwSeasonal x }
  | .devseasonal =>
    { c with
      hwLastIntercept := c.hwSeasonal, hwIntercept := coef,
      primaryVal := devStored (fnOf defs dep) rra.seasonalGamma
        (forecast (decide (dep < i)) (view dep)) (seen view (defs dep).dependentRraIdx i)
        c.hwSeasonal x }
  | .devpredict => { c with primaryVal := seen view dep i }
  | .failures =>
    let hw := (defs dep).dependentRraIdx
    let season := (defs hw).dependentRraIdx
    let dev := if i < season then (view dep).hwSeasonal else (view dep).hwLastSeasonal
    let coef := if i < season then (view season).hwSeasonal else (view season).hwLastSeasonal
    let violations := pushViolation rra c.violations (violates (fnOf defs hw) rra
      (forecast (decide (¬i < hw)) (view hw)) coef dev x)
    { c with violations := violations, primaryVal := failureStored rra violations }
  | _ => { c with primaryVal := x }

/-! ## Linked arrays -/

/-- The partners of RRA `i` are what its CF asks for. -/
def LinkedAt (defs : ℕ → RraDef) (i : ℕ) : Prop :=
  let dep := (defs i).dependentRraIdx
  match (defs i).cf with
  | .hwpredict | .mhwpredict => (defs dep).cf = .seasonal ∧ (defs dep).dependentRraIdx = i
  | .seasonal => (hwFunctionsOf (defs dep).cf).isSome = true ∧ (defs dep).dependentRraIdx = i
  | .devseasonal => (hwFunctionsOf (defs dep).cf).isSome = true
  | .devpredict | .failures => (defs dep).cf = .devseasonal
  | _ => False

/-- **The arrays of Holt-Winters predictions**, linked by their dependent indices. -/
structure HwSet (n : ℕ) (defs : ℕ → RraDef) : Prop where
  pdpCnt : ∀ i, i < n → (defs i).pdpCnt = 1
  dep_lt : ∀ i, i < n → (defs i).dependentRraIdx < n
  linked : ∀ i, i < n → LinkedAt defs i

/-- A partner is another RRA. -/
theorem LinkedAt.dep_ne {defs : ℕ → RraDef} {i : ℕ} (h : LinkedAt defs i) :
    (defs i).dependentRraIdx ≠ i := by
  intro heq
  rw [LinkedAt, heq] at h
  cases hcf : (defs i).cf <;> simp [hcf, hwFunctionsOf] at h

section Links

variable {n : ℕ} {defs : ℕ → RraDef} {i h : ℕ}

/-- The partner of a prediction. -/
theorem HwSet.season (hset : HwSet n defs) (hh : h < n)
    (hfn : (hwFunctionsOf (defs h).cf).isSome = true) :
    (defs (defs h).dependentRraIdx).cf = .seasonal ∧
      (defs (defs h).dependentRraIdx).dependentRraIdx = h := by
  have hlink := hset.linked h hh
  rw [LinkedAt] at hlink
  cases hcf : (defs h).cf <;> simp [hcf, hwFunctionsOf] at hfn hlink
  · exact hlink
  · exact hlink

/-- The partner of a `SEASONAL` RRA. -/
theorem HwSet.hw_of_seasonal (hset : HwSet n defs) (hi : i < n) (hcf : (defs i).cf = .seasonal) :
    (hwFunctionsOf (defs (defs i).dependentRraIdx).cf).isSome = true ∧
      (defs (defs i).dependentRraIdx).dependentRraIdx = i := by
  have hlink := hset.linked i hi
  rw [LinkedAt, hcf] at hlink
  exact hlink

/-- The partner of a `DEVSEASONAL` RRA. -/
theorem HwSet.hw_of_dev (hset : HwSet n defs) (hi : i < n) (hcf : (defs i).cf = .devseasonal) :
    (hwFunctionsOf (defs (defs i).dependentRraIdx).cf).isSome = true := by
  have hlink := hset.linked i hi
  rw [LinkedAt, hcf] at hlink
  exact hlink

/-- The partner of a `DEVPREDICT` or `FAILURES` RRA. -/
theorem HwSet.dev (hset : HwSet n defs) (hi : i < n)
    (hcf : (defs i).cf = .devpredict ∨ (defs i).cf = .failures) :
    (defs (defs i).dependentRraIdx).cf = .devseasonal := by
  have hlink := hset.linked i hi
  rw [LinkedAt] at hlink
  obtain hcf | hcf := hcf
  · rw [hcf] at hlink
    exact hlink
  · rw [hcf] at hlink
    exact hlink

/-- RRAs of different CFs are different. -/
theorem ne_of_cf {j : ℕ} (hcf : (defs i).cf ≠ (defs j).cf) : i ≠ j := by
  rintro rfl
  exact hcf rfl

theorem ne_of_hw {j : ℕ} (hfn : (hwFunctionsOf (defs i).cf).isSome = true)
    (hj : hwFunctionsOf (defs j).cf = none) : i ≠ j := by
  rintro rfl
  simp [hj] at hfn

end Links

theorem hwFunctionsOf_eq {defs : ℕ → RraDef} {h : ℕ}
    (hfn : (hwFunctionsOf (defs h).cf).isSome = true) :
    hwFunctionsOf (defs h).cf = some (fnOf defs h) := by
  obtain ⟨fn, hfn⟩ := Option.isSome_iff_exists.mp hfn
  rw [fnOf, hfn]
  rfl

variable {r : Rrd} {x : RrdValue} {i d : ℕ} {f : ℕ → RrdValue}

theorem Rrd.setCdp_rraDef (r : Rrd) (idx : ℕ) (c : CdpPrep) : (r.setCdp idx c).rraDef = r.rraDef := rfl

theorem Rrd.setCdp_dsCnt (r : Rrd) (idx : ℕ) (c : CdpPrep) : (r.setCdp idx c).dsCnt = r.dsCnt := rfl

theorem Rrd.cdp_setCdp_self (r : Rrd) (i d : ℕ) (c : CdpPrep) :
    (r.setCdp (r.cdpIdx i d) c).cdp i d = c :=
  r.setCdp_get_self _ c

theorem Rrd.cdp_setCdp_of_ne (hd : d < r.dsCnt) {j d' : ℕ} (hd' : d' < r.dsCnt)
    (h : j ≠ i ∨ d' ≠ d) (c : CdpPrep) :
    (r.setCdp (r.cdpIdx i d) c).cdp j d' = r.cdp j d' := by
  refine Rrd.setCdp_get_of_ne (fun heq => ?_) c
  obtain ⟨hji, hdd⟩ := cdpIdx_inj hd' hd heq
  exact h.elim (· hji) (· hdd)

/-- What `update_hwpredict` does to the areas of its DS. -/
theorem updateHwpredict_eq (hd : d < r.dsCnt) (hne : (r.rraDef i).dependentRraIdx ≠ i)
    (fn : HwFunctions) :
    updateHwpredict (r.setCdp (r.cdpIdx i d) { r.cdp i d with primaryVal := x }) i d .primary fn =
      r.setCdp (r.cdpIdx i d) (predictNext fn (r.rraDef i) (r.cdp i d)
        (seen (r.cdp · d) (r.rraDef i).dependentRraIdx i) x) := by
  have hother : ∀ c, (r.setCdp (r.cdpIdx i d) c).cdpPrep
      ((r.rraDef i).dependentRraIdx * r.dsCnt + d) = r.cdp (r.rraDef i).dependentRraIdx d :=
    fun c => Rrd.cdp_setCdp_of_ne hd hd (.inl hne) c
  simp only [updateHwpredict, Rrd.cdpIdx, Rrd.setCdp_get_self, Rrd.setCdp_setCdp, Rrd.setCdp_rraDef, Rrd.setCdp_dsCnt, hother,
    CdpPrep.scratch]
  exact (apply_ite (r.setCdp (r.cdpIdx i d)) _ _ _).symm

/-- What `update_seasonal` does to the areas of its DS. -/
theorem updateSeasonal_eq (hd : d < r.dsCnt) (hne : (r.rraDef i).dependentRraIdx ≠ i)
    (fn : HwFunctions) :
    updateSeasonal (r.setCdp (r.cdpIdx i d) { r.cdp i d with primaryVal := x }) i d .primary f fn =
      r.setCdp (r.cdpIdx i d) { r.cdp i d with
        hwLastIntercept := (r.cdp i d).hwSeasonal, hwIntercept := f d,
        primaryVal := seasonalStored fn (r.rraDef i).seasonalGamma
          (r.rraDef (r.rraDef i).dependentRraIdx).hwAlpha
          (decide ((r.rraDef i).dependentRraIdx < i)) (r.cdp (r.rraDef i).dependentRraIdx d)
          (r.cdp i d).hwSeasonal x } := by
  have hother : ∀ c, (r.setCdp (r.cdpIdx i d) c).cdpPrep
      ((r.rraDef i).dependentRraIdx * r.dsCnt + d) = r.cdp (r.rraDef i).dependentRraIdx d :=
    fun c => Rrd.cdp_setCdp_of_ne hd hd (.inl hne) c
  simp only [updateSeasonal, Rrd.cdpIdx, Rrd.setCdp_get_self, Rrd.setCdp_setCdp, Rrd.setCdp_rraDef, Rrd.setCdp_dsCnt, hother,
    CdpPrep.scratch, CdpPrep.setScratch, seasonalStored, decide_eq_true_eq]

theorem updateDevpredict_eq (hd : d < r.dsCnt) (hne : (r.rraDef i).dependentRraIdx ≠ i) :
    updateDevpredict (r.setCdp (r.cdpIdx i d) { r.cdp i d with primaryVal := x }) i d .primary =
      r.setCdp (r.cdpIdx i d) { r.cdp i d with
        primaryVal := seen (r.cdp · d) (r.rraDef i).dependentRraIdx i } := by
  have hother : ∀ c, (r.setCdp (r.cdpIdx i d) c).cdpPrep
      ((r.rraDef i).dependentRraIdx * r.dsCnt + d) = r.cdp (r.rraDef i).dependentRraIdx d :=
    fun c => Rrd.cdp_setCdp_of_ne hd hd (.inl hne) c
  simp only [updateDevpredict, Rrd.cdpIdx, Rrd.setCdp_get_self, Rrd.setCdp_setCdp, Rrd.setCdp_rraDef, Rrd.setCdp_dsCnt, hother,
    CdpPrep.setScratch, seen]

/-- What `update_devseasonal` does to the areas of its DS. -/
theorem updateDevseasonal_eq (hd : d < r.dsCnt) (hne : (r.rraDef i).dependentRraIdx ≠ i)
    (hne' : (r.rraDef (r.rraDef i).dependentRraIdx).dependentRraIdx ≠ i) (fn : HwFunctions) :
    updateDevseasonal (r.setCdp (r.cdpIdx i d) { r.cdp i d with primaryVal := x }) i d .primary f fn =
      r.setCdp (r.cdpIdx i d) { r.cdp i d with
        hwLastIntercept := (r.cdp i d).hwSeasonal, hwIntercept := f d,
        primaryVal := devStored fn (r.rraDef i).seasonalGamma
          (forecast (decide ((r.rraDef i).dependentRraIdx < i)) (r.cdp (r.rraDef i).dependentRraIdx d))
          (seen (r.cdp · d) (r.rraDef (r.rraDef i).dependentRraIdx).dependentRraIdx i)
          (r.cdp i d).hwSeasonal x } := by
  have hother : ∀ j, j ≠ i → ∀ c, (r.setCdp (r.cdpIdx i d) c).cdpPrep (j * r.dsCnt + d) = r.cdp j d :=
    fun j hj c => Rrd.cdp_setCdp_of_ne hd hd (.inl hj) c
  by_cases hlt : (r.rraDef i).dependentRraIdx < i
  · simp only [updateDevseasonal, Rrd.cdpIdx, Rrd.setCdp_get_self, Rrd.setCdp_setCdp, Rrd.setCdp_rraDef,
      Rrd.setCdp_dsCnt,
      hother _ hne, hother _ hne', CdpPrep.scratch, CdpPrep.setScratch, devStored, forecast, hlt,
      Forecast.value, seen, decide_true, if_true]
  · simp only [updateDevseasonal, Rrd.cdpIdx, Rrd.setCdp_get_self, Rrd.setCdp_setCdp, Rrd.setCdp_rraDef,
      Rrd.setCdp_dsCnt,
      hother _ hne, hother _ hne', CdpPrep.scratch, CdpPrep.setScratch, devStored, forecast, hlt,
      Forecast.value, seen, decide_false, if_false, Bool.false_eq_true]

/-- What `update_failures` does to the areas of its DS. -/
theorem updateFailures_eq (hd : d < r.dsCnt) {dev hw season : ℕ}
    (hdev : (r.rraDef i).dependentRraIdx = dev) (hhw : (r.rraDef dev).dependentRraIdx = hw)
    (hseason : (r.rraDef hw).dependentRraIdx = season) (hdi : dev ≠ i) (hhi : hw ≠ i)
    (hsi : season ≠ i) (fn : HwFunctions) :
    updateFailures (r.setCdp (r.cdpIdx i d) { r.cdp i d with primaryVal := x }) i d .primary fn =
      r.setCdp (r.cdpIdx i d) (
        let violations := pushViolation (r.rraDef i) (r.cdp i d).violations (violates fn (r.rraDef i)
          (forecast (decide (¬i < hw)) (r.cdp hw d))
          (if i < season then (r.cdp season d).hwSeasonal else (r.cdp season d).hwLastSeasonal)
          (if i < season then (r.cdp dev d).hwSeasonal else (r.cdp dev d).hwLastSeasonal) x)
        { r.cdp i d with violations := violations, primaryVal := failureStored (r.rraDef i) violations }) := by
  have hother : ∀ j, j ≠ i → ∀ c, (r.setCdp (r.cdpIdx i d) c).cdpPrep (j * r.dsCnt + d) = r.cdp j d :=
    fun j hj c => Rrd.cdp_setCdp_of_ne hd hd (.inl hj) c
  by_cases hlt : i < hw
  · simp only [updateFailures, Rrd.cdpIdx, Rrd.setCdp_get_self, Rrd.setCdp_setCdp, Rrd.setCdp_rraDef, Rrd.setCdp_dsCnt, hdev, hhw,
      hseason, hother _ hdi, hother _ hhi, hother _ hsi, CdpPrep.scratch, CdpPrep.setScratch, violates,
      forecast, hlt, Forecast.value, not_true, decide_false, if_false, if_true, Bool.false_eq_true,
      pushViolation, failureStored]
    rfl
  · simp only [updateFailures, Rrd.cdpIdx, Rrd.setCdp_get_self, Rrd.setCdp_setCdp, Rrd.setCdp_rraDef, Rrd.setCdp_dsCnt, hdev, hhw,
      hseason, hother _ hdi, hother _ hhi, hother _ hsi, CdpPrep.scratch, CdpPrep.setScratch, violates,
      forecast, hlt, Forecast.value, not_false_eq_true, decide_true, if_true, if_false, pushViolation,
      failureStored]
    rfl

/-- **`update_aberrant_CF`** stores `stepCell`. -/
theorem updateAberrantCF_eq (hd : d < r.dsCnt) (hi : i < r.rraCnt) (hset : HwSet r.rraCnt r.rraDef) :
    updateAberrantCF r x i d .primary f =
      r.setCdp (r.cdpIdx i d) (stepCell r.rraDef (r.cdp · d) (f d) x i) := by
  have hlink := hset.linked i hi
  have hne := hlink.dep_ne
  have hset0 : r.setCdp (r.cdpIdx i d) ((r.cdpPrep (r.cdpIdx i d)).setScratch .primary x) =
      r.setCdp (r.cdpIdx i d) { r.cdp i d with primaryVal := x } := rfl
  simp only [updateAberrantCF, hset0, Rrd.setCdp_rraDef, stepCell]
  rw [LinkedAt] at hlink
  cases hcf : (r.rraDef i).cf with
  | hwpredict =>
    have hfn : fnOf r.rraDef i = hwAdditiveFunctions := by simp [fnOf, hcf, hwFunctionsOf]
    simp only [hfn]
    exact updateHwpredict_eq hd hne _
  | mhwpredict =>
    have hfn : fnOf r.rraDef i = hwMultiplicativeFunctions := by simp [fnOf, hcf, hwFunctionsOf]
    simp only [hfn]
    exact updateHwpredict_eq hd hne _
  | seasonal =>
    simp only [hcf] at hlink
    simp only [hwFunctionsOf_eq hlink.1]
    exact updateSeasonal_eq hd hne _
  | devseasonal =>
    simp only [hcf] at hlink
    have hseason := hset.season (hset.dep_lt i hi) hlink
    have hne' : (r.rraDef (r.rraDef i).dependentRraIdx).dependentRraIdx ≠ i :=
      ne_of_cf (by rw [hseason.1, hcf]; decide)
    simp only [hwFunctionsOf_eq hlink]
    exact updateDevseasonal_eq hd hne hne' _
  | devpredict => exact updateDevpredict_eq hd hne
  | failures =>
    have hdev := hset.dev hi (.inr hcf)
    have hdlt := hset.dep_lt i hi
    have hhw := hset.hw_of_dev hdlt hdev
    have hseason := hset.season (hset.dep_lt _ hdlt) hhw
    have hhi := ne_of_hw (j := i) hhw (by rw [hcf]; rfl)
    have hsi : (r.rraDef (r.rraDef (r.rraDef i).dependentRraIdx).dependentRraIdx).dependentRraIdx ≠ i :=
      ne_of_cf (by rw [hseason.1, hcf]; decide)
    simp only [hwFunctionsOf_eq hhw]
    exact updateFailures_eq hd rfl rfl rfl hne hhi hsi _
  | average | minimum | maximum | last => simp [hcf] at hlink

/-! ## One pass -/

/-- The value of DS `d` in the row of RRA `i` that comes `k` rows after the current one. -/
def Rrd.rowAt (r : Rrd) (i k d : ℕ) : RrdValue :=
  r.values (r.cellPos i ((r.curRow i + k) % (r.rraDef i).rowCnt) d)

/-- One DS in a pass over the first `n` RRAs. -/
def hwPass (defs : ℕ → RraDef) (coef : ℕ → RrdValue) (x : RrdValue) (n : ℕ) (view : ℕ → CdpPrep) :
    ℕ → CdpPrep :=
  forLoop n (fun i view => Function.update view i (stepCell defs view (coef i) x i)) view

/-- Only seasonal arrays look at the entry for the next step. -/
theorem stepCell_coef {defs : ℕ → RraDef} {view : ℕ → CdpPrep} (hcf : (defs i).cf.isSeasonal = false)
    (c c' : RrdValue) : stepCell defs view c x i = stepCell defs view c' x i := by
  simp only [stepCell]
  cases h : (defs i).cf <;> simp [h, Cf.isSeasonal] at hcf ⊢

variable {s t : Upd}

/-- The DS loop of `update_aberrant_cdps` works on the areas of each DS apart. -/
theorem aberrantLoop_cdp (hi : i < s.rrd.rraCnt) (hset : HwSet s.rrd.rraCnt s.rrd.rraDef)
    (hd : d < s.rrd.dsCnt) (j : ℕ) :
    (aberrantLoop .primary i s).rrd.cdp j d =
      Function.update (s.rrd.cdp · d) i
        (stepCell s.rrd.rraDef (s.rrd.cdp · d) (s.seasonalCoef d) (s.pdpTemp d) i) j := by
  refine ((forLoop_invariant (fun k (u : Upd) =>
      (∃ c, u = { s with rrd := { s.rrd with cdpPrep := c } }) ∧
      ∀ j d, d < s.rrd.dsCnt → u.rrd.cdp j d = if d < k then Function.update (s.rrd.cdp · d) i
        (stepCell s.rrd.rraDef (s.rrd.cdp · d) (s.seasonalCoef d) (s.pdpTemp d) i) j
      else s.rrd.cdp j d) ⟨⟨s.rrd.cdpPrep, rfl⟩, fun _ _ _ => rfl⟩ ?_).2 j d hd).trans (if_pos hd)
  rintro k u hk ⟨⟨c, rfl⟩, hcdp⟩
  have hview : (fun j => Rrd.cdp { s.rrd with cdpPrep := c } j k) = (s.rrd.cdp · k) := by
    funext j
    have hjk := hcdp j k hk
    rwa [if_neg (Nat.lt_irrefl k)] at hjk
  have hcell : updateAberrantCF { s.rrd with cdpPrep := c } (s.pdpTemp k) i k .primary
      s.seasonalCoef = Rrd.setCdp { s.rrd with cdpPrep := c } (s.rrd.cdpIdx i k)
        (stepCell s.rrd.rraDef (s.rrd.cdp · k) (s.seasonalCoef k) (s.pdpTemp k) i) := by
    rw [updateAberrantCF_eq (r := { s.rrd with cdpPrep := c }) hk hi hset, hview]
  refine ⟨⟨_, by rw [hcell]; rfl⟩, fun j d hd => ?_⟩
  rw [hcell]
  by_cases hjd : j = i ∧ d = k
  · obtain ⟨rfl, rfl⟩ := hjd
    rw [if_pos (Nat.lt_succ_self d), Function.update_self]
    exact Rrd.cdp_setCdp_self { s.rrd with cdpPrep := c } j d _
  · rw [Rrd.cdp_setCdp_of_ne (r := { s.rrd with cdpPrep := c }) hk hd (by tauto), hcdp j d hd]
    by_cases hdk : d = k
    · subst hdk
      have hji : j ≠ i := fun h => hjd ⟨h, rfl⟩
      rw [if_neg (Nat.lt_irrefl d), if_pos (Nat.lt_succ_self d), Function.update_of_ne hji]
    · have hiff : d < k + 1 ↔ d < k := by omega
      simp only [hiff]

/-- Where `lookup_seasonal` looks. -/
theorem lookupSeasonal_rowAt (hrow : s.rrd.curRow i < (s.rrd.rraDef i).rowCnt)
    (hcnt : (s.rrd.rraDef i).rowCnt < 2 ^ 63) {k : ℕ} (hk : k < 2 ^ 62) (d : ℕ) :
    (lookupSeasonal s i k).2 d = s.rrd.rowAt i k d := by
  have hlong : ulong (s.rrd.curRow i + k) = s.rrd.curRow i + k := Nat.mod_eq_of_lt (by omega)
  simp only [lookupSeasonal, Rrd.rowAt, Rrd.cellPos, hlong]
  rw [Nat.mul_comm]

/-- The rows are where the ring and the arithmetic of `unsigned long` can reach them. -/
structure InRing (r : Rrd) : Prop where
  curRow_lt : ∀ i, i < r.rraCnt → r.curRow i < (r.rraDef i).rowCnt
  rowCnt_lt : ∀ i, i < r.rraCnt → (r.rraDef i).rowCnt < 2 ^ 63

/-- The entry for the next step that one RRA of the pass is given. -/
theorem lookupAhead_coef {u : Upd} (hring : InRing u.rrd) (hi : i < u.rrd.rraCnt)
    (hcf : (u.rrd.rraDef i).cf.isSeasonal = true) (d : ℕ) :
    (lookupAhead 1 .primary i u).seasonalCoef d = u.rrd.rowAt i 2 d := by
  simp only [lookupAhead, hcf, if_true]
  exact lookupSeasonal_rowAt (hring.curRow_lt i hi) (hring.rowCnt_lt i hi) (by decide) d

/-- One RRA of the pass, for each DS apart. -/
theorem updateAberrantRra_cdp {u v : Upd} (hsound : Sound u) (hset : HwSet u.rrd.rraCnt u.rrd.rraDef)
    (hring : InRing u.rrd) (hi : i < u.rrd.rraCnt) (h : updateAberrantRra 1 .primary i u = .ok v) :
    CdpFrame u v ∧ Sound v ∧ ∀ d, d < u.rrd.dsCnt → (v.rrd.cdp · d) =
      Function.update (u.rrd.cdp · d) i
        (stepCell u.rrd.rraDef (u.rrd.cdp · d) (u.rrd.rowAt i 2 d) (u.pdpTemp d) i) := by
  have hl := lookupAhead_sound hsound hi 1 .primary
  have hlframe := lookupAhead_frame 1 .primary i u
  have hlrrd : (lookupAhead 1 .primary i u).rrd = u.rrd := lookupAhead_rrd .primary i u
  rw [updateAberrantRra, if_pos (hset.pdpCnt i hi), testError_sound hl, Outcome.ok_andThen] at h
  obtain rfl := Outcome.ok.inj h
  refine ⟨hlframe.trans (aberrantLoop_frame .primary i _), hl.congr
    (aberrantLoop_frame .primary i _).prep.sameDefs ((aberrantLoop_error .primary i _).trans hl.error),
    fun d hd => funext fun j => ?_⟩
  have hcoef : stepCell u.rrd.rraDef (u.rrd.cdp · d) ((lookupAhead 1 .primary i u).seasonalCoef d)
      (u.pdpTemp d) i =
      stepCell u.rrd.rraDef (u.rrd.cdp · d) (u.rrd.rowAt i 2 d) (u.pdpTemp d) i := by
    cases hcf : (u.rrd.rraDef i).cf.isSeasonal with
    | true => rw [lookupAhead_coef hring hi hcf]
    | false => exact stepCell_coef hcf _ _
  rw [aberrantLoop_cdp (by rw [hlrrd]; exact hi) (by rw [hlrrd]; exact hset) (by rw [hlrrd]; exact hd),
    hlrrd, hlframe.pdpTemp, hcoef]

/-- **One pass of `update_aberrant_cdps`**, for each DS apart. -/
theorem updateAberrantPass_cdp (hsound : Sound s) (hset : HwSet s.rrd.rraCnt s.rrd.rraDef)
    (hring : InRing s.rrd) (h : updateAberrantPass 1 .primary s = .ok t) (hd : d < s.rrd.dsCnt) (j : ℕ) :
    t.rrd.cdp j d = hwPass s.rrd.rraDef (fun i => s.rrd.rowAt i 2 d) (s.pdpTemp d) s.rrd.rraCnt
      (s.rrd.cdp · d) j := by
  refine congrFun ((forLoopE_invariant (fun k (u : Upd) => CdpFrame s u ∧ Sound u ∧
    ∀ d, d < s.rrd.dsCnt → (u.rrd.cdp · d) =
      hwPass s.rrd.rraDef (fun i => s.rrd.rowAt i 2 d) (s.pdpTemp d) k (s.rrd.cdp · d))
    ⟨CdpFrame.refl s, hsound, fun _ _ => rfl⟩ ?_ h).2.2 d hd) j
  rintro i u v hi ⟨hframe, hsu, hcdp⟩ hv
  have hsame : u.rrd.rraCnt = s.rrd.rraCnt ∧ u.rrd.rraDef = s.rrd.rraDef ∧ u.rrd.dsCnt = s.rrd.dsCnt ∧
      u.rrd.rowAt = s.rrd.rowAt ∧ u.pdpTemp = s.pdpTemp ∧ InRing u.rrd := by
    obtain ⟨_, _, _, _, rfl⟩ := hframe
    exact ⟨rfl, rfl, rfl, rfl, rfl, hring.1, hring.2⟩
  obtain ⟨hcnt, hdef, hds, hrows, htemp, hringu⟩ := hsame
  obtain ⟨hframe', hsv, hstep⟩ := updateAberrantRra_cdp hsu (by rw [hcnt, hdef]; exact hset) hringu
    (by rw [hcnt]; exact hi) hv
  refine ⟨hframe.trans hframe', hsv, fun d hd => ?_⟩
  rw [hstep d (by rw [hds]; exact hd), hcdp d hd, hdef, hrows, htemp]
  rfl

/-! ## Before the pass -/

/-- The part of a preparation area that a CF keeps from one step to the next. -/
def SameCdp (cf : Cf) (c c' : CdpPrep) : Prop :=
  match cf with
  | .hwpredict | .mhwpredict =>
    c'.hwIntercept = c.hwIntercept ∧ c'.hwSlope = c.hwSlope ∧ c'.nullCount = c.nullCount
  | .seasonal | .devseasonal => c'.hwSeasonal = c.hwSeasonal ∧ c'.hwLastSeasonal = c.hwLastSeasonal
  | .failures => c'.violations = c.violations
  | _ => True

theorem SameCdp.refl (cf : Cf) (c : CdpPrep) : SameCdp cf c c := by
  cases cf <;> simp [SameCdp]

theorem SameCdp.symm {cf : Cf} {c c' : CdpPrep} (h : SameCdp cf c c') : SameCdp cf c' c := by
  cases cf with
  | hwpredict => exact ⟨h.1.symm, h.2.1.symm, h.2.2.symm⟩
  | mhwpredict => exact ⟨h.1.symm, h.2.1.symm, h.2.2.symm⟩
  | seasonal => exact ⟨h.1.symm, h.2.symm⟩
  | devseasonal => exact ⟨h.1.symm, h.2.symm⟩
  | failures => exact Eq.symm h
  | average | minimum | maximum | last | devpredict => trivial

theorem SameCdp.trans {cf : Cf} {c c' c'' : CdpPrep} (h : SameCdp cf c c') (h' : SameCdp cf c' c'') :
    SameCdp cf c c'' := by
  cases cf with
  | hwpredict => exact ⟨h'.1.trans h.1, h'.2.1.trans h.2.1, h'.2.2.trans h.2.2⟩
  | mhwpredict => exact ⟨h'.1.trans h.1, h'.2.1.trans h.2.1, h'.2.2.trans h.2.2⟩
  | seasonal => exact ⟨h'.1.trans h.1, h'.2.trans h.2⟩
  | devseasonal => exact ⟨h'.1.trans h.1, h'.2.trans h.2⟩
  | failures => exact Eq.trans h' h
  | average | minimum | maximum | last | devpredict => trivial

/-- With one PDP per row, a single step gives every RRA one row, and only the burn-in counters of
seasonal arrays change. -/
theorem prepareRra_single {u : Upd} {proc : ℕ} (hp : (u.rrd.rraDef i).pdpCnt = 1) :
    (prepareRra 1 proc i u).skipUpdate = Function.update u.skipUpdate i false ∧
      ∀ idx, (prepareRra 1 proc i u).rrd.cdpPrep idx = u.rrd.cdpPrep idx ∨
        ((u.rrd.rraDef i).cf.isSeasonal = true ∧ idx = i * u.rrd.dsCnt ∧ ∃ n,
          (prepareRra 1 proc i u).rrd.cdpPrep idx = { u.rrd.cdpPrep idx with nullCount := n }) := by
  have hsteps : rraSteps (u.rrd.rraDef i).pdpCnt proc 1 = 1 := by
    rw [hp]
    simp [rraSteps, startPdpOffset, Nat.mod_one]
  cases hcf : (u.rrd.rraDef i).cf.isSeasonal with
  | false =>
    simp [prepareRra, hcf]
  | true =>
    simp only [prepareRra, hcf, if_true, scheduleSeasonal, hsteps, Function.update_self,
      Nat.lt_irrefl, if_false]
    refine ⟨trivial, fun idx => ?_⟩
    simp only [doScheduleSmooth]
    split_ifs
    · exact .inl rfl
    · exact .inl rfl
    · by_cases hidx : idx = i * u.rrd.dsCnt
      · subst hidx
        exact .inr ⟨trivial, rfl, _, Rrd.setCdp_get_self _ _ _⟩
      · exact .inl (Rrd.setCdp_get_of_ne hidx _)
    · exact .inl rfl

/-- Nothing is consolidated then. -/
theorem updateCdpPrep_single {u : Upd} (hp : (u.rrd.rraDef i).pdpCnt = 1) (offset : ℕ) :
    updateCdpPrep 1 offset i u = u := by
  have hkeep : preparedCdps u 1 offset i u.rrd.dsCnt = u.rrd.cdpPrep := by
    funext idx
    simp [preparedCdps, prepareCdp, hp]
  rw [updateCdpPrep_eq, hkeep]

/-- One RRA of `update_all_cdp_prep` keeps the areas of all RRAs. -/
theorem updateAllCdpPrepRra_same {u v : Upd} {proc : ℕ} (hp : (u.rrd.rraDef i).pdpCnt = 1)
    (h : updateAllCdpPrepRra 1 proc i u = .ok v) {j : ℕ} (hd : d < u.rrd.dsCnt) :
    SameCdp (u.rrd.rraDef j).cf (u.rrd.cdp j d) (v.rrd.cdp j d) := by
  have hframe := (prepareRra_frame 1 proc i u).sameDefs
  rw [updateAllCdpPrepRra_ok h, updateCdpPrep_single (by rw [hframe.rraDef]; exact hp)]
  have hidx : (prepareRra 1 proc i u).rrd.cdpIdx j d = u.rrd.cdpIdx j d := by
    rw [Rrd.cdpIdx, hframe.dsCnt]
  rw [Rrd.cdp, Rrd.cdp, hidx]
  obtain hsame | ⟨hcf, hij, n, hnew⟩ := (@prepareRra_single i u proc hp).2 (u.rrd.cdpIdx j d)
  · rw [hsame]
    exact .refl _ _
  · rw [hnew]
    obtain ⟨rfl, -⟩ := cdpIdx_inj hd (by omega : 0 < u.rrd.dsCnt) (by omega : _ = i * u.rrd.dsCnt + 0)
    cases hj : (u.rrd.rraDef j).cf <;> simp [hj, Cf.isSeasonal] at hcf
    · exact ⟨rfl, rfl⟩
    · exact ⟨rfl, rfl⟩

/-- **`update_all_cdp_prep` in a single step**: every RRA gets a row, and its area is kept. -/
theorem updateAllCdpPrep_single {proc : ℕ} (hp : ∀ i, i < s.rrd.rraCnt → (s.rrd.rraDef i).pdpCnt = 1)
    (h : updateAllCdpPrep 1 proc s = .ok t) :
    (∀ i, i < s.rrd.rraCnt → t.rraStepCnt i = 1 ∧ t.skipUpdate i = false) ∧
      ∀ i d, d < s.rrd.dsCnt → SameCdp (s.rrd.rraDef i).cf (s.rrd.cdp i d) (t.rrd.cdp i d) := by
  have hinv := forLoopE_invariant (fun k (u : Upd) => SameDefs s.rrd u.rrd ∧
    (∀ i, i < k → u.skipUpdate i = false) ∧
    ∀ i d, d < s.rrd.dsCnt → SameCdp (s.rrd.rraDef i).cf (s.rrd.cdp i d) (u.rrd.cdp i d))
    ⟨.refl _, by simp, fun _ _ _ => .refl _ _⟩ ?_ h
  · obtain ⟨-, hskip, hsame⟩ := hinv
    refine ⟨fun i hi => ⟨?_, hskip i hi⟩, hsame⟩
    rw [updateAllCdpPrep_rraStepCnt h hi, hp i hi]
    simp [rraSteps, startPdpOffset, Nat.mod_one]
  · rintro k u v hk ⟨hdefs, hskip, hsame⟩ hv
    have hf : PrepFrame u v := Outcome.of_state_ok hv (updateAllCdpPrepRra_state 1 proc k u)
    have hpu : (u.rrd.rraDef k).pdpCnt = 1 := by rw [hdefs.rraDef]; exact hp k hk
    refine ⟨hdefs.trans hf.sameDefs, fun i hi => ?_, fun i d hd => ?_⟩
    · have hframe := (prepareRra_frame 1 proc k u).sameDefs
      rw [updateAllCdpPrepRra_ok hv, updateCdpPrep_single (by rw [hframe.rraDef]; exact hpu),
        (prepareRra_single hpu).1]
      by_cases hik : i = k
      · rw [hik, Function.update_self]
      · rw [Function.update_of_ne hik]
        exact hskip i (by omega)
    · have hstep := updateAllCdpPrepRra_same (j := i) hpu hv (by rw [hdefs.dsCnt]; exact hd)
      rw [hdefs.rraDef] at hstep
      exact (hsame i d hd).trans hstep

/-! ## Rows -/

/-- The slot `k` steps after slot `row`, counted from the one after it. -/
theorem slot_after {n row k : ℕ} (hrow : row < n) :
    Ring.slot n row (if k % n = 0 then 1 else 1 + (k % n : ℕ) - n) = (row + (k + 1)) % n := by
  have hn : 0 < n := by omega
  have hcast := Ring.slot_cast hn row (if k % n = 0 then 1 else 1 + (k % n : ℕ) - n)
  have hk : ((k % n : ℕ) : ℤ) = k % n := by push_cast; rfl
  apply Int.natCast_inj.mp
  rw [hcast]
  push_cast
  split_ifs with h0
  · have hdvd : (n : ℤ) ∣ k := by exact_mod_cast Nat.dvd_of_mod_eq_zero h0
    rw [show (row : ℤ) + (k + 1) = row + 1 + k by ring, Int.add_emod _ (k : ℤ),
      Int.emod_eq_zero_of_dvd hdvd, add_zero, Int.emod_emod_of_dvd _ dvd_rfl]
  · rw [show (row : ℤ) + (1 + (k % n : ℤ) - n) = row + 1 + k % n - n by ring, Int.sub_emod_right,
      Int.add_emod_emod, show (row : ℤ) + 1 + k = row + (k + 1) by ring]

/-- **One row of every RRA**: the current row moves on by one, and holds what was prepared. -/
theorem writeToRras_rowAt (hring : InRing s.rrd) (hi : i < s.rrd.rraCnt)
    (hone : s.rraStepCnt i = 1 ∧ s.skipUpdate i = false) (h : writeToRras s = .ok t) :
    t.rrd.curRow i = (s.rrd.curRow i + 1) % (s.rrd.rraDef i).rowCnt ∧
      ∀ k d, d < s.rrd.dsCnt → t.rrd.rowAt i k d =
        if k % (s.rrd.rraDef i).rowCnt = 0 then (s.rrd.cdp i d).primaryVal
        else s.rrd.rowAt i (k + 1) d := by
  have hrow := hring.curRow_lt i hi
  have hpos : ∀ j, j < s.rrd.rraCnt → 0 < (s.rrd.rraDef j).rowCnt :=
    fun j hj => Nat.lt_of_le_of_lt (Nat.zero_le _) (hring.curRow_lt j hj)
  obtain ⟨hw, hcur⟩ := writeToRras_ok hpos h
  have hdefs := hw.1.sameDefs
  have hnext : t.rrd.curRow i = (s.rrd.curRow i + 1) % (s.rrd.rraDef i).rowCnt := by
    rw [hcur i hi, hone.1, stepRow_eq_mod hrow]
  refine ⟨hnext, fun k d hd => ?_⟩
  have hslot : s.rrd.curRow i = Ring.slot (s.rrd.rraDef i).rowCnt (s.rrd.curRow i) 0 := by
    have hcast := Ring.slot_cast (hpos i hi) (s.rrd.curRow i) 0
    rw [add_zero, Int.emod_eq_of_lt (by omega) (by exact_mod_cast hrow)] at hcast
    exact_mod_cast hcast.symm
  have hkn : k % (s.rrd.rraDef i).rowCnt < (s.rrd.rraDef i).rowCnt := Nat.mod_lt _ (hpos i hi)
  have hcell := cell_written hd hi hpos hone.2 hslot h
    (M := if k % (s.rrd.rraDef i).rowCnt = 0 then 1
      else 1 + (k % (s.rrd.rraDef i).rowCnt : ℕ) - (s.rrd.rraDef i).rowCnt)
    (by rw [hone.1]; split_ifs <;> omega)
    (by rw [hone.1]; split_ifs <;> omega)
  rw [slot_after hrow] at hcell
  have hindex : (t.rrd.curRow i + k) % (t.rrd.rraDef i).rowCnt =
      (s.rrd.curRow i + (k + 1)) % (s.rrd.rraDef i).rowCnt := by
    rw [hnext, hdefs.rraDef, Nat.mod_add_mod, Nat.add_assoc, Nat.add_comm 1 k]
  rw [Rrd.rowAt, hindex, Rrd.cellPos, hdefs.rraStart, hdefs.dsCnt]
  refine hcell.trans ?_
  by_cases h0 : k % (s.rrd.rraDef i).rowCnt = 0
  · simp only [h0, if_true]
    rfl
  · have hold : 1 + ((k % (s.rrd.rraDef i).rowCnt : ℕ) : ℤ) - (s.rrd.rraDef i).rowCnt ≤ 0 := by omega
    simp only [h0, if_false, if_pos hold]
    rfl

/-! ## The pass in terms of the areas before it -/

section Pass

variable {n : ℕ} {defs : ℕ → RraDef} {view : ℕ → CdpPrep} {coef : ℕ → RrdValue}

/-- The area of a prediction, as RRA `i` sees it. -/
def seenHw (defs : ℕ → RraDef) (view : ℕ → CdpPrep) (x : RrdValue) (h i : ℕ) : CdpPrep :=
  if h < i then
    predictNext (fnOf defs h) (defs h) (view h) (view (defs h).dependentRraIdx).hwSeasonal x
  else view h

/-- The deviation that a `FAILURES` RRA sees. It looks for its `SEASONAL` RRA to find out whether the
`DEVSEASONAL` RRA has been updated. -/
def seenDev (view : ℕ → CdpPrep) (coef : ℕ → RrdValue) (season dev i : ℕ) : RrdValue :=
  if i < season then if dev < i then coef dev else (view dev).hwSeasonal
  else if dev < i then (view dev).hwSeasonal else (view dev).hwLastSeasonal

/-- **The area of RRA `i` after the pass**, in terms of the areas before it. -/
def cellNext (defs : ℕ → RraDef) (view : ℕ → CdpPrep) (coef : ℕ → RrdValue) (x : RrdValue) (i : ℕ) :
    CdpPrep :=
  let rra := defs i
  let dep := rra.dependentRraIdx
  let c := view i
  match rra.cf with
  | .hwpredict | .mhwpredict => predictNext (fnOf defs i) rra c (view dep).hwSeasonal x
  | .seasonal =>
    { c with
      hwLastIntercept := c.hwSeasonal, hwIntercept := coef i,
      primaryVal := seasonalStored (fnOf defs dep) rra.seasonalGamma (defs dep).hwAlpha
        (decide (dep < i)) (seenHw defs view x dep i) c.hwSeasonal x }
  | .devseasonal =>
    { c with
      hwLastIntercept := c.hwSeasonal, hwIntercept := coef i,
      primaryVal := devStored (fnOf defs dep) rra.seasonalGamma
        (forecast (decide (dep < i)) (seenHw defs view x dep i))
        (view (defs dep).dependentRraIdx).hwSeasonal c.hwSeasonal x }
  | .devpredict => { c with primaryVal := (view dep).hwSeasonal }
  | .failures =>
    let hw := (defs dep).dependentRraIdx
    let season := (defs hw).dependentRraIdx
    let violations := pushViolation rra c.violations (violates (fnOf defs hw) rra
      (forecast (decide (hw < i)) (seenHw defs view x hw i)) (view season).hwSeasonal
      (seenDev view coef season dep i) x)
    { c with violations := violations, primaryVal := failureStored rra violations }
  | _ => { c with primaryVal := x }

theorem cellNext_hw (hfn : (hwFunctionsOf (defs i).cf).isSome = true) :
    cellNext defs view coef x i = predictNext (fnOf defs i) (defs i) (view i)
      (view (defs i).dependentRraIdx).hwSeasonal x := by
  simp only [cellNext]
  cases hcf : (defs i).cf <;> simp [hcf, hwFunctionsOf] at hfn ⊢

/-- A seasonal array moves on by one entry. -/
theorem cellNext_seasonal (hcf : (defs i).cf.isSeasonal = true) :
    (cellNext defs view coef x i).hwLastSeasonal = (view i).hwSeasonal ∧
      (cellNext defs view coef x i).hwSeasonal = coef i := by
  simp only [cellNext]
  cases h : (defs i).cf <;> simp [h, Cf.isSeasonal] at hcf ⊢

/-- In the middle of the pass, the RRAs below `k` have been updated. -/
def Halfway (defs : ℕ → RraDef) (view : ℕ → CdpPrep) (coef : ℕ → RrdValue) (x : RrdValue) (n k : ℕ)
    (now : ℕ → CdpPrep) : Prop :=
  ∀ i, i < n → now i = if i < k then cellNext defs view coef x i else view i

variable {k : ℕ} {now : ℕ → CdpPrep}

theorem Halfway.seen (h : Halfway defs view coef x n k now) {j : ℕ} (hj : j < n)
    (hcf : (defs j).cf.isSeasonal = true) : seen now j k = (view j).hwSeasonal := by
  rw [Rrdtool.seen, h j hj]
  split_ifs
  · exact (cellNext_seasonal hcf).1
  · rfl

theorem Halfway.seenHw (h : Halfway defs view coef x n k now) {j : ℕ} (hj : j < n)
    (hfn : (hwFunctionsOf (defs j).cf).isSome = true) : now j = seenHw defs view x j k := by
  rw [Rrdtool.seenHw, h j hj]
  split_ifs
  · exact cellNext_hw hfn
  · rfl

/-- `update_failures` asks the other way round. -/
theorem Halfway.seen_flip (h : Halfway defs view coef x n k now) {j : ℕ} (hj : j < n)
    (hcf : (defs j).cf.isSeasonal = true) (hjk : j ≠ k) :
    (if k < j then (now j).hwSeasonal else (now j).hwLastSeasonal) = (view j).hwSeasonal := by
  rw [← h.seen hj hcf, Rrdtool.seen]
  split_ifs
  · omega
  · rfl
  · rfl
  · omega

theorem Halfway.seenDev (h : Halfway defs view coef x n k now) {season dev : ℕ} (hdev : dev < n)
    (hcf : (defs dev).cf.isSeasonal = true) :
    (if k < season then (now dev).hwSeasonal else (now dev).hwLastSeasonal) =
      seenDev view coef season dev k := by
  rw [Rrdtool.seenDev, h dev hdev]
  split_ifs
  · exact (cellNext_seasonal hcf).2
  · rfl
  · exact (cellNext_seasonal hcf).1
  · rfl

/-- **One RRA in the middle of the pass.** -/
theorem Halfway.stepCell (hset : HwSet n defs) (hk : k < n) (h : Halfway defs view coef x n k now) :
    stepCell defs now (coef k) x k = cellNext defs view coef x k := by
  have hself : now k = view k := by rw [h k hk, if_neg (Nat.lt_irrefl k)]
  have hdep := hset.dep_lt k hk
  simp only [Rrdtool.stepCell, cellNext, hself]
  cases hcf : (defs k).cf with
  | hwpredict =>
    have hseason := hset.season hk (by rw [hcf]; rfl)
    simp only [h.seen hdep (by rw [hseason.1]; rfl)]
  | mhwpredict =>
    have hseason := hset.season hk (by rw [hcf]; rfl)
    simp only [h.seen hdep (by rw [hseason.1]; rfl)]
  | seasonal => simp only [h.seenHw hdep (hset.hw_of_seasonal hk hcf).1]
  | devseasonal =>
    have hhw := hset.hw_of_dev hk hcf
    have hseason := hset.season hdep hhw
    simp only [h.seenHw hdep hhw, h.seen (hset.dep_lt _ hdep) (by rw [hseason.1]; rfl)]
  | devpredict => simp only [h.seen hdep (by rw [hset.dev hk (.inl hcf)]; rfl)]
  | failures =>
    have hdev := hset.dev hk (.inr hcf)
    have hhw := hset.hw_of_dev hdep hdev
    have hlt := hset.dep_lt _ hdep
    have hseason := hset.season hlt hhw
    have hhk : ¬k < (defs (defs k).dependentRraIdx).dependentRraIdx ↔
        (defs (defs k).dependentRraIdx).dependentRraIdx < k := by
      have := ne_of_hw (j := k) hhw (by rw [hcf]; rfl)
      omega
    have hsk : (defs (defs (defs k).dependentRraIdx).dependentRraIdx).dependentRraIdx ≠ k :=
      ne_of_cf (by rw [hseason.1, hcf]; decide)
    simp only [h.seenHw hlt hhw, h.seen_flip (hset.dep_lt _ hlt) (by rw [hseason.1]; rfl) hsk, hhk,
      h.seenDev hdep (by rw [hdev]; rfl)]
  | average | minimum | maximum | last => rfl

/-- **The whole pass.** -/
theorem hwPass_eq (hset : HwSet n defs) (hi : i < n) :
    hwPass defs coef x n view i = cellNext defs view coef x i := by
  have hinv : Halfway defs view coef x n n (hwPass defs coef x n view) := by
    refine forLoop_invariant (fun k now => Halfway defs view coef x n k now) (fun i _ => rfl) ?_
    intro k now hk hnow i hi
    by_cases hik : i = k
    · subst hik
      rw [Function.update_self, if_pos (Nat.lt_succ_self i)]
      exact hnow.stepCell hset hk
    · have hiff : i < k + 1 ↔ i < k := by omega
      rw [Function.update_of_ne hik, hnow i hi]
      simp only [hiff]
  rw [hinv i hi, if_pos hi]

end Pass

end Rrdtool
