import Rrdtool.Format
import Mathlib.Algebra.Order.Floor.Ring

/-!
# Holt-Winters aberrant behaviour detection

`rrd_hw_math.c`, `rrd_hw_update.c` and the parts of `rrd_hw.c` that an update calls. Every
function works on the preparation areas of one RRA and one DS; which of its partners has
already been updated in the current pass is read off the order of the RRA indices.

The smoother keeps its moving window in a queue per DS. A queue of capacity
`2 * offset + 1` never holds more than that many values here, so it is a list.
-/

namespace Rrdtool

open Loop

/-! ## Additive and multiplicative models -/

/-- `hw_functions_t`. -/
structure HwFunctions : Type where
  /-- `predict` -/
  predict : RrdValue → RrdValue → ℕ → RrdValue → RrdValue
  /-- `intercept` -/
  intercept : RrdValue → RrdValue → RrdValue → CdpPrep → RrdValue
  /-- `seasonality` -/
  seasonality : RrdValue → RrdValue → RrdValue → RrdValue → RrdValue
  /-- `init_seasonality` -/
  initSeasonality : RrdValue → RrdValue → RrdValue
  /-- `identity` -/
  identity : RrdValue

/-- `hw_calculate_slope`. -/
def hwCalculateSlope (beta : RrdValue) (coefs : CdpPrep) : RrdValue :=
  beta * (coefs.hwIntercept - coefs.hwLastIntercept) + (.num 1 - beta) * coefs.hwSlope

/-- `hw_calculate_seasonal_deviation`. -/
def hwCalculateSeasonalDeviation (gamma prediction observed last : RrdValue) : RrdValue :=
  gamma * (prediction - observed).fabs + (.num 1 - gamma) * last

/-- `hw_init_seasonal_deviation`. -/
def hwInitSeasonalDeviation (prediction observed : RrdValue) : RrdValue :=
  (prediction - observed).fabs

/-- `hw_additive_init_seasonality`. -/
def hwAdditiveInitSeasonality (seasonalCoef intercept : RrdValue) : RrdValue :=
  seasonalCoef - intercept

/-- `hw_multiplicative_init_seasonality`. -/
def hwMultiplicativeInitSeasonality (seasonalCoef intercept : RrdValue) : RrdValue :=
  if intercept.le (.num 0) then dnan else seasonalCoef / intercept

/-- `hw_additive_functions`. -/
def hwAdditiveFunctions : HwFunctions where
  predict intercept slope nullCount seasonalCoef :=
    intercept + slope * Dbl.ofNat nullCount + seasonalCoef
  intercept alpha observed seasonalCoef coefs :=
    alpha * (observed - seasonalCoef)
      + (.num 1 - alpha) * (coefs.hwIntercept + coefs.hwSlope * Dbl.ofNat coefs.nullCount)
  seasonality gamma observed intercept seasonalCoef :=
    gamma * (observed - intercept) + (.num 1 - gamma) * seasonalCoef
  initSeasonality := hwAdditiveInitSeasonality
  identity := .num 0

/-- `hw_multiplicative_functions`. -/
def hwMultiplicativeFunctions : HwFunctions where
  predict intercept slope nullCount seasonalCoef :=
    (intercept + slope * Dbl.ofNat nullCount) * seasonalCoef
  intercept alpha observed seasonalCoef coefs :=
    if seasonalCoef.le (.num 0) then dnan
    else alpha * (observed / seasonalCoef)
      + (.num 1 - alpha) * (coefs.hwIntercept + coefs.hwSlope * Dbl.ofNat coefs.nullCount)
  seasonality gamma observed intercept seasonalCoef :=
    if intercept.le (.num 0) then dnan
    else gamma * (observed / intercept) + (.num 1 - gamma) * seasonalCoef
  initSeasonality := hwMultiplicativeInitSeasonality
  identity := .num 1

/-! ## Updating one preparation area -/

/-- `CDP_primary_val` or `CDP_secondary_val`, as a `CDP_scratch_idx`. -/
inductive ScratchIdx : Type where
  | primary | secondary
  deriving DecidableEq

/-- `scratch[CDP_scratch_idx].u_val`. -/
def CdpPrep.scratch (c : CdpPrep) : ScratchIdx → RrdValue
  | .primary => c.primaryVal
  | .secondary => c.secondaryVal

/-- `scratch[CDP_scratch_idx].u_val = v`. -/
def CdpPrep.setScratch (c : CdpPrep) : ScratchIdx → RrdValue → CdpPrep
  | .primary, v => { c with primaryVal := v }
  | .secondary, v => { c with secondaryVal := v }

/-- Store into one preparation area. -/
def Rrd.setCdp (rrd : Rrd) (idx : ℕ) (c : CdpPrep) : Rrd :=
  { rrd with cdpPrep := Function.update rrd.cdpPrep idx c }

/-- `init_slope_intercept`. -/
def initSlopeIntercept (coefs : CdpPrep) (sc : ScratchIdx) : CdpPrep :=
  { coefs with
    hwIntercept := coefs.scratch sc, hwLastIntercept := coefs.scratch sc,
    hwSlope := .num 0, hwLastSlope := .num 0, nullCount := 1, lastNullCount := 1 }

/-- `update_hwpredict`. -/
def updateHwpredict (rrd : Rrd) (rraIdx dsIdx : ℕ) (sc : ScratchIdx) (fn : HwFunctions) : Rrd :=
  let cdpIdx := rrd.cdpIdx rraIdx dsIdx
  let rra := rrd.rraDef rraIdx
  let old := rrd.cdpPrep cdpIdx
  let coefs := { old with
    hwLastIntercept := old.hwIntercept, hwLastSlope := old.hwSlope,
    lastNullCount := old.nullCount }
  let rrd := rrd.setCdp cdpIdx coefs
  let seasonal := rrd.cdpPrep (rrd.cdpIdx rra.dependentRraIdx dsIdx)
  let seasonalCoef :=
    if rra.dependentRraIdx < rraIdx then seasonal.hwLastSeasonal else seasonal.hwSeasonal
  if coefs.hwIntercept.isnan || coefs.hwSlope.isnan || seasonalCoef.isnan then
    -- bootstrap: the first known observation becomes the intercept
    let coefs :=
      if coefs.hwIntercept.isnan && !(coefs.scratch sc).isnan then initSlopeIntercept coefs sc
      else coefs
    rrd.setCdp cdpIdx (coefs.setScratch sc dnan)
  else
    let prediction := fn.predict coefs.hwIntercept coefs.hwSlope coefs.nullCount seasonalCoef
    let coefs :=
      if (coefs.scratch sc).isnan then { coefs with nullCount := coefs.nullCount + 1 }
      else
        let coefs := { coefs with
          hwIntercept := fn.intercept rra.hwAlpha (coefs.scratch sc) seasonalCoef coefs }
        { coefs with hwSlope := hwCalculateSlope rra.hwBeta coefs, nullCount := 1 }
    rrd.setCdp cdpIdx (coefs.setScratch sc prediction)

/-- `update_seasonal`. -/
def updateSeasonal (rrd : Rrd) (rraIdx dsIdx : ℕ) (sc : ScratchIdx) (seasonalCoef : ℕ → RrdValue)
    (fn : HwFunctions) : Rrd :=
  let cdpIdx := rrd.cdpIdx rraIdx dsIdx
  let rra := rrd.rraDef rraIdx
  let hwRra := rrd.rraDef rra.dependentRraIdx
  let old := rrd.cdpPrep cdpIdx
  let seasonal := old.hwSeasonal
  let cdp := { old with hwLastIntercept := seasonal, hwIntercept := seasonalCoef dsIdx }
  let rrd := rrd.setCdp cdpIdx cdp
  let coefs := rrd.cdpPrep (rrd.cdpIdx rra.dependentRraIdx dsIdx)
  let observed := cdp.scratch sc
  let stored :=
    if observed.isnan then seasonal
    else if rra.dependentRraIdx < rraIdx then
      -- the HWPREDICT array was updated before this one
      if coefs.hwLastIntercept.isnan || coefs.hwLastSlope.isnan then dnan
      else if seasonal.isnan then fn.initSeasonality observed coefs.hwLastIntercept
      else fn.seasonality rra.seasonalGamma observed coefs.hwIntercept seasonal
    else
      -- this array comes first, so the new intercept is computed here
      if coefs.hwIntercept.isnan || coefs.hwSlope.isnan then fn.identity
      else if seasonal.isnan then fn.initSeasonality observed coefs.hwIntercept
      else fn.seasonality rra.seasonalGamma observed
        (fn.intercept hwRra.hwAlpha observed seasonal coefs) seasonal
  rrd.setCdp cdpIdx (cdp.setScratch sc stored)

/-- `update_devpredict`. -/
def updateDevpredict (rrd : Rrd) (rraIdx dsIdx : ℕ) (sc : ScratchIdx) : Rrd :=
  let cdpIdx := rrd.cdpIdx rraIdx dsIdx
  let dep := (rrd.rraDef rraIdx).dependentRraIdx
  let seasonal := rrd.cdpPrep (rrd.cdpIdx dep dsIdx)
  rrd.setCdp cdpIdx ((rrd.cdpPrep cdpIdx).setScratch sc
    (if dep < rraIdx then seasonal.hwLastSeasonal else seasonal.hwSeasonal))

/-- `update_devseasonal`. -/
def updateDevseasonal (rrd : Rrd) (rraIdx dsIdx : ℕ) (sc : ScratchIdx)
    (seasonalDev : ℕ → RrdValue) (fn : HwFunctions) : Rrd :=
  let cdpIdx := rrd.cdpIdx rraIdx dsIdx
  let rra := rrd.rraDef rraIdx
  let hwRraIdx := rra.dependentRraIdx
  let old := rrd.cdpPrep cdpIdx
  let cdp := { old with hwLastIntercept := old.hwSeasonal, hwIntercept := seasonalDev dsIdx }
  let rrd := rrd.setCdp cdpIdx cdp
  let coefs := rrd.cdpPrep (rrd.cdpIdx hwRraIdx dsIdx)
  let seasonalRraIdx := (rrd.rraDef hwRraIdx).dependentRraIdx
  let seasonal := rrd.cdpPrep (rrd.cdpIdx seasonalRraIdx dsIdx)
  let seasonalCoef :=
    if seasonalRraIdx < rraIdx then seasonal.hwLastSeasonal else seasonal.hwSeasonal
  let intercept := if hwRraIdx < rraIdx then coefs.hwLastIntercept else coefs.hwIntercept
  let slope := if hwRraIdx < rraIdx then coefs.hwLastSlope else coefs.hwSlope
  let nullCount := if hwRraIdx < rraIdx then coefs.lastNullCount else coefs.nullCount
  let stored :=
    if intercept.isnan || slope.isnan || seasonalCoef.isnan then dnan
    else
      let prediction := fn.predict intercept slope nullCount seasonalCoef
      let observed := cdp.scratch sc
      if observed.isnan then cdp.hwLastSeasonal
      else if cdp.hwLastSeasonal.isnan then hwInitSeasonalDeviation prediction observed
      else hwCalculateSeasonalDeviation rra.seasonalGamma prediction observed cdp.hwLastSeasonal
  rrd.setCdp cdpIdx (cdp.setScratch sc stored)

/-- `hw_is_violation`. -/
def hwIsViolation (observed prediction deviation deltaPos deltaNeg : RrdValue) : Bool :=
  (prediction + deltaPos * deviation).lt observed
    || observed.lt (prediction - deltaNeg * deviation)

/-- `update_failures`. -/
def updateFailures (rrd : Rrd) (rraIdx dsIdx : ℕ) (sc : ScratchIdx) (fn : HwFunctions) : Rrd :=
  let cdpIdx := rrd.cdpIdx rraIdx dsIdx
  let rra := rrd.rraDef rraIdx
  let devRraIdx := rra.dependentRraIdx
  let hwRraIdx := (rrd.rraDef devRraIdx).dependentRraIdx
  let seasonalRraIdx := (rrd.rraDef hwRraIdx).dependentRraIdx
  let cdp := rrd.cdpPrep cdpIdx
  let dev := rrd.cdpPrep (rrd.cdpIdx devRraIdx dsIdx)
  -- both tests below compare with the SEASONAL array, as the source does
  let deviation := if rraIdx < seasonalRraIdx then dev.hwSeasonal else dev.hwLastSeasonal
  let violation :=
    if deviation.isnan then false
    else
      let seasonal := rrd.cdpPrep (rrd.cdpIdx seasonalRraIdx dsIdx)
      let seasonalCoef :=
        if rraIdx < seasonalRraIdx then seasonal.hwSeasonal else seasonal.hwLastSeasonal
      let hw := rrd.cdpPrep (rrd.cdpIdx hwRraIdx dsIdx)
      let prediction :=
        if rraIdx < hwRraIdx then
          fn.predict hw.hwIntercept hw.hwSlope hw.nullCount seasonalCoef
        else fn.predict hw.hwLastIntercept hw.hwLastSlope hw.lastNullCount seasonalCoef
      if (cdp.scratch sc).isnan then true
      else hwIsViolation (cdp.scratch sc) prediction deviation rra.deltaPos rra.deltaNeg
  let violations : ℕ → Bool := fun i =>
    if i = 0 then violation
    else if i < rra.windowLen then cdp.violations (i - 1) else cdp.violations i
  -- the new violation counts once, the shifted ones inside the window once each
  let violationCnt := violation.toNat +
    forLoop (rra.windowLen - 1) (fun i cnt => cnt + (violations (i + 1)).toNat) 0
  rrd.setCdp cdpIdx ({ cdp with violations := violations }.setScratch sc
    (if violationCnt < rra.failureThreshold then .num 0 else .num 1))

/-- The model an RRA of this CF selects; `none` when the dependency is not a prediction. -/
def hwFunctionsOf : Cf → Option HwFunctions
  | .hwpredict => some hwAdditiveFunctions
  | .mhwpredict => some hwMultiplicativeFunctions
  | _ => none

/-- `update_aberrant_CF`; the return value is ignored by its caller. -/
def updateAberrantCF (rrd : Rrd) (pdpVal : RrdValue) (rraIdx dsIdx : ℕ) (sc : ScratchIdx)
    (seasonalCoef : ℕ → RrdValue) : Rrd :=
  let cdpIdx := rrd.cdpIdx rraIdx dsIdx
  let rrd := rrd.setCdp cdpIdx ((rrd.cdpPrep cdpIdx).setScratch sc pdpVal)
  let dep := (rrd.rraDef rraIdx).dependentRraIdx
  match (rrd.rraDef rraIdx).cf with
  | .hwpredict => updateHwpredict rrd rraIdx dsIdx sc hwAdditiveFunctions
  | .mhwpredict => updateHwpredict rrd rraIdx dsIdx sc hwMultiplicativeFunctions
  | .devpredict => updateDevpredict rrd rraIdx dsIdx sc
  | .seasonal =>
    match hwFunctionsOf (rrd.rraDef dep).cf with
    | some fn => updateSeasonal rrd rraIdx dsIdx sc seasonalCoef fn
    | none => rrd
  | .devseasonal =>
    match hwFunctionsOf (rrd.rraDef dep).cf with
    | some fn => updateDevseasonal rrd rraIdx dsIdx sc seasonalCoef fn
    | none => rrd
  | .failures =>
    match hwFunctionsOf (rrd.rraDef (rrd.rraDef dep).dependentRraIdx).cf with
    | some fn => updateFailures rrd rraIdx dsIdx sc fn
    | none => rrd
  | _ => rrd

/-- `erase_violations`. -/
def eraseViolations (rra : RraDef) (c : CdpPrep) : CdpPrep :=
  if rra.cf = .failures then
    { c with violations := fun i => if i < rra.windowLen then false else c.violations i }
  else c

/-! ## The smoother -/

/-- `MyMod`. -/
def myMod (val : ℤ) (mod : ℕ) : ℕ :=
  if val < 0 then mod - val.natAbs % mod else val.toNat % mod

/-- The local arrays of `apply_smoother`. -/
structure Smoother : Type where
  /-- `rrd_values` -/
  rrdValues : ℕ → RrdValue
  /-- `buffers` -/
  buffers : ℕ → List RrdValue
  /-- `working_average` -/
  workingAverage : ℕ → RrdValue
  /-- `baseline` -/
  baseline : ℕ → RrdValue

/-- Half the width of the smoothing window. -/
def smootherOffset (rrd : Rrd) (rraIdx : ℕ) : ℕ :=
  let rowCount := (rrd.rraDef rraIdx).rowCnt
  let window := if 4 ≤ rrd.version then (rrd.rraDef rraIdx).smoothingWindow else .num (5 / 100)
  ((window / .num 2 * Dbl.ofNat rowCount).floor.toInt 0).toNat

/-- Add the value of row `k` to the window of DS `j`. -/
def Smoother.push (m : Smoother) (rowLength k j : ℕ) : Smoother :=
  let v := m.rrdValues (k * rowLength + j)
  { m with
    buffers := Function.update m.buffers j (m.buffers j ++ [v]),
    workingAverage := Function.update m.workingAverage j (m.workingAverage j + v) }

/-- Store the mean of the window of DS `j` into row `k` and drop the oldest value. -/
def Smoother.emit (m : Smoother) (offset rowLength k j : ℕ) : Smoother :=
  let mean := m.workingAverage j / Dbl.ofNat (2 * offset + 1)
  { rrdValues := Function.update m.rrdValues (k * rowLength + j) mean,
    baseline := Function.update m.baseline j (m.baseline j + mean),
    workingAverage := Function.update m.workingAverage j
      (m.workingAverage j - (m.buffers j).headD dnan),
    buffers := Function.update m.buffers j (m.buffers j).tail }

/-- `apply_smoother` on the values of one RRA: the sums of the first `2 * offset` terms, the
moving averages, and the mean of each DS. -/
def smootherAverages (offset rowCount rowLength : ℕ) (values : ℕ → RrdValue) : Smoother :=
  let start : Smoother := ⟨values, fun _ => [], fun _ => .num 0, fun _ => .num 0⟩
  let filled := forLoop (2 * offset) (fun i m =>
    forLoop rowLength (fun j m => m.push rowLength (myMod (i - offset) rowCount) j) m) start
  let averaged := forLoop rowCount (fun i m =>
    forLoop rowLength (fun j m =>
      (m.push rowLength (myMod (i + offset) rowCount) j).emit offset rowLength
        (myMod i rowCount) j) m) filled
  { averaged with
    baseline := fun j =>
      if j < rowLength then averaged.baseline j / Dbl.ofNat rowCount else averaged.baseline j }

/-- The renormalisation of a `SEASONAL` RRA: its values lose the baseline, the intercept of
the prediction it depends on gains it. -/
def smootherRenormalise (rrd : Rrd) (rraIdx : ℕ) (m : Smoother)
    (init : RrdValue → RrdValue → RrdValue) : Rrd × (ℕ → RrdValue) :=
  let rowLength := rrd.dsCnt
  let rowCount := (rrd.rraDef rraIdx).rowCnt
  let dep := (rrd.rraDef rraIdx).dependentRraIdx
  let vals := forLoop rowLength (fun j vals =>
    forLoop rowCount (fun i vals =>
      Function.update vals (i * rowLength + j) (init (vals (i * rowLength + j)) (m.baseline j)))
      vals) m.rrdValues
  let rrd := forLoop rowLength (fun j (rrd : Rrd) =>
    let c := rrd.cdpPrep (rrd.cdpIdx dep j)
    rrd.setCdp (rrd.cdpIdx dep j) { c with hwIntercept := c.hwIntercept + m.baseline j }) rrd
  (rrd, vals)

/-- Write the values of RRA `rraIdx` back as a single block. -/
def Rrd.writeBlock (rrd : Rrd) (rraIdx : ℕ) (vals : ℕ → RrdValue) : Rrd :=
  let start := rrd.rraStart rraIdx
  let len := (rrd.rraDef rraIdx).rowCnt * rrd.dsCnt
  { rrd with values := fun p =>
      if start ≤ p ∧ p < start + len then vals (p - start) else rrd.values p }

/-- `apply_smoother`; it fails on a `SEASONAL` RRA that depends on no prediction. -/
def applySmoother (rrd : Rrd) (rraIdx : ℕ) : Outcome Unit Rrd :=
  let offset := smootherOffset rrd rraIdx
  let rra := rrd.rraDef rraIdx
  let start := rrd.rraStart rraIdx
  let vals := fun p => rrd.values (start + p)
  if offset = 0 then .ok rrd
  else if (List.range (rra.rowCnt * rrd.dsCnt)).any (fun p => (vals p).isnan) then .ok rrd
  else
    let m := smootherAverages offset rra.rowCnt rrd.dsCnt vals
    if rra.cf = .seasonal then
      match hwFunctionsOf (rrd.rraDef rra.dependentRraIdx).cf with
      | some fn =>
        let r := smootherRenormalise rrd rraIdx m fn.initSeasonality
        .ok (r.1.writeBlock rraIdx r.2)
      | none => .fail () rrd
    else .ok (rrd.writeBlock rraIdx m.rrdValues)

/-- `smooth_all_rras`; its caller ignores the status. -/
def smoothAllRras (rrd : Rrd) : Rrd :=
  (forLoopE rrd.rraCnt (fun i (r : Rrd) =>
    if (r.rraDef i).cf.isSeasonal then applySmoother r i else .ok r) rrd).state

end Rrdtool
