import Rrdtool.HwPass
import Mathlib.Logic.Equiv.Defs

/-!
# Holt-Winters arrays in another order

Two RRDs with the same Holt-Winters arrays in different orders, their dependent indices renumbered.
`Renumbered` relates them: the arrays keep the same coefficients, and their rows are the same from
the current one on, wherever that is in the ring.

A single step keeps this relation unless one of two things happens. A `FAILURES` RRA looks for the
`SEASONAL` RRA where it should look for the `DEVSEASONAL` RRA, and gets another deviation if it
stands between the two. And a prediction that starts from a known value hands it to the arrays
behind it in the same step, but not to those before it.

* `singleStep_renumbered` — a step in which neither happens differently in the two RRDs.
-/

namespace Rrdtool

open Loop

/-! ## A prediction that starts -/

/-- A known value meets a prediction without an intercept or without a slope. -/
def Starts (c : CdpPrep) (x : RrdValue) : Prop :=
  x.isnan = false ∧ (c.hwIntercept.isnan = true ∨ c.hwSlope.isnan = true)

/-- The start leaves a first seasonal coefficient of 0 or 1, whichever array comes first: there is
no intercept and no coefficient yet, and the value of a multiplicative prediction is positive. -/
def StartsAlike (cf : Cf) (c : CdpPrep) (coef x : RrdValue) : Prop :=
  c.hwIntercept.isnan = true ∧ coef.isnan = true ∧ ∃ q, x = .num q ∧ (cf = .mhwpredict → 0 < q)

section Prediction

variable {defs : ℕ → RraDef} {h : ℕ} {c c' : CdpPrep} {coef x : RrdValue}

/-- The two models. -/
theorem fnOf_cases (hfn : (hwFunctionsOf (defs h).cf).isSome = true) :
    ((defs h).cf = .hwpredict ∧ fnOf defs h = hwAdditiveFunctions) ∨
      ((defs h).cf = .mhwpredict ∧ fnOf defs h = hwMultiplicativeFunctions) := by
  rw [fnOf]
  cases hcf : (defs h).cf <;> simp [hcf, hwFunctionsOf] at hfn ⊢

/-- The new intercept depends on the coefficients that a prediction keeps. -/
theorem fnOf_intercept {b : CdpPrep} (hfn : (hwFunctionsOf (defs h).cf).isSome = true)
    (hi : b.hwIntercept = c.hwIntercept) (hs : b.hwSlope = c.hwSlope)
    (hn : b.nullCount = c.nullCount) (alpha x coef : RrdValue) :
    (fnOf defs h).intercept alpha x coef b = (fnOf defs h).intercept alpha x coef c := by
  obtain ⟨-, hfn⟩ | ⟨-, hfn⟩ := fnOf_cases hfn
  · simp only [hfn, hwAdditiveFunctions, hi, hs, hn]
  · simp only [hfn, hwMultiplicativeFunctions, hi, hs, hn]

/-- Without a seasonal coefficient there is no prediction. -/
theorem fnOf_predict_nan (hfn : (hwFunctionsOf (defs h).cf).isSome = true) (f : Forecast) :
    f.value (fnOf defs h) .nan = .nan := by
  obtain ⟨-, hfn⟩ | ⟨-, hfn⟩ := fnOf_cases hfn
  · simp [Forecast.value, hfn, hwAdditiveFunctions]
  · simp [Forecast.value, hfn, hwMultiplicativeFunctions]

/-- What a start leaves in the first seasonal coefficient. -/
theorem fnOf_init {q : ℚ} (hfn : (hwFunctionsOf (defs h).cf).isSome = true)
    (hq : (defs h).cf = .mhwpredict → 0 < q) :
    (fnOf defs h).initSeasonality (.num q) (.num q) = (fnOf defs h).identity := by
  obtain ⟨-, hfn⟩ | ⟨hcf, hfn⟩ := fnOf_cases hfn
  · simp [hfn, hwAdditiveFunctions, hwAdditiveInitSeasonality]
  · have hpos := hq hcf
    have hle : ¬q ≤ 0 := not_le.mpr hpos
    simp [hfn, hwMultiplicativeFunctions, hwMultiplicativeInitSeasonality, hle,
      Dbl.num_div hpos.ne', hpos.ne']

/-- A prediction keeps the coefficients of this step, unless it starts. -/
theorem forecast_predictNext (fn : HwFunctions) (rra : RraDef) (coef : RrdValue)
    (hno : ¬(c.hwIntercept.isnan = true ∧ x.isnan = false)) :
    forecast true (predictNext fn rra c coef x) = forecast false c := by
  simp only [forecast, predictNext, if_true, Bool.false_eq_true, if_false, Bool.and_eq_true,
    Bool.not_eq_true', hno]
  split_ifs <;> rfl

/-- A prediction that starts puts the value into both intercepts. -/
theorem predictNext_start (fn : HwFunctions) (rra : RraDef) (coef : RrdValue) (hc : c.hwIntercept.isnan = true)
    (hx : x.isnan = false) :
    (predictNext fn rra c coef x).hwLastIntercept = x ∧
      (predictNext fn rra c coef x).hwLastSlope = .num 0 := by
  simp [predictNext, hc, hx, initSlopeIntercept, CdpPrep.scratch]

/-- **A `SEASONAL` RRA stores the same** behind its prediction and before it. -/
theorem seasonalStored_order (hfn : (hwFunctionsOf (defs h).cf).isSome = true) (gamma : RrdValue)
    (hsafe : ¬Starts c x ∨ StartsAlike (defs h).cf c coef x) :
    seasonalStored (fnOf defs h) gamma (defs h).hwAlpha true
        (predictNext (fnOf defs h) (defs h) c coef x) coef x =
      seasonalStored (fnOf defs h) gamma (defs h).hwAlpha false c coef x := by
  cases hx : x.isnan with
  | true => simp [seasonalStored, hx]
  | false =>
    obtain hno | ⟨hc, hcoef, q, rfl, hq⟩ := hsafe
    · -- the prediction goes on: it has kept the old coefficients and found the same new intercept
      have hi : c.hwIntercept.isnan = false := by
        by_contra hi
        exact hno ⟨hx, .inl (by simpa using hi)⟩
      have hs : c.hwSlope.isnan = false := by
        by_contra hs
        exact hno ⟨hx, .inr (by simpa using hs)⟩
      cases hcoef : coef.isnan with
      | true => simp [seasonalStored, predictNext, hx, hi, hs, hcoef]
      | false =>
        have hnew := fnOf_intercept hfn (c := c) (b := { c with
          hwLastIntercept := c.hwIntercept, hwLastSlope := c.hwSlope, lastNullCount := c.nullCount,
          primaryVal := x }) rfl rfl rfl (defs h).hwAlpha x coef
        simp [seasonalStored, predictNext, hx, hi, hs, hcoef, hnew]
    · obtain ⟨hlast, hslope⟩ := predictNext_start (fnOf defs h) (defs h) coef hc hx
      simp [seasonalStored, hlast, hslope, hc, hcoef, fnOf_init hfn hq]

/-- **A `DEVSEASONAL` RRA stores the same** behind the prediction and before it. -/
theorem devStored_order (fn : HwFunctions) (rra : RraDef) (gamma dev : RrdValue)
    (hsafe : ¬Starts c x ∨ coef.isnan = true) :
    devStored fn gamma (forecast true (predictNext fn rra c coef x)) coef dev x =
      devStored fn gamma (forecast false c) coef dev x := by
  obtain hno | hcoef := hsafe
  · rw [forecast_predictNext fn rra coef fun hb => hno ⟨hb.2, .inl hb.1⟩]
  · simp [devStored, hcoef]

/-- **A `FAILURES` RRA sees the same violation** behind the prediction and before it. -/
theorem violates_order (hfn : (hwFunctionsOf (defs h).cf).isSome = true) (rra rra' : RraDef)
    (dev : RrdValue) (hsafe : ¬Starts c x ∨ coef.isnan = true) :
    violates (fnOf defs h) rra (forecast true (predictNext (fnOf defs h) rra' c coef x)) coef dev x =
      violates (fnOf defs h) rra (forecast false c) coef dev x := by
  obtain hno | hcoef := hsafe
  · rw [forecast_predictNext (fnOf defs h) rra' coef fun hb => hno ⟨hb.2, .inl hb.1⟩]
  · obtain rfl := Dbl.isnan_iff.mp hcoef
    simp only [violates, fnOf_predict_nan hfn]

/-- A prediction goes the same way from the same coefficients. -/
theorem predictNext_congr (hfn : (hwFunctionsOf (defs h).cf).isSome = true) {rra rra' : RraDef}
    (halpha : rra'.hwAlpha = rra.hwAlpha) (hbeta : rra'.hwBeta = rra.hwBeta)
    (hi : c'.hwIntercept = c.hwIntercept) (hs : c'.hwSlope = c.hwSlope)
    (hn : c'.nullCount = c.nullCount) :
    let p := predictNext (fnOf defs h) rra c coef x
    let p' := predictNext (fnOf defs h) rra' c' coef x
    p'.hwIntercept = p.hwIntercept ∧ p'.hwSlope = p.hwSlope ∧ p'.nullCount = p.nullCount ∧
      p'.hwLastIntercept = p.hwLastIntercept ∧ p'.hwLastSlope = p.hwLastSlope ∧
      p'.lastNullCount = p.lastNullCount ∧ p'.primaryVal = p.primaryVal := by
  have hnew := fnOf_intercept hfn
    (c := { c with
      hwLastIntercept := c.hwIntercept, hwLastSlope := c.hwSlope, lastNullCount := c.nullCount,
      primaryVal := x })
    (b := { c' with
      hwLastIntercept := c'.hwIntercept, hwLastSlope := c'.hwSlope, lastNullCount := c'.nullCount,
      primaryVal := x }) hi hs hn rra.hwAlpha x coef
  simp only [predictNext, halpha, hbeta, hnew, hwCalculateSlope, initSlopeIntercept]
  simp only [hi, hs, hn]
  split_ifs <;> exact ⟨rfl, rfl, rfl, rfl, rfl, rfl, rfl⟩

end Prediction

/-! ## Another order -/

/-- The same definitions in the order `σ`, with the dependent indices renumbered. -/
structure Renames (n : ℕ) (σ : Equiv.Perm ℕ) (defs defs' : ℕ → RraDef) : Prop where
  lt_iff : ∀ i, σ i < n ↔ i < n
  defs_eq : ∀ i, i < n →
    defs' (σ i) = { defs i with dependentRraIdx := σ (defs i).dependentRraIdx }

section Renames

variable {n : ℕ} {σ : Equiv.Perm ℕ} {defs defs' : ℕ → RraDef} {i h : ℕ}

theorem Renames.cf (hren : Renames n σ defs defs') (hi : i < n) : (defs' (σ i)).cf = (defs i).cf := by
  rw [hren.defs_eq i hi]

theorem Renames.dep (hren : Renames n σ defs defs') (hi : i < n) :
    (defs' (σ i)).dependentRraIdx = σ (defs i).dependentRraIdx := by
  rw [hren.defs_eq i hi]

theorem Renames.fnOf (hren : Renames n σ defs defs') (hi : i < n) : fnOf defs' (σ i) = fnOf defs i := by
  rw [Rrdtool.fnOf, Rrdtool.fnOf, hren.cf hi]

/-- The arrays are linked in the new order too. -/
theorem Renames.hwSet (hren : Renames n σ defs defs') (hset : HwSet n defs) : HwSet n defs' := by
  have hback : ∀ j, j < n → ∃ i, i < n ∧ σ i = j := fun j hj =>
    ⟨σ.symm j, (hren.lt_iff _).mp (by simpa using hj), σ.apply_symm_apply j⟩
  refine ⟨fun j hj => ?_, fun j hj => ?_, fun j hj => ?_⟩
  · obtain ⟨i, hi, rfl⟩ := hback j hj
    rw [hren.defs_eq i hi]
    exact hset.pdpCnt i hi
  · obtain ⟨i, hi, rfl⟩ := hback j hj
    rw [hren.dep hi]
    exact (hren.lt_iff _).mpr (hset.dep_lt i hi)
  · obtain ⟨i, hi, rfl⟩ := hback j hj
    have hdep := hset.dep_lt i hi
    have hlink := hset.linked i hi
    simp only [LinkedAt, hren.cf hi, hren.dep hi, hren.cf hdep, hren.dep hdep] at hlink ⊢
    cases hcf : (defs i).cf <;> simp only [hcf] at hlink ⊢
    · exact ⟨hlink.1, congrArg σ hlink.2⟩
    · exact ⟨hlink.1, congrArg σ hlink.2⟩
    · exact hlink
    · exact hlink
    · exact hlink
    · exact ⟨hlink.1, congrArg σ hlink.2⟩

end Renames

/-- The prediction that RRA `i` asks for its coefficients. -/
def predictionOf (defs : ℕ → RraDef) (i : ℕ) : ℕ :=
  match (defs i).cf with
  | .seasonal | .devseasonal => (defs i).dependentRraIdx
  | .failures => (defs (defs i).dependentRraIdx).dependentRraIdx
  | _ => i

/-- **A step that no start makes different**: whenever a prediction starts, it does so without
consequences for the order, or RRA `i` is on the same side of it in both orders. -/
def StepSafe (σ : Equiv.Perm ℕ) (r : Rrd) (x : ℕ → RrdValue) : Prop :=
  ∀ i d, i < r.rraCnt → d < r.dsCnt →
    let h := predictionOf r.rraDef i
    Starts (r.cdp h d) (x d) →
      StartsAlike (r.rraDef h).cf (r.cdp h d) (r.cdp (r.rraDef h).dependentRraIdx d).hwSeasonal (x d) ∨
        (h < i ↔ σ h < σ i)

/-- **Orders in which `FAILURES` RRAs see the same deviation**: in both orders the RRA is on the same
side of its `SEASONAL` and its `DEVSEASONAL` RRA, or it is on the same sides of them in both. -/
def FailuresSafe (n : ℕ) (σ : Equiv.Perm ℕ) (defs : ℕ → RraDef) : Prop :=
  ∀ i, i < n → (defs i).cf = .failures →
    let dev := (defs i).dependentRraIdx
    let season := (defs (defs dev).dependentRraIdx).dependentRraIdx
    ((i < season ↔ i < dev) ∧ (σ i < σ season ↔ σ i < σ dev)) ∨
      ((i < season ↔ σ i < σ season) ∧ (i < dev ↔ σ i < σ dev))

/-! ## The pass in another order -/

section Compare

variable {n : ℕ} {σ : Equiv.Perm ℕ} {defs defs' : ℕ → RraDef} {view view' : ℕ → CdpPrep}
  {coef coef' : ℕ → RrdValue} {x : RrdValue} {i h : ℕ}

/-- The area of a prediction before its update, or after it. -/
def hwView (updated : Bool) (defs : ℕ → RraDef) (view : ℕ → CdpPrep) (x : RrdValue) (h : ℕ) : CdpPrep :=
  if updated then
    predictNext (fnOf defs h) (defs h) (view h) (view (defs h).dependentRraIdx).hwSeasonal x
  else view h

theorem seenHw_eq : seenHw defs view x h i = hwView (decide (h < i)) defs view x h := by
  simp [seenHw, hwView]

/-- The areas of one DS in the two orders. -/
structure SameViews (n : ℕ) (σ : Equiv.Perm ℕ) (defs defs' : ℕ → RraDef) (view view' : ℕ → CdpPrep)
    (coef coef' : ℕ → RrdValue) : Prop where
  hset : HwSet n defs
  renames : Renames n σ defs defs'
  cdp : ∀ i, i < n → SameCdp (defs i).cf (view i) (view' (σ i))
  coef : ∀ i, i < n → coef' (σ i) = coef i

/-- A seasonal array has the same current entry. -/
theorem SameViews.seasonal (hv : SameViews n σ defs defs' view view' coef coef') (hi : i < n)
    (hcf : (defs i).cf.isSeasonal = true) :
    (view' (σ i)).hwSeasonal = (view i).hwSeasonal ∧
      (view' (σ i)).hwLastSeasonal = (view i).hwLastSeasonal := by
  have hsame := hv.cdp i hi
  cases h : (defs i).cf <;> simp [h, Cf.isSeasonal] at hcf <;> rw [h] at hsame
  · exact hsame
  · exact hsame

theorem SameViews.hw (hv : SameViews n σ defs defs' view view' coef coef') (hh : h < n)
    (hfn : (hwFunctionsOf (defs h).cf).isSome = true) :
    (view' (σ h)).hwIntercept = (view h).hwIntercept ∧ (view' (σ h)).hwSlope = (view h).hwSlope ∧
      (view' (σ h)).nullCount = (view h).nullCount := by
  have hsame := hv.cdp h hh
  obtain ⟨hcf, -⟩ | ⟨hcf, -⟩ := fnOf_cases hfn
  · rw [hcf] at hsame
    exact hsame
  · rw [hcf] at hsame
    exact hsame

/-- The seasonal coefficient of a prediction. -/
theorem SameViews.season (hv : SameViews n σ defs defs' view view' coef coef') (hh : h < n)
    (hfn : (hwFunctionsOf (defs h).cf).isSome = true) :
    (view' (defs' (σ h)).dependentRraIdx).hwSeasonal = (view (defs h).dependentRraIdx).hwSeasonal := by
  rw [hv.renames.dep hh]
  exact (hv.seasonal (hv.hset.dep_lt h hh) (by rw [(hv.hset.season hh hfn).1]; rfl)).1

/-- **A prediction** goes the same way in both orders. -/
theorem SameViews.predict (hv : SameViews n σ defs defs' view view' coef coef') (hh : h < n)
    (hfn : (hwFunctionsOf (defs h).cf).isSome = true) :
    let p := hwView true defs view x h
    let p' := hwView true defs' view' x (σ h)
    p'.hwIntercept = p.hwIntercept ∧ p'.hwSlope = p.hwSlope ∧ p'.nullCount = p.nullCount ∧
      p'.hwLastIntercept = p.hwLastIntercept ∧ p'.hwLastSlope = p.hwLastSlope ∧
      p'.lastNullCount = p.lastNullCount ∧ p'.primaryVal = p.primaryVal := by
  obtain ⟨hi, hs, hn⟩ := hv.hw hh hfn
  have hdef := hv.renames.defs_eq h hh
  simp only [hwView, if_true, hv.season hh hfn, hv.renames.fnOf hh]
  exact predictNext_congr hfn (by rw [hdef]) (by rw [hdef]) hi hs hn

/-- What a `SEASONAL` RRA stores does not depend on the numbering. -/
theorem SameViews.seasonalStored_eq (hv : SameViews n σ defs defs' view view' coef coef') (hh : h < n)
    (hfn : (hwFunctionsOf (defs h).cf).isSome = true) (updated : Bool) (gamma c : RrdValue) :
    seasonalStored (fnOf defs' (σ h)) gamma (defs' (σ h)).hwAlpha updated
        (hwView updated defs' view' x (σ h)) c x =
      seasonalStored (fnOf defs h) gamma (defs h).hwAlpha updated (hwView updated defs view x h) c x := by
  rw [hv.renames.fnOf hh, hv.renames.defs_eq h hh]
  cases updated with
  | true =>
    obtain ⟨hi, -, -, hli, hls, -⟩ := hv.predict (x := x) hh hfn
    simp only [seasonalStored, if_true, hi, hli, hls]
  | false =>
    obtain ⟨hi, hs, hn⟩ := hv.hw hh hfn
    simp only [seasonalStored, hwView, Bool.false_eq_true, if_false, hi, hs,
      fnOf_intercept hfn hi hs hn]

/-- The coefficients that other RRAs take from a prediction do not depend on the numbering. -/
theorem SameViews.forecast_eq (hv : SameViews n σ defs defs' view view' coef coef') (hh : h < n)
    (hfn : (hwFunctionsOf (defs h).cf).isSome = true) (updated : Bool) :
    forecast updated (hwView updated defs' view' x (σ h)) =
      forecast updated (hwView updated defs view x h) := by
  cases updated with
  | true =>
    obtain ⟨-, -, -, hli, hls, hln, -⟩ := hv.predict (x := x) hh hfn
    simp only [forecast, if_true, hli, hls, hln]
  | false =>
    obtain ⟨hi, hs, hn⟩ := hv.hw hh hfn
    simp only [forecast, hwView, Bool.false_eq_true, if_false, hi, hs, hn]

/-- What `StepSafe` says of one RRA and one DS. -/
def SafeAt (σ : Equiv.Perm ℕ) (defs : ℕ → RraDef) (view : ℕ → CdpPrep) (x : RrdValue) (i h : ℕ) : Prop :=
  Starts (view h) x →
    StartsAlike (defs h).cf (view h) (view (defs h).dependentRraIdx).hwSeasonal x ∨ (h < i ↔ σ h < σ i)

/-- The prediction is on the same side in both orders, or it does not matter. -/
theorem SafeAt.same {α : Type} {f : Bool → α} (hsafe : SafeAt σ defs view x i h)
    (hf : ¬Starts (view h) x ∨
      StartsAlike (defs h).cf (view h) (view (defs h).dependentRraIdx).hwSeasonal x →
        f true = f false) :
    f (decide (σ h < σ i)) = f (decide (h < i)) := by
  by_cases hiff : h < i ↔ σ h < σ i
  · simp only [hiff]
  · have hsame : f true = f false := by
      refine hf ?_
      by_cases hstart : Starts (view h) x
      · exact .inr ((hsafe hstart).resolve_right hiff)
      · exact .inl hstart
    cases decide (σ h < σ i) <;> cases decide (h < i)
    · rfl
    · exact hsame.symm
    · exact hsame
    · rfl

theorem SameViews.seasonal_next (hv : SameViews n σ defs defs' view view' coef coef') (hh : h < n)
    (hfn : (hwFunctionsOf (defs h).cf).isSome = true) (hsafe : SafeAt σ defs view x i h)
    (gamma : RrdValue) :
    seasonalStored (fnOf defs' (σ h)) gamma (defs' (σ h)).hwAlpha (decide (σ h < σ i))
        (seenHw defs' view' x (σ h) (σ i)) (view (defs h).dependentRraIdx).hwSeasonal x =
      seasonalStored (fnOf defs h) gamma (defs h).hwAlpha (decide (h < i)) (seenHw defs view x h i)
        (view (defs h).dependentRraIdx).hwSeasonal x := by
  rw [seenHw_eq, seenHw_eq, hv.seasonalStored_eq hh hfn]
  exact hsafe.same (f := fun b => seasonalStored (fnOf defs h) gamma (defs h).hwAlpha b
    (hwView b defs view x h) (view (defs h).dependentRraIdx).hwSeasonal x)
    fun hstart => seasonalStored_order hfn gamma hstart

theorem SameViews.dev_next (hv : SameViews n σ defs defs' view view' coef coef') (hh : h < n)
    (hfn : (hwFunctionsOf (defs h).cf).isSome = true) (hsafe : SafeAt σ defs view x i h)
    (gamma dev : RrdValue) :
    devStored (fnOf defs' (σ h)) gamma (forecast (decide (σ h < σ i)) (seenHw defs' view' x (σ h) (σ i)))
        (view (defs h).dependentRraIdx).hwSeasonal dev x =
      devStored (fnOf defs h) gamma (forecast (decide (h < i)) (seenHw defs view x h i))
        (view (defs h).dependentRraIdx).hwSeasonal dev x := by
  rw [seenHw_eq, seenHw_eq, hv.forecast_eq hh hfn, hv.renames.fnOf hh]
  exact hsafe.same (f := fun b => devStored (fnOf defs h) gamma (forecast b (hwView b defs view x h))
    (view (defs h).dependentRraIdx).hwSeasonal dev x)
    fun hstart => devStored_order (fnOf defs h) (defs h) gamma dev
      (hstart.imp_right fun halike => halike.2.1)

theorem SameViews.violates_next (hv : SameViews n σ defs defs' view view' coef coef') (hh : h < n)
    (hfn : (hwFunctionsOf (defs h).cf).isSome = true) (hsafe : SafeAt σ defs view x i h)
    (rra : RraDef) (dev : RrdValue) :
    violates (fnOf defs' (σ h)) rra
        (forecast (decide (σ h < σ i)) (seenHw defs' view' x (σ h) (σ i)))
        (view (defs h).dependentRraIdx).hwSeasonal dev x =
      violates (fnOf defs h) rra (forecast (decide (h < i)) (seenHw defs view x h i))
        (view (defs h).dependentRraIdx).hwSeasonal dev x := by
  rw [seenHw_eq, seenHw_eq, hv.forecast_eq hh hfn, hv.renames.fnOf hh]
  exact hsafe.same (f := fun b => violates (fnOf defs h) rra (forecast b (hwView b defs view x h))
    (view (defs h).dependentRraIdx).hwSeasonal dev x)
    fun hstart => violates_order hfn rra (defs h) dev (hstart.imp_right fun halike => halike.2.1)

/-- What `FailuresSafe` says of one RRA. -/
def DevSafe (σ : Equiv.Perm ℕ) (season dev i : ℕ) : Prop :=
  ((i < season ↔ i < dev) ∧ (σ i < σ season ↔ σ i < σ dev)) ∨
    ((i < season ↔ σ i < σ season) ∧ (i < dev ↔ σ i < σ dev))

/-- **The deviation that a `FAILURES` RRA sees.** -/
theorem SameViews.seenDev_eq (hv : SameViews n σ defs defs' view view' coef coef') {season dev : ℕ}
    (hdev : dev < n) (hcf : (defs dev).cf.isSeasonal = true) (hne : dev ≠ i)
    (hsafe : DevSafe σ season dev i) :
    seenDev view' coef' (σ season) (σ dev) (σ i) = seenDev view coef season dev i := by
  obtain ⟨hcur, hlast⟩ := hv.seasonal hdev hcf
  have hne' : σ dev ≠ σ i := σ.injective.ne hne
  have hflip : dev < i ↔ ¬i < dev := by omega
  have hflip' : σ dev < σ i ↔ ¬σ i < σ dev := by omega
  simp only [seenDev, hcur, hlast, hv.coef dev hdev, hflip, hflip']
  obtain ⟨hright, hright'⟩ | ⟨hseason, hdevs⟩ := hsafe
  · simp only [hright, hright']
    by_cases h1 : i < dev <;> by_cases h2 : σ i < σ dev <;> simp [h1, h2]
  · simp only [hseason, hdevs]

/-- **One RRA in the two orders**: it keeps the same coefficients, and prepares the same value. -/
theorem SameViews.cellNext_eq (hv : SameViews n σ defs defs' view view' coef coef') (hi : i < n)
    (hsafe : SafeAt σ defs view x i (predictionOf defs i))
    (hdev : (defs i).cf = .failures →
      DevSafe σ (defs (predictionOf defs i)).dependentRraIdx (defs i).dependentRraIdx i) :
    SameCdp (defs i).cf (cellNext defs view coef x i) (cellNext defs' view' coef' x (σ i)) ∧
      (cellNext defs' view' coef' x (σ i)).primaryVal = (cellNext defs view coef x i).primaryVal := by
  have hset := hv.hset
  have hdep := hset.dep_lt i hi
  have hcf' := hv.renames.cf hi
  have hdef := hv.renames.defs_eq i hi
  have hpredict : (hwFunctionsOf (defs i).cf).isSome = true →
      let p := cellNext defs view coef x i
      let p' := cellNext defs' view' coef' x (σ i)
      (p'.hwIntercept = p.hwIntercept ∧ p'.hwSlope = p.hwSlope ∧ p'.nullCount = p.nullCount) ∧
        p'.primaryVal = p.primaryVal := by
    intro hfn
    obtain ⟨h1, h2, h3, -, -, -, h4⟩ := hv.predict (x := x) hi hfn
    rw [cellNext_hw hfn, cellNext_hw (by rw [hcf']; exact hfn)]
    exact ⟨⟨h1, h2, h3⟩, h4⟩
  cases hcf : (defs i).cf with
  | hwpredict => exact hpredict (by rw [hcf]; rfl)
  | mhwpredict => exact hpredict (by rw [hcf]; rfl)
  | seasonal =>
    obtain ⟨hfn, hback⟩ := hset.hw_of_seasonal hi hcf
    obtain ⟨hcur, -⟩ := hv.seasonal hi (by rw [hcf]; rfl)
    have hpred : predictionOf defs i = (defs i).dependentRraIdx := by simp only [predictionOf, hcf]
    rw [hpred] at hsafe
    have hstored := hv.seasonal_next hdep hfn hsafe (defs i).seasonalGamma
    rw [hback] at hstored
    simp only [cellNext, hdef, hcf, hcur]
    exact ⟨⟨hv.coef i hi, rfl⟩, hstored⟩
  | devseasonal =>
    have hfn := hset.hw_of_dev hi hcf
    obtain ⟨hcur, -⟩ := hv.seasonal hi (by rw [hcf]; rfl)
    have hpred : predictionOf defs i = (defs i).dependentRraIdx := by simp only [predictionOf, hcf]
    rw [hpred] at hsafe
    have hstored := hv.dev_next hdep hfn hsafe (defs i).seasonalGamma (view i).hwSeasonal
    simp only [cellNext, hdef, hcf, hcur, hv.season hdep hfn]
    exact ⟨⟨hv.coef i hi, rfl⟩, hstored⟩
  | devpredict =>
    obtain ⟨hcur, -⟩ := hv.seasonal hdep (by rw [hset.dev hi (.inl hcf)]; rfl)
    simp only [cellNext, hdef, hcf, hcur]
    exact ⟨trivial, trivial⟩
  | failures =>
    have hdevcf := hset.dev hi (.inr hcf)
    have hfn := hset.hw_of_dev hdep hdevcf
    have hlt := hset.dep_lt _ hdep
    have hpred : predictionOf defs i = (defs (defs i).dependentRraIdx).dependentRraIdx := by
      simp only [predictionOf, hcf]
    rw [hpred] at hsafe hdev
    have hne := (hset.linked i hi).dep_ne
    have hseen := hv.seenDev_eq hdep (by rw [hdevcf]; rfl) hne (hdev hcf)
    have hsame : (view' (σ i)).violations = (view i).violations := by
      have hcdp := hv.cdp i hi
      rw [hcf] at hcdp
      exact hcdp
    have hviolates := hv.violates_next hlt hfn hsafe (defs i)
      (seenDev view coef (defs (defs (defs i).dependentRraIdx).dependentRraIdx).dependentRraIdx
        (defs i).dependentRraIdx i)
    have hpush := congrArg (pushViolation (defs i) (view i).violations) hviolates
    have hcoef := (hv.seasonal (hset.dep_lt _ hlt) (by rw [(hset.season hlt hfn).1]; rfl)).1
    simp only [cellNext, hdef, hcf, hsame, hv.renames.dep hdep, hv.renames.dep hlt, hseen, hcoef]
    exact ⟨hpush, congrArg (failureStored (defs i)) hpush⟩
  | average | minimum | maximum | last =>
    have hlink := hset.linked i hi
    simp [LinkedAt, hcf] at hlink

end Compare

/-! ## One step -/

/-- What `process_arg` does with the PDPs `x` of a single step. -/
def singleStep (proc : ℕ) (x : ℕ → RrdValue) (s : Upd) : UpdResult :=
  ((updateAllCdpPrep 1 proc { s with pdpTemp := x }).andThen (updateAberrantCdps 1)).andThen writeToRras

theorem processPdps_single {env : Env} {interval : ℚ} {s : Upd}
    (h : (calculateElapsedSteps s.rrd s.currentTime.toNat s.currentTimeUsec interval).elapsedPdpSt = 1) :
    processPdps env interval s =
      let el := calculateElapsedSteps s.rrd s.currentTime.toNat s.currentTimeUsec interval
      (processAllPdpSt env.lib interval el s).andThen fun t => singleStep el.procPdpCnt t.pdpTemp t := by
  simp only [processPdps, h, Nat.one_ne_zero, if_false, singleStep]
  cases processAllPdpSt env.lib interval
    (calculateElapsedSteps s.rrd s.currentTime.toNat s.currentTimeUsec interval) s <;> rfl

/-- An RRD of Holt-Winters arrays that can be updated. -/
structure HwRrd (r : Rrd) : Prop where
  hset : HwSet r.rraCnt r.rraDef
  openable : r.Openable
  ring : InRing r

/-- The part of a step before the rows are written. -/
theorem singleStep_pass {s : Upd} (hr : HwRrd s.rrd) (he : s.error = none) (proc : ℕ)
    (x : ℕ → RrdValue) :
    ∃ v, (updateAllCdpPrep 1 proc { s with pdpTemp := x }).andThen (updateAberrantCdps 1) = .ok v ∧
      Sound v ∧ SameDefs s.rrd v.rrd ∧ InRing v.rrd ∧ v.rrd.rowAt = s.rrd.rowAt ∧
      (∀ i, i < s.rrd.rraCnt → v.rraStepCnt i = 1 ∧ v.skipUpdate i = false) ∧
      ∃ view : ℕ → ℕ → CdpPrep,
        (∀ i d, d < s.rrd.dsCnt → SameCdp (s.rrd.rraDef i).cf (s.rrd.cdp i d) (view d i)) ∧
        ∀ i d, i < s.rrd.rraCnt → d < s.rrd.dsCnt → v.rrd.cdp i d =
          cellNext s.rrd.rraDef (view d) (fun i => s.rrd.rowAt i 2 d) (x d) i := by
  have hsound : Sound { s with pdpTemp := x } := ⟨hr.openable, he⟩
  obtain ⟨u, hu, hsu, hfu⟩ := updateAllCdpPrep_total hsound 1 proc
  obtain ⟨v, hv, hsv, hfv⟩ := updateAberrantCdps_total hsu 1
  obtain ⟨hone, hsame⟩ := updateAllCdpPrep_single (s := { s with pdpTemp := x }) hr.hset.pdpCnt hu
  have hu_same : u.rrd.rraCnt = s.rrd.rraCnt ∧ u.rrd.rraDef = s.rrd.rraDef ∧ u.rrd.dsCnt = s.rrd.dsCnt ∧
      u.rrd.rowAt = s.rrd.rowAt ∧ u.pdpTemp = x ∧ InRing u.rrd := by
    obtain ⟨_, _, _, _, _, _, _, _, rfl⟩ := hfu
    exact ⟨rfl, rfl, rfl, rfl, rfl, hr.ring.1, hr.ring.2⟩
  obtain ⟨hcnt, hdef, hds, hrows, htemp, hring⟩ := hu_same
  have hset : HwSet u.rrd.rraCnt u.rrd.rraDef := by rw [hcnt, hdef]; exact hr.hset
  have hpass : updateAberrantPass 1 .primary u = .ok v := by
    rwa [updateAberrantCdps, if_pos rfl] at hv
  have hv_same : v.rrd.rowAt = u.rrd.rowAt ∧ v.rraStepCnt = u.rraStepCnt ∧
      v.skipUpdate = u.skipUpdate ∧ InRing v.rrd := by
    obtain ⟨_, _, _, _, rfl⟩ := hfv
    exact ⟨rfl, rfl, rfl, hring.1, hring.2⟩
  obtain ⟨hrows', hsteps, hskip, hring'⟩ := hv_same
  refine ⟨v, by rw [hu, Outcome.ok_andThen, hv], hsv, hfu.sameDefs.trans hfv.prep.sameDefs, hring',
    hrows'.trans hrows, fun i hi => ?_, fun d i => u.rrd.cdp i d, hsame, fun i d hi hd => ?_⟩
  · rw [hsteps, hskip]
    exact hone i hi
  · rw [updateAberrantPass_cdp hsu hset hring hpass (by rw [hds]; exact hd),
      hwPass_eq hset (by rw [hcnt]; exact hi), hdef, hrows, htemp]

/-- **A single step**, in terms of the areas and rows before it. -/
theorem singleStep_spec {s : Upd} (hr : HwRrd s.rrd) (he : s.error = none) (proc : ℕ)
    (x : ℕ → RrdValue) :
    ∃ t, singleStep proc x s = .ok t ∧ HwRrd t.rrd ∧ t.error = none ∧ SameDefs s.rrd t.rrd ∧
      ∃ view : ℕ → ℕ → CdpPrep,
        (∀ i d, d < s.rrd.dsCnt → SameCdp (s.rrd.rraDef i).cf (s.rrd.cdp i d) (view d i)) ∧
        ∀ i d, i < s.rrd.rraCnt → d < s.rrd.dsCnt →
          let c := cellNext s.rrd.rraDef (view d) (fun i => s.rrd.rowAt i 2 d) (x d) i
          t.rrd.cdp i d = c ∧ ∀ k, t.rrd.rowAt i k d =
            if k % (s.rrd.rraDef i).rowCnt = 0 then c.primaryVal else s.rrd.rowAt i (k + 1) d := by
  obtain ⟨v, hv, hsv, hdefs, hring, hrows, hone, view, hsame, hcells⟩ := singleStep_pass hr he proc x
  obtain ⟨t, ht, hst⟩ := writeToRras_total hsv
  have hw : WritesRows v t := (writeToRras_ok (fun j hj =>
    Nat.lt_of_le_of_lt (Nat.zero_le _) (hring.curRow_lt j hj)) ht).1
  have hdefs' := hdefs.trans hw.1.sameDefs
  have hwritten : ∀ i, i < s.rrd.rraCnt →
      t.rrd.curRow i = (v.rrd.curRow i + 1) % (v.rrd.rraDef i).rowCnt ∧
      ∀ k d, d < v.rrd.dsCnt → t.rrd.rowAt i k d =
        if k % (v.rrd.rraDef i).rowCnt = 0 then (v.rrd.cdp i d).primaryVal
        else v.rrd.rowAt i (k + 1) d :=
    fun i hi => writeToRras_rowAt hring (by rwa [hdefs.rraCnt]) (hone i hi) ht
  rw [hdefs.rraDef, hdefs.dsCnt, hrows] at hwritten
  refine ⟨t, by rw [singleStep, hv, Outcome.ok_andThen, ht], ⟨?_, hst.openable, fun i hi => ?_,
    fun i hi => ?_⟩, hst.error, hdefs', view, hsame, fun i d hi hd => ⟨?_, fun k => ?_⟩⟩
  · rw [hdefs'.rraCnt, hdefs'.rraDef]
    exact hr.hset
  · rw [hdefs'.rraCnt] at hi
    rw [(hwritten i hi).1, hdefs'.rraDef]
    exact Nat.mod_lt _ (hr.openable.rowCnt_pos i hi)
  · rw [hdefs'.rraCnt] at hi
    rw [hdefs'.rraDef]
    exact hr.ring.rowCnt_lt i hi
  · rw [← hcells i d hi hd, Rrd.cdp, Rrd.cdp, hw.1.cdpPrep.1, Rrd.cdpIdx, Rrd.cdpIdx,
      hw.1.sameDefs.dsCnt]
  · rw [(hwritten i hi).2 k d hd, hcells i d hi hd]

/-! ## One step in both orders -/

/-- **The same arrays in the order `σ`**: they keep the same coefficients, and their rows are the same
from the current one on. -/
structure Renumbered (σ : Equiv.Perm ℕ) (r r' : Rrd) : Prop where
  dsCnt : r'.dsCnt = r.dsCnt
  rraCnt : r'.rraCnt = r.rraCnt
  renames : Renames r.rraCnt σ r.rraDef r'.rraDef
  cdp : ∀ i d, i < r.rraCnt → d < r.dsCnt → SameCdp (r.rraDef i).cf (r.cdp i d) (r'.cdp (σ i) d)
  rows : ∀ i k d, i < r.rraCnt → d < r.dsCnt → r'.rowAt (σ i) k d = r.rowAt i k d

/-- An RRA asks a prediction, or nobody. -/
theorem HwSet.predictionOf {n : ℕ} {defs : ℕ → RraDef} {i : ℕ} (hset : HwSet n defs) (hi : i < n) :
    predictionOf defs i = i ∨
      predictionOf defs i < n ∧ (hwFunctionsOf (defs (predictionOf defs i)).cf).isSome = true := by
  have hdep := hset.dep_lt i hi
  rw [Rrdtool.predictionOf]
  cases hcf : (defs i).cf with
  | seasonal => exact .inr ⟨hdep, (hset.hw_of_seasonal hi hcf).1⟩
  | devseasonal => exact .inr ⟨hdep, hset.hw_of_dev hi hcf⟩
  | failures => exact .inr ⟨hset.dep_lt _ hdep, hset.hw_of_dev hdep (hset.dev hi (.inr hcf))⟩
  | average | minimum | maximum | last | hwpredict | devpredict | mhwpredict => exact .inl rfl

/-- What `StepSafe` says holds of every area with the same coefficients. -/
theorem StepSafe.safeAt {σ : Equiv.Perm ℕ} {r : Rrd} {x : ℕ → RrdValue} {view : ℕ → CdpPrep} {i d : ℕ}
    (h : StepSafe σ r x) (hset : HwSet r.rraCnt r.rraDef) (hi : i < r.rraCnt) (hd : d < r.dsCnt)
    (hsame : ∀ i, SameCdp (r.rraDef i).cf (r.cdp i d) (view i)) :
    SafeAt σ r.rraDef view (x d) i (predictionOf r.rraDef i) := by
  obtain hself | ⟨hlt, hfn⟩ := hset.predictionOf hi
  · intro _
    rw [hself]
    exact .inr (by simp)
  · have hhw : (view (predictionOf r.rraDef i)).hwIntercept =
        (r.cdp (predictionOf r.rraDef i) d).hwIntercept ∧
        (view (predictionOf r.rraDef i)).hwSlope = (r.cdp (predictionOf r.rraDef i) d).hwSlope := by
      have hkept := hsame (predictionOf r.rraDef i)
      obtain ⟨hcf, -⟩ | ⟨hcf, -⟩ := fnOf_cases hfn
      · rw [hcf] at hkept
        exact ⟨hkept.1, hkept.2.1⟩
      · rw [hcf] at hkept
        exact ⟨hkept.1, hkept.2.1⟩
    have hseason : (view (r.rraDef (predictionOf r.rraDef i)).dependentRraIdx).hwSeasonal =
        (r.cdp (r.rraDef (predictionOf r.rraDef i)).dependentRraIdx d).hwSeasonal := by
      have hkept := hsame (r.rraDef (predictionOf r.rraDef i)).dependentRraIdx
      rw [(hset.season hlt hfn).1] at hkept
      exact hkept.1
    have hat := h i d hi hd
    simp only [SafeAt, Starts, StartsAlike, hhw, hseason] at hat ⊢
    exact hat

section Step

variable {σ : Equiv.Perm ℕ} {s s' : Upd} {x : ℕ → RrdValue}

/-- **A single step in both orders.** -/
theorem singleStep_renumbered (hren : Renumbered σ s.rrd s'.rrd) (hr : HwRrd s.rrd) (hr' : HwRrd s'.rrd)
    (he : s.error = none) (he' : s'.error = none) (hfail : FailuresSafe s.rrd.rraCnt σ s.rrd.rraDef)
    (hstep : StepSafe σ s.rrd x) (proc proc' : ℕ) :
    ∃ t t', singleStep proc x s = .ok t ∧ singleStep proc' x s' = .ok t' ∧
      Renumbered σ t.rrd t'.rrd ∧ (HwRrd t.rrd ∧ t.error = none) ∧ (HwRrd t'.rrd ∧ t'.error = none) := by
  obtain ⟨t, ht, hrt, het, hdefs, view, hsame, hcells⟩ := singleStep_spec hr he proc x
  obtain ⟨t', ht', hrt', het', hdefs', view', hsame', hcells'⟩ := singleStep_spec hr' he' proc' x
  have hrow : ∀ i, i < s.rrd.rraCnt → (s'.rrd.rraDef (σ i)).rowCnt = (s.rrd.rraDef i).rowCnt :=
    fun i hi => by rw [hren.renames.defs_eq i hi]
  have hlt : ∀ i, i < s.rrd.rraCnt → σ i < s'.rrd.rraCnt := fun i hi => by
    rw [hren.rraCnt]
    exact (hren.renames.lt_iff i).mpr hi
  -- one DS at a time: the areas at the beginning of the pass have the same coefficients
  have hnext : ∀ i d, i < s.rrd.rraCnt → d < s.rrd.dsCnt →
      let c := cellNext s.rrd.rraDef (view d) (fun i => s.rrd.rowAt i 2 d) (x d) i
      let c' := cellNext s'.rrd.rraDef (view' d) (fun i => s'.rrd.rowAt i 2 d) (x d) (σ i)
      SameCdp (s.rrd.rraDef i).cf c c' ∧ c'.primaryVal = c.primaryVal := by
    intro i d hi hd
    have hviews : SameViews s.rrd.rraCnt σ s.rrd.rraDef s'.rrd.rraDef (view d) (view' d)
        (fun i => s.rrd.rowAt i 2 d) (fun i => s'.rrd.rowAt i 2 d) := by
      refine ⟨hr.hset, hren.renames, fun j hj => ?_, fun j hj => hren.rows j 2 d hj hd⟩
      have hother := hsame' (σ j) d (by rw [hren.dsCnt]; exact hd)
      rw [hren.renames.cf hj] at hother
      exact (hsame j d hd).symm.trans ((hren.cdp j d hj hd).trans hother)
    refine hviews.cellNext_eq hi (hstep.safeAt hr.hset hi hd fun j => hsame j d hd) fun hcf => ?_
    have hpred : predictionOf s.rrd.rraDef i =
        (s.rrd.rraDef (s.rrd.rraDef i).dependentRraIdx).dependentRraIdx := by
      simp only [predictionOf, hcf]
    rw [hpred]
    exact hfail i hi hcf
  refine ⟨t, t', ht, ht', ⟨?_, ?_, ?_, fun i d hi hd => ?_, fun i k d hi hd => ?_⟩, ⟨hrt, het⟩,
    ⟨hrt', het'⟩⟩
  · rw [hdefs'.dsCnt, hdefs.dsCnt, hren.dsCnt]
  · rw [hdefs'.rraCnt, hdefs.rraCnt, hren.rraCnt]
  · rw [hdefs.rraCnt, hdefs.rraDef, hdefs'.rraDef]
    exact hren.renames
  · rw [hdefs.rraCnt] at hi
    rw [hdefs.dsCnt] at hd
    rw [hdefs.rraDef, (hcells i d hi hd).1,
      (hcells' (σ i) d (hlt i hi) (by rw [hren.dsCnt]; exact hd)).1]
    exact (hnext i d hi hd).1
  · rw [hdefs.rraCnt] at hi
    rw [hdefs.dsCnt] at hd
    rw [(hcells i d hi hd).2 k,
      (hcells' (σ i) d (hlt i hi) (by rw [hren.dsCnt]; exact hd)).2 k, (hnext i d hi hd).2,
      hrow i hi, hren.rows i (k + 1) d hi hd]

end Step

end Rrdtool
