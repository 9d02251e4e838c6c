import Rrdtool.Create
import Rrdtool.Frame

/-!
# Runs of updates

A file starts with `rrd_create_fn` and then sees calls of `rrd_update`, each with a list of
arguments. This file has the inversion lemmas that take a successful argument apart into
its stages, the arithmetic of the elapsed steps, and the notion of a reachable RRD.

`calculate_elapsed_steps` returns the number of steps as an `int`. `StepsFit` says of a call
that this never loses anything: between two updates there are fewer than `2 ^ 31` steps.
-/

namespace Rrdtool

open Loop

variable {env : Env} {s t : Upd}

/-! ## Taking an argument apart -/

/-- Inversion for an argument that was processed. -/
theorem processArg_eq_ok {arg : Text} (h : processArg env arg s = .ok t) :
    ∃ u v w, parseDs env arg s = .ok u ∧ updatePdpPrep (updateInterval u) u = .ok v ∧
      processPdps env (updateInterval u) v = .ok w ∧ t = setLastUp w := by
  obtain ⟨u, hu, h⟩ := Outcome.andThen_eq_ok.mp h
  obtain ⟨w, hw, h⟩ := Outcome.andThen_eq_ok.mp h
  obtain ⟨v, hv, hw⟩ := Outcome.andThen_eq_ok.mp hw
  exact ⟨u, v, w, hu, hv, hw, (Outcome.ok.inj h).symm⟩

/-- Inversion for the stages after `update_pdp_prep`. -/
theorem processPdps_eq_ok {interval : ℚ} (h : processPdps env interval s = .ok t) :
    let el := calculateElapsedSteps s.rrd s.currentTime.toNat s.currentTimeUsec interval
    (el.elapsedPdpSt = 0 ∧ t = simpleUpdate interval s) ∨
      (el.elapsedPdpSt ≠ 0 ∧ ∃ u v w, processAllPdpSt env.lib interval el s = .ok u ∧
        updateAllCdpPrep el.elapsedPdpSt el.procPdpCnt u = .ok v ∧
        updateAberrantCdps el.elapsedPdpSt v = .ok w ∧ writeToRras w = .ok t) := by
  intro el
  unfold processPdps at h
  dsimp only at h
  split_ifs at h with hz
  · exact .inl ⟨hz, (Outcome.ok.inj h).symm⟩
  · obtain ⟨w, hw, ht⟩ := Outcome.andThen_eq_ok.mp h
    obtain ⟨v, hv, hw⟩ := Outcome.andThen_eq_ok.mp hw
    obtain ⟨u, hu, hv⟩ := Outcome.andThen_eq_ok.mp hv
    exact .inr ⟨hz, u, v, w, hu, hv, hw, ht⟩

/-! ## What no stage changes -/

/-- Two states of one file: the definitions and the size are the same. -/
structure SameDefs (r r' : Rrd) : Prop where
  version : r'.version = r.version
  dsCnt : r'.dsCnt = r.dsCnt
  rraCnt : r'.rraCnt = r.rraCnt
  pdpStep : r'.pdpStep = r.pdpStep
  dsDef : r'.dsDef = r.dsDef
  rraDef : r'.rraDef = r.rraDef
  valueCnt : r'.valueCnt = r.valueCnt

namespace SameDefs

theorem refl (r : Rrd) : SameDefs r r := ⟨rfl, rfl, rfl, rfl, rfl, rfl, rfl⟩

theorem trans {r r' r'' : Rrd} (h : SameDefs r r') (h' : SameDefs r' r'') : SameDefs r r'' :=
  ⟨h'.version.trans h.version, h'.dsCnt.trans h.dsCnt, h'.rraCnt.trans h.rraCnt,
    h'.pdpStep.trans h.pdpStep, h'.dsDef.trans h.dsDef, h'.rraDef.trans h.rraDef,
    h'.valueCnt.trans h.valueCnt⟩

theorem rraStart {r r' : Rrd} (h : SameDefs r r') (i : ℕ) : r'.rraStart i = r.rraStart i :=
  Rrd.rraStart_congr h.dsCnt h.rraDef i

end SameDefs

theorem ParseFrame.sameDefs (h : ParseFrame s t) : SameDefs s.rrd t.rrd := by
  obtain ⟨_, _, _, rfl⟩ := h
  exact SameDefs.refl _

theorem PdpFrame.sameDefs (h : PdpFrame s t) : SameDefs s.rrd t.rrd := by
  obtain ⟨_, _, _, rfl⟩ := h
  exact ⟨rfl, rfl, rfl, rfl, rfl, rfl, rfl⟩

theorem PrepFrame.sameDefs (h : PrepFrame s t) : SameDefs s.rrd t.rrd := by
  obtain ⟨_, _, _, _, _, _, _, _, rfl⟩ := h
  exact ⟨rfl, rfl, rfl, rfl, rfl, rfl, rfl⟩

theorem RowFrame.sameDefs (h : RowFrame s t) : SameDefs s.rrd t.rrd := by
  obtain ⟨_, _, _, _, _, rfl⟩ := h
  exact ⟨rfl, rfl, rfl, rfl, rfl, rfl, rfl⟩

/-! ## Elapsed steps -/

/-- The step an RRD is in. -/
def Rrd.stepNo (r : Rrd) : ℕ := r.lastUp / r.pdpStep

theorem throughInt_of_lt {n : ℕ} (h : n < 2 ^ 31) : throughInt n = n := by
  unfold throughInt
  rw [Nat.mod_eq_of_lt (by omega), if_pos h]

/-- The steps between two times, in terms of the steps they are in. -/
theorem sub_mod_sub_sub_mod_div {step t t' : ℕ} (hs : 0 < step) :
    ((t' - t' % step) - (t - t % step)) / step = t' / step - t / step := by
  have h (n : ℕ) : n - n % step = n / step * step := by
    have := Nat.div_add_mod' n step
    omega
  rw [h, h, ← Nat.sub_mul, Nat.mul_div_cancel _ hs]

/-- **`calculate_elapsed_steps`**, when the number of steps fits into an `int`. -/
theorem calculateElapsedSteps_eq (r : Rrd) (t usec : ℕ) (interval : ℚ) (hs : 0 < r.pdpStep)
    (hfit : t / r.pdpStep - r.stepNo < 2 ^ 31) :
    let el := calculateElapsedSteps r t usec interval
    el.elapsedPdpSt = t / r.pdpStep - r.stepNo ∧ el.procPdpCnt = r.stepNo := by
  constructor
  · change throughInt (((t - t % r.pdpStep) - (r.lastUp - r.lastUp % r.pdpStep)) / r.pdpStep) = _
    rw [sub_mod_sub_sub_mod_div hs]
    exact throughInt_of_lt hfit
  · change (r.lastUp - r.lastUp % r.pdpStep) / r.pdpStep = r.lastUp / r.pdpStep
    have h : r.lastUp - r.lastUp % r.pdpStep = r.lastUp / r.pdpStep * r.pdpStep := by
      have := Nat.div_add_mod' r.lastUp r.pdpStep
      omega
    rw [h, Nat.mul_div_cancel _ hs]

/-- The rows an RRA gets are the multiples of `pdp_cnt` that the step number passes. -/
theorem rraSteps_eq {pdpCnt proc elapsed : ℕ} (hp : 0 < pdpCnt) :
    rraSteps pdpCnt proc elapsed = (proc + elapsed) / pdpCnt - proc / pdpCnt := by
  have hmod := Nat.mod_lt proc hp
  have hproc := Nat.div_add_mod' proc pdpCnt
  unfold rraSteps startPdpOffset
  dsimp only
  split_ifs with hle
  · have hsum : proc + elapsed =
        (elapsed - (pdpCnt - proc % pdpCnt)) + (proc / pdpCnt + 1) * pdpCnt := by
      rw [Nat.add_mul]
      omega
    rw [hsum, Nat.add_mul_div_right _ _ hp]
    generalize (elapsed - (pdpCnt - proc % pdpCnt)) / pdpCnt = k
    omega
  · have hsum : proc + elapsed = (proc % pdpCnt + elapsed) + proc / pdpCnt * pdpCnt := by omega
    rw [hsum, Nat.add_mul_div_right _ _ hp, Nat.div_eq_of_lt (by omega)]
    omega

/-! ## Calls and runs -/

/-- Fewer than `2 ^ 31` steps lie between the updates of a call. -/
def StepsFit (env : Env) : List Text → Upd → Prop
  | [], _ => True
  | arg :: args, s => ∀ t, processArg env arg s = .ok t →
      t.rrd.stepNo - s.rrd.stepNo < 2 ^ 31 ∧ StepsFit env args t

/-- **Reachable RRDs**: created, and then updated by calls that succeeded. -/
inductive Reachable : Rrd → Prop where
  /-- a new file -/
  | create (a : CreateArgs) (random : ℕ → ℕ) : Reachable (rrdCreateFn a random)
  /-- one more call -/
  | update {rrd rrd' : Rrd} (env : Env) (junk : Upd) (args : List Text) :
      Reachable rrd → StepsFit env args (junk.start rrd) →
      rrdUpdate env junk args rrd = .ok rrd' → Reachable rrd'

/-- Inversion for a call that succeeded. -/
theorem rrdUpdate_eq_ok {junk : Upd} {args : List Text} {rrd rrd' : Rrd}
    (h : rrdUpdate env junk args rrd = .ok rrd') :
    ∃ s, processArgs env args (junk.start rrd) = .ok s ∧
      rrd' = if s.scheduleSmooth then smoothAllRras s.rrd else s.rrd := by
  unfold rrdUpdate at h
  cases hp : processArgs env args (junk.start rrd) with
  | fail e s => simp [hp] at h
  | ok s =>
    simp only [hp] at h
    exact ⟨s, rfl, (Outcome.ok.inj h).symm⟩

/-- **Run rule for the arguments of a call**: what one argument keeps, the call keeps. -/
theorem processArgs_invariant {args : List Text} (I : Upd → Prop)
    (hstep : ∀ arg s t, I s → processArg env arg s = .ok t →
      t.rrd.stepNo - s.rrd.stepNo < 2 ^ 31 → I t)
    (hI : I s) (hfit : StepsFit env args s) (h : processArgs env args s = .ok t) : I t := by
  induction args generalizing s with
  | nil =>
    obtain rfl := Outcome.ok.inj h
    exact hI
  | cons arg args ih =>
    obtain ⟨u, hu, ht⟩ := Outcome.andThen_eq_ok.mp h
    obtain ⟨hlt, hfit'⟩ := hfit u hu
    exact ih (hstep arg s u hI hu hlt) hfit' ht

end Rrdtool
