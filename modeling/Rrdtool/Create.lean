import Rrdtool.Format
import Mathlib.Tactic.Linarith

/-!
# Creating an RRD

`rrd_create_r` turns its arguments into definitions and hands them to `rrd_create_fn`,
which writes the file. `CreateArgs` is what has been collected at that point, with what the
argument loop has checked by then as fields; everything the theorems of this development
say about created files holds for any such definitions.

The preparation areas are written from **one** `cdp_prep_t` that is only partly
reinitialised for each RRA, and the number of unknown values that fill the data area is
counted in an `int`.
-/

namespace Rrdtool

open Loop

/-- The definitions `rrd_create_fn` is called with. -/
structure CreateArgs : Type where
  /-- `stat_head.version` -/
  version : ℕ
  /-- `pdp_step` -/
  pdpStep : ℕ
  /-- `last_up` -/
  lastUp : ℕ
  /-- `ds_cnt` -/
  dsCnt : ℕ
  /-- `rra_cnt` -/
  rraCnt : ℕ
  /-- `ds_def` -/
  dsDef : ℕ → DsDef
  /-- `rra_def` -/
  rraDef : ℕ → RraDef
  /-- a step of zero divides by zero in `rrd_create_fn` -/
  pdpStep_pos : 0 < pdpStep
  /-- `you must define at least one Data Source` -/
  dsCnt_pos : 0 < dsCnt
  /-- `you must define at least one Round Robin Archive` -/
  rraCnt_pos : 0 < rraCnt
  /-- `Invalid row count` -/
  rowCnt_pos : ∀ i, i < rraCnt → 0 < (rraDef i).rowCnt
  /-- row counts are read into an `int` -/
  rowCnt_lt : ∀ i, i < rraCnt → (rraDef i).rowCnt < 2 ^ 31
  /-- `Invalid step: must be >= 1` -/
  pdpCnt_pos : ∀ i, i < rraCnt → 0 < (rraDef i).pdpCnt
  /-- the default `pdp_cnt` stays for every CF that does not consolidate -/
  pdpCnt_one : ∀ i, i < rraCnt → (rraDef i).cf.isPlain = false → (rraDef i).pdpCnt = 1

/-- A `cdp_prep_t` from `calloc`. -/
def zeroCdp : CdpPrep where
  cdpVal := .num 0
  unknPdpCnt := 0
  hwIntercept := .num 0
  hwLastIntercept := .num 0
  hwSlope := .num 0
  hwLastSlope := .num 0
  nullCount := 0
  lastNullCount := 0
  primaryVal := .num 0
  secondaryVal := .num 0
  violations := fun _ => false

/-- `init_hwpredict_cdp`. -/
def initHwpredictCdp (c : CdpPrep) : CdpPrep :=
  { c with
    hwIntercept := dnan, hwLastIntercept := dnan, hwSlope := dnan, hwLastSlope := dnan,
    nullCount := 1, lastNullCount := 1 }

/-- `init_seasonal_cdp`. -/
def initSeasonalCdp (c : CdpPrep) : CdpPrep :=
  { c with hwIntercept := dnan, hwLastIntercept := dnan, nullCount := 1 }

namespace CreateArgs

/-- The startup `PDP_unkn_sec_cnt`. -/
def unknSecCnt (a : CreateArgs) : ℕ := a.lastUp % a.pdpStep

/-- The pass of `rrd_create_fn` that prepares the shared `cdp_prep_t` for RRA `i`. -/
def initCdp (a : CreateArgs) (i : ℕ) (c : CdpPrep) : CdpPrep :=
  match (a.rraDef i).cf with
  | .hwpredict | .mhwpredict => initHwpredictCdp c
  | .seasonal | .devseasonal => initSeasonalCdp c
  | .failures => zeroCdp
  | _ =>
    { c with
      cdpVal := dnan
      unknPdpCnt :=
        (a.lastUp - a.unknSecCnt) % (a.pdpStep * (a.rraDef i).pdpCnt) / a.pdpStep }

/-- The preparation area every DS of RRA `i` starts with. -/
def cdpOf (a : CreateArgs) (i : ℕ) : CdpPrep := forLoop (i + 1) a.initCdp zeroCdp

/-- `unkn_cnt`: the number of values of all RRAs, in an `int`. -/
def unknCnt (a : CreateArgs) : ℤ :=
  forLoop a.rraCnt (fun i cnt => (cnt + (a.dsCnt * (a.rraDef i).rowCnt : ℕ)).bmod (2 ^ 32)) 0

end CreateArgs

/-- `rrd_create_fn`; `random` is what `rrd_random` returns for each RRA. The file is as long
as the definitions ask for and full of zero bytes before the unknown values are written. -/
def rrdCreateFn (a : CreateArgs) (random : ℕ → ℕ) : Rrd where
  version := a.version
  dsCnt := a.dsCnt
  rraCnt := a.rraCnt
  pdpStep := a.pdpStep
  dsDef := a.dsDef
  rraDef := a.rraDef
  lastUp := a.lastUp
  lastUpUsec := 0
  pdpPrep := fun _ => { lastDs := ['U'], unknSecCnt := a.unknSecCnt, pdpVal := .num 0 }
  cdpPrep := fun idx => a.cdpOf (idx / a.dsCnt)
  curRow := fun i => random i % (a.rraDef i).rowCnt
  values := fun p => if (p : ℤ) < a.unknCnt then dnan else .num 0
  valueCnt := forLoop a.rraCnt (fun i start => start + (a.rraDef i).rowCnt * a.dsCnt) 0

/-- A small file: `DS:d:GAUGE:600:U:U`, with one RRA of CF `cf` over `pdpCnt` steps of 300
seconds and `rowCnt` rows, created at time `lastUp`. -/
def CreateArgs.gauge (cf : Cf) (pdpCnt rowCnt lastUp : ℕ) (hcf : cf.isPlain = true)
    (hp : 0 < pdpCnt) (hr : 0 < rowCnt ∧ rowCnt < 2 ^ 31) : CreateArgs where
  version := 3
  pdpStep := 300
  lastUp := lastUp
  dsCnt := 1
  rraCnt := 1
  dsDef := fun _ => ⟨['d'], .gauge, .generic 600 dnan dnan⟩
  rraDef := fun _ => ⟨cf, rowCnt, pdpCnt, .num (1 / 2), .num 0, .num 0, 0, 0, 0⟩
  pdpStep_pos := by decide
  dsCnt_pos := by decide
  rraCnt_pos := by decide
  rowCnt_pos := fun _ _ => hr.1
  rowCnt_lt := fun _ _ => hr.2
  pdpCnt_pos := fun _ _ => hp
  pdpCnt_one := fun _ _ h => by simp [hcf] at h

/-- One `GAUGE` data source and an RRA of three rows. -/
def CreateArgs.single : CreateArgs := .gauge .average 1 3 900 rfl (by decide) (by decide)

/-- The same file with another step. -/
def CreateArgs.withStep (a : CreateArgs) (step : ℕ) (h : 0 < step) : CreateArgs :=
  { a with pdpStep := step, pdpStep_pos := h }

/-- Two `GAUGE` data sources and an RRA of three rows. -/
def CreateArgs.pair : CreateArgs :=
  { CreateArgs.gauge .average 1 3 900 rfl (by decide) (by decide) with
    dsCnt := 2
    dsCnt_pos := by decide }

/-- Two data sources with `RRA:AVERAGE:0.5:1:2147483647`: more values than an `int` counts. -/
def CreateArgs.wide : CreateArgs :=
  { CreateArgs.gauge .average 1 2147483647 900 rfl (by decide) (by decide) with
    dsCnt := 2
    dsCnt_pos := by decide }

namespace CreateArgs

variable (a : CreateArgs) (random : ℕ → ℕ)

/-- `unkn_cnt` is the size of the data area, wrapped to an `int`. -/
theorem unknCnt_eq : a.unknCnt = ((rrdCreateFn a random).wantedCnt : ℤ).bmod (2 ^ 32) := by
  have h : a.unknCnt = ((rrdCreateFn a random).rraStart a.rraCnt : ℤ).bmod (2 ^ 32) := by
    unfold unknCnt
    refine forLoop_invariant
      (fun i cnt => cnt = ((rrdCreateFn a random).rraStart i : ℤ).bmod (2 ^ 32)) (by simp) ?_
    intro i cnt _ hcnt
    rw [hcnt, Int.bmod_add_bmod, Rrd.rraStart_succ]
    push_cast
    rw [mul_comm (a.dsCnt : ℤ)]
    rfl
  exact h

/-- A data area that an `int` can count is filled with unknown values. -/
theorem unknCnt_of_lt (h : (rrdCreateFn a random).wantedCnt < 2 ^ 31) :
    a.unknCnt = (rrdCreateFn a random).wantedCnt := by
  rw [unknCnt_eq a random, Int.bmod_eq_of_le] <;> omega

/-- The shared `cdp_prep_t`, after the pass for a consolidating RRA. -/
theorem cdpOf_plain {i : ℕ} (h : (a.rraDef i).cf.isPlain = true) :
    (a.cdpOf i).cdpVal = dnan ∧
      (a.cdpOf i).unknPdpCnt =
        (a.lastUp - a.unknSecCnt) % (a.pdpStep * (a.rraDef i).pdpCnt) / a.pdpStep := by
  unfold cdpOf
  rw [forLoop_succ]
  unfold initCdp
  cases hcf : (a.rraDef i).cf <;> simp_all [Cf.isPlain]

end CreateArgs

end Rrdtool
