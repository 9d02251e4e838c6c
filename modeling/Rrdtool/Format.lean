import Rrdtool.Lib.CStr
import Rrdtool.Lib.Loop

/-!
# The RRD format

The structures of `rrd_format.h`. A header array is a function from the index, of which the
first `dsCnt` or `rraCnt` entries are in use; the data area behind the header is one array
`values` of `valueCnt` doubles, in which RRA `i` owns the block that starts at `rraStart i`.
All positions are counted in `rrd_value_t` from the start of that area.

The `par` and `scratch` arrays of unions become named fields. Indices that the header gives
several names (`RRA_hw_alpha` and `RRA_seasonal_gamma`, `CDP_hw_intercept` and
`CDP_hw_seasonal`) stay one field here too, with an abbreviation for each further name.
-/

namespace Rrdtool

/-- `rrd_value_t`. -/
abbrev RrdValue : Type := Dbl

/-- `DNAN`. -/
abbrev dnan : RrdValue := .nan

/-- `enum dst_en`. -/
inductive Dst : Type where
  | counter | absolute | gauge | derive | cdef
  deriving DecidableEq

/-- `enum cf_en`. -/
inductive Cf : Type where
  | average | minimum | maximum | last | hwpredict | seasonal | devpredict | devseasonal
  | failures | mhwpredict
  deriving DecidableEq

/-- Is this one of the two seasonal arrays? -/
def Cf.isSeasonal : Cf → Bool
  | .seasonal => true
  | .devseasonal => true
  | _ => false

/-- Does this consolidation function consolidate (`AVERAGE`, `MIN`, `MAX`, `LAST`)? -/
def Cf.isPlain : Cf → Bool
  | .average => true
  | .minimum => true
  | .maximum => true
  | .last => true
  | _ => false

/-- `enum op_en`, without `OP_END`: a program ends where its list ends. -/
inductive Op : Type where
  | number | variable | inf | prev | neginf | unkn | now | time | add | mod | sub | mul
  | div | sin | dup | exc | pop | cos | log | exp | lt | le | gt | ge | eq | cond
  | min | max | limit | floor | ceil | un | ltime | ne | isinf | prevOther | count
  | atan | sqrt | sort | rev | trend | trendnan | atan2 | rad2deg | deg2rad
  | predict | predictsigma | avg | abs | addnan
  deriving DecidableEq

/-- `rpn_cdefds_t`: one node of a stored `COMPUTE` program. -/
structure RpnCdefds : Type where
  /-- the operator -/
  op : Op
  /-- the constant of `OP_NUMBER`, the DS index of `OP_VARIABLE` and `OP_PREV_OTHER` -/
  val : ℤ
  deriving DecidableEq

/-- The `par` array of a `ds_def_t`, by what was stored into it. -/
inductive DsPar : Type where
  /-- `DS_mrhb_cnt`, `DS_min_val`, `DS_max_val` -/
  | generic : ℕ → RrdValue → RrdValue → DsPar
  /-- `DS_cdef`: the compact program -/
  | cdef : List RpnCdefds → DsPar
  deriving DecidableEq

/-- `ds_def_t`. -/
structure DsDef : Type where
  /-- `ds_nam` -/
  dsNam : Text
  /-- `dst`, after `dst_conv` -/
  dst : Dst
  /-- `par` -/
  par : DsPar
  deriving DecidableEq

/-- `par[DS_mrhb_cnt].u_cnt`. For a `COMPUTE` DS this reads the first bytes of the program;
whatever they are, a `COMPUTE` DS overwrites what is derived from them. -/
def DsDef.mrhbCnt (d : DsDef) : ℕ :=
  match d.par with
  | .generic mrhb _ _ => mrhb
  | .cdef _ => 0

/-- `par[DS_min_val].u_val`. -/
def DsDef.minVal (d : DsDef) : RrdValue :=
  match d.par with
  | .generic _ lo _ => lo
  | .cdef _ => dnan

/-- `par[DS_max_val].u_val`. -/
def DsDef.maxVal (d : DsDef) : RrdValue :=
  match d.par with
  | .generic _ _ hi => hi
  | .cdef _ => dnan

/-- The program of a `COMPUTE` DS. -/
def DsDef.cdef (d : DsDef) : List RpnCdefds :=
  match d.par with
  | .generic _ _ _ => []
  | .cdef prog => prog

/-- `rra_def_t`. -/
structure RraDef : Type where
  /-- `cf_nam`, after `cf_conv` -/
  cf : Cf
  /-- `row_cnt` -/
  rowCnt : ℕ
  /-- `pdp_cnt` -/
  pdpCnt : ℕ
  /-- `par[RRA_cdp_xff_val]` -/
  xffVal : RrdValue
  /-- `par[RRA_hw_alpha]` -/
  hwAlpha : RrdValue
  /-- `par[RRA_hw_beta]` -/
  hwBeta : RrdValue
  /-- `par[RRA_dependent_rra_idx]` -/
  dependentRraIdx : ℕ
  /-- `par[RRA_seasonal_smooth_idx]` -/
  seasonalSmoothIdx : ℕ
  /-- `par[RRA_failure_threshold]` -/
  failureThreshold : ℕ
  deriving DecidableEq

/-- `par[RRA_seasonal_gamma]`. -/
abbrev RraDef.seasonalGamma (r : RraDef) : RrdValue := r.hwAlpha
/-- `par[RRA_delta_pos]`. -/
abbrev RraDef.deltaPos (r : RraDef) : RrdValue := r.hwAlpha
/-- `par[RRA_seasonal_smoothing_window]`. -/
abbrev RraDef.smoothingWindow (r : RraDef) : RrdValue := r.hwBeta
/-- `par[RRA_delta_neg]`. -/
abbrev RraDef.deltaNeg (r : RraDef) : RrdValue := r.hwBeta
/-- `par[RRA_window_len]`. -/
abbrev RraDef.windowLen (r : RraDef) : ℕ := r.seasonalSmoothIdx

/-- `LAST_DS_LEN`. -/
def lastDsLen : ℕ := 30

/-- `pdp_prep_t`. -/
structure PdpPrep : Type where
  /-- `last_ds` -/
  lastDs : Text
  /-- `scratch[PDP_unkn_sec_cnt]` -/
  unknSecCnt : ℕ
  /-- `scratch[PDP_val]` -/
  pdpVal : RrdValue
  deriving DecidableEq

/-- `cdp_prep_t`. The bytes that a `FAILURES` RRA uses as an array of violations are the
field `violations`; such an RRA uses none of the fields they overlap. -/
structure CdpPrep : Type where
  /-- `scratch[CDP_val]` -/
  cdpVal : RrdValue
  /-- `scratch[CDP_unkn_pdp_cnt]` -/
  unknPdpCnt : ℕ
  /-- `scratch[CDP_hw_intercept]` -/
  hwIntercept : RrdValue
  /-- `scratch[CDP_hw_last_intercept]` -/
  hwLastIntercept : RrdValue
  /-- `scratch[CDP_hw_slope]` -/
  hwSlope : RrdValue
  /-- `scratch[CDP_hw_last_slope]` -/
  hwLastSlope : RrdValue
  /-- `scratch[CDP_null_count]` -/
  nullCount : ℕ
  /-- `scratch[CDP_last_null_count]` -/
  lastNullCount : ℕ
  /-- `scratch[CDP_primary_val]` -/
  primaryVal : RrdValue
  /-- `scratch[CDP_secondary_val]` -/
  secondaryVal : RrdValue
  /-- the violation history of a `FAILURES` RRA, newest first -/
  violations : ℕ → Bool

/-- `scratch[CDP_hw_seasonal]`, also `CDP_seasonal_deviation`. -/
abbrev CdpPrep.hwSeasonal (c : CdpPrep) : RrdValue := c.hwIntercept
/-- `scratch[CDP_hw_last_seasonal]`, also `CDP_last_seasonal_deviation`. -/
abbrev CdpPrep.hwLastSeasonal (c : CdpPrep) : RrdValue := c.hwLastIntercept
/-- `scratch[CDP_init_seasonal]`. -/
abbrev CdpPrep.initSeasonal (c : CdpPrep) : ℕ := c.nullCount

/-- An RRD file: static header, live header, preparation areas, row pointers and data. -/
structure Rrd : Type where
  /-- `stat_head.version`, as a number -/
  version : ℕ
  /-- `stat_head.ds_cnt` -/
  dsCnt : ℕ
  /-- `stat_head.rra_cnt` -/
  rraCnt : ℕ
  /-- `stat_head.pdp_step` -/
  pdpStep : ℕ
  /-- `ds_def` -/
  dsDef : ℕ → DsDef
  /-- `rra_def` -/
  rraDef : ℕ → RraDef
  /-- `live_head.last_up` -/
  lastUp : ℕ
  /-- `live_head.last_up_usec` -/
  lastUpUsec : ℕ
  /-- `pdp_prep` -/
  pdpPrep : ℕ → PdpPrep
  /-- `cdp_prep`; the entry of RRA `i` and DS `d` is at `i * dsCnt + d` -/
  cdpPrep : ℕ → CdpPrep
  /-- `rra_ptr[].cur_row` -/
  curRow : ℕ → ℕ
  /-- the doubles behind the header -/
  values : ℕ → RrdValue
  /-- how many of them the file holds -/
  valueCnt : ℕ

namespace Rrd

/-- The first value of the block of RRA `i`. -/
def rraStart (rrd : Rrd) (i : ℕ) : ℕ :=
  Loop.forLoop i (fun j start => start + (rrd.rraDef j).rowCnt * rrd.dsCnt) 0

/-- The size of the data area the definitions ask for (`correct_len` of `rrd_open`). -/
abbrev wantedCnt (rrd : Rrd) : ℕ := rrd.rraStart rrd.rraCnt

/-- The index of the preparation area of RRA `i` and DS `d`. -/
abbrev cdpIdx (rrd : Rrd) (i d : ℕ) : ℕ := i * rrd.dsCnt + d

@[simp] theorem rraStart_zero (rrd : Rrd) : rrd.rraStart 0 = 0 := rfl

theorem rraStart_succ (rrd : Rrd) (i : ℕ) :
    rrd.rraStart (i + 1) = rrd.rraStart i + (rrd.rraDef i).rowCnt * rrd.dsCnt := rfl

/-- The blocks follow each other. -/
theorem rraStart_mono (rrd : Rrd) {i j : ℕ} (h : i ≤ j) : rrd.rraStart i ≤ rrd.rraStart j := by
  induction h with
  | refl => exact Nat.le_refl _
  | step _ ih =>
    rw [rraStart_succ]
    omega

/-- The start of a block depends on the definitions only. -/
theorem rraStart_congr {r s : Rrd} (hd : r.dsCnt = s.dsCnt) (hr : r.rraDef = s.rraDef)
    (i : ℕ) : r.rraStart i = s.rraStart i := by
  rw [rraStart, rraStart, hd, hr]

end Rrd

end Rrdtool
