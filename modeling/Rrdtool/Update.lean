import Rrdtool.Hw
import Rrdtool.Rpn
import Rrdtool.Lib.Ring

/-!
# `rrd_update`

`_rrd_update` in the build with `mmap`: the header arrays are the file, so a change to
`rrd` is persistent when it is made and an error return takes nothing back.

`Upd` is the RRD together with the working storage one call shares between its arguments.
That storage comes from `malloc`, so a call may start from any contents. The functions
below keep the names, the order and the exits of their C counterparts.
-/

namespace Rrdtool

open Loop

/-! ## State, environment, errors -/

/-- What an update takes from its surroundings. -/
structure Env : Type where
  /-- `libm` and the clock of the RPN calculator -/
  lib : Libm
  /-- `gettimeofday`: seconds and microseconds -/
  now : ℕ × ℕ
  /-- `rrd_parsetime` and `mktime` on an at-style time; `none` on a syntax error or a time
  relative to `start` or `end` -/
  parsetime : Text → Option ℤ

/-- The errors an update argument can be refused with. -/
inductive UpdError : Type where
  /-- `expected timestamp not found in data source from %s` -/
  | noTimestamp (input : Text)
  /-- `found extra data on update argument: %s` -/
  | extraData (rest : Text)
  /-- `expected %lu data source readings (got %lu) from %s` -/
  | readings (expected got : ℕ) (input : Text)
  /-- `ds time: %s: %s`, `specifying time relative to the 'start' or 'end' makes no sense` -/
  | parsetime (input : Text)
  /-- `converting '%s' to float: %s` -/
  | floatRange (input : Text)
  /-- `illegal attempt to update using time %ld when last update time is %ld` -/
  | illegalTime (time : ℤ) (lastUp : ℕ)
  /-- `not a simple %s integer: '%s'` -/
  | notInteger (signed : Bool) (input : Text)
  /-- `conversion of '%s' to float not complete: tail '%s'` -/
  | floatTail (input tail : Text)
  /-- an error of the RPN calculator -/
  | rpn (e : RpnError)
  /-- `read operation failed in lookup_seasonal()` -/
  | lookupSeasonal (pos : ℕ)
  /-- `attempting to write beyond end of file` -/
  | writeBeyondEnd (pos : ℕ)
  deriving DecidableEq

/-- The RRD and the working storage of one `_rrd_update` call. -/
structure Upd : Type where
  /-- the mapped file -/
  rrd : Rrd
  /-- `updvals` -/
  updvals : ℕ → Text
  /-- `current_time` -/
  currentTime : ℤ
  /-- `current_time_usec` -/
  currentTimeUsec : ℕ
  /-- `pdp_new` -/
  pdpNew : ℕ → RrdValue
  /-- `pdp_temp` -/
  pdpTemp : ℕ → RrdValue
  /-- `rra_step_cnt` -/
  rraStepCnt : ℕ → ℕ
  /-- `skip_update` -/
  skipUpdate : ℕ → Bool
  /-- `seasonal_coef` -/
  seasonalCoef : ℕ → RrdValue
  /-- `last_seasonal_coef` -/
  lastSeasonalCoef : ℕ → RrdValue
  /-- `schedule_smooth` -/
  scheduleSmooth : Bool
  /-- `rrd_file->pos` -/
  pos : ℕ
  /-- the pending error that `rrd_test_error` sees -/
  error : Option UpdError
  /-- the calls of `rrd_notify_row`: RRA and position of every row written -/
  notified : List (ℕ × ℕ)

/-- The result of a step of an update. -/
abbrev UpdResult : Type := Outcome UpdError Upd

/-- The microseconds of a second. -/
def usecPerSec : ℕ := 1000000

/-! ## Parsing an argument -/

/-- The default `tmpl_idx`: entry `0` is the time, then the non-`COMPUTE` DSs, one-based. -/
def tmplIdx (rrd : Rrd) : List ℕ :=
  0 :: ((List.range rrd.dsCnt).filter fun i => (rrd.dsDef i).dst ≠ .cdef).map (· + 1)

/-- The value loop of `parse_ds`: the fields fill `updvals` in template order. -/
def assignFields : List ℕ → List Text → (ℕ → Text) → Except UpdError (ℕ → Text)
  | idx :: idxs, f :: fs, updvals => assignFields idxs fs (Function.update updvals idx f)
  | [], f :: _, _ => .error (.extraData f)
  | _, [], updvals => .ok updvals

/-- `get_time_from_reading`, up to the check against `last_up`. -/
def readTime (env : Env) (at_ : Bool) (input : Text) : Except UpdError (ℤ × ℕ) :=
  if at_ then
    match env.parsetime input with
    | some t => .ok (t, 0)
    | none => .error (.parsetime input)
  else if input = ['N'] then .ok (env.now.1, env.now.2)
  else
    let conv := CStr.strtod input
    if conv.erange then .error (.floatRange input)
    else
      let tmp := if conv.value.lt (.num 0)
        then .num (env.now.1 + (env.now.2 : ℚ) / usecPerSec) + conv.value else conv.value
      -- what does not fit into `time_t` is converted to the least `time_t`
      match tmp with
      | .num q =>
        if -2 ^ 63 ≤ ⌊q⌋ ∧ ⌊q⌋ < 2 ^ 63 then .ok (⌊q⌋, ⌊(q - ⌊q⌋) * usecPerSec⌋.toNat)
        else .ok (-2 ^ 63, 0)
      | _ => .ok (-2 ^ 63, 0)

/-- `get_time_from_reading`. -/
def getTimeFromReading (env : Env) (at_ : Bool) (s : Upd) : UpdResult :=
  match readTime env at_ (s.updvals 0) with
  | .error e => .fail e s
  | .ok (t, usec) =>
    let usec := if s.rrd.version < 3 then 0 else usec
    let s := { s with currentTime := t, currentTimeUsec := usec }
    if t < s.rrd.lastUp ∨ (t = s.rrd.lastUp ∧ usec ≤ s.rrd.lastUpUsec) then
      .fail (.illegalTime t s.rrd.lastUp) s
    else .ok s

/-- Where the time of an argument ends: at the first `@`, else at the first `:`. -/
def cutTime (input : Text) : Option (Bool × Text × Text) :=
  match CStr.cutAt '@' input with
  | some (t, rest) => some (true, t, rest)
  | none => (CStr.cutAt ':' input).map fun p => (false, p.1, p.2)

/-- `parse_ds`, without a template. -/
def parseDs (env : Env) (input : Text) (s : Upd) : UpdResult :=
  let updvals : ℕ → Text := fun i => if i = 0 then input else if i ≤ s.rrd.dsCnt then ['U']
    else s.updvals i
  match cutTime input with
  | none => .fail (.noTimestamp input) { s with updvals := updvals }
  | some (at_, time, rest) =>
    let fields := CStr.splitOn ':' rest
    let updvals := Function.update updvals 0 time
    let idxs := (tmplIdx s.rrd).tail
    -- the first field is stored without a look at the number of entries
    let updvals := match idxs.head? with
      | some idx => Function.update updvals idx (fields.headD [])
      | none => updvals
    match assignFields idxs.tail fields.tail updvals with
    | .error e => .fail e { s with updvals := updvals }
    | .ok updvals =>
      let s := { s with updvals := updvals }
      if fields.length + 1 ≠ (tmplIdx s.rrd).length then
        .fail (.readings ((tmplIdx s.rrd).length - 1) fields.length time) s
      else getTimeFromReading env at_ s

/-- `parse_ds`, with the entries of `tmpl_idx`. -/
def parseDsWith (env : Env) (tmpl : List ℕ) (input : Text) (s : Upd) : UpdResult :=
  let updvals : ℕ → Text := fun i => if i = 0 then input else if i ≤ s.rrd.dsCnt then ['U']
    else s.updvals i
  match cutTime input with
  | none => .fail (.noTimestamp input) { s with updvals := updvals }
  | some (at_, time, rest) =>
    let fields := CStr.splitOn ':' rest
    let updvals := Function.update updvals 0 time
    -- the first field is stored without a look at the number of entries
    let updvals := match tmpl.tail.head? with
      | some idx => Function.update updvals idx (fields.headD [])
      | none => updvals
    match assignFields tmpl.tail.tail fields.tail updvals with
    | .error e => .fail e { s with updvals := updvals }
    | .ok updvals =>
      let s := { s with updvals := updvals }
      if fields.length + 1 ≠ tmpl.length then
        .fail (.readings (tmpl.length - 1) fields.length time) s
      else getTimeFromReading env at_ s

/-- Without a template this is `parseDs`. -/
theorem parseDsWith_tmplIdx (env : Env) (input : Text) (s : Upd) :
    parseDsWith env (tmplIdx s.rrd) input s = parseDs env input s := rfl

/-! ## Primary data points -/

/-- The digits a decimal string starts with, after anything that is not a digit, and
whether a minus sign was met before them (`rrd_diff`). -/
def diffOperand : Text → Bool × Text
  | [] => (false, [])
  | c :: s =>
    if CStr.isdigit c then (false, (c :: s).takeWhile CStr.isdigit)
    else
      let r := diffOperand s
      (c = '-' || r.1, r.2)

/-- The subtraction loop of `rrd_diff`, least significant digit first: the digits of the
result and the final borrow. A missing digit is zero. -/
def diffDigits : ℕ → List ℤ → List ℤ → ℤ → List ℤ × ℤ
  | 0, _, _, c => ([], c)
  | m + 1, as, bs, c =>
    let r := as.headD 0 - c - bs.headD 0
    let (digit, c') := if r < 0 then (r + 10, 1) else if 9 < r then (r - 10, 1) else (r, 0)
    let (ds, cOut) := diffDigits m as.tail bs.tail c'
    (digit :: ds, cOut)

/-- The complement pass of `rrd_diff` after a final borrow. -/
def diffComplement : List ℤ → ℤ → List ℤ
  | [], _ => []
  | d :: ds, c =>
    let r := 9 - d + c
    if 9 < r then (r - 10) :: diffComplement ds 1 else r :: diffComplement ds 0

/-- The number that a list of digits, least significant first, denotes. -/
def leDigitsVal (ds : List ℤ) : ℤ := ds.foldr (fun d n => d + 10 * n) 0

/-- `rrd_diff`. -/
def rrdDiff (a b : Text) : RrdValue :=
  let (aNeg, ad) := diffOperand a
  let (bNeg, bd) := diffOperand b
  if ad = [] ∨ bd = [] then dnan
  else if aNeg ≠ bNeg then dnan
  else
    let m := max ad.length bd.length
    if lastDsLen < m then dnan
    else
      let digits (ds : Text) : List ℤ := (ds.map fun c => (CStr.digitVal c : ℤ)).reverse
      let (ds, c) := diffDigits m (digits ad) (digits bd) 0
      let result : ℤ := if c ≠ 0 then -leDigitsVal (diffComplement ds c) else leDigitsVal ds
      .num (if aNeg ∧ bNeg then -result else result)

/-- The integer check of `COUNTER` and `DERIVE`. -/
def isSimpleInteger (signed : Bool) : Text → Bool
  | [] => true
  | c :: s => (signed && c = '-' || CStr.isdigit c) && s.all CStr.isdigit

/-- The amount and the rate a reading stands for: the `switch` of `update_pdp_prep`. -/
def readValue (dst : Dst) (reading lastDs : Text) (interval : ℚ) :
    Except UpdError (RrdValue × RrdValue) :=
  let convert : Except UpdError RrdValue :=
    let conv := CStr.strtod reading
    if conv.erange then .error (.floatRange reading)
    else if conv.rest ≠ [] then .error (.floatTail reading conv.rest)
    else .ok conv.value
  match dst with
  | .counter =>
    if !isSimpleInteger false reading then .error (.notInteger false reading)
    else if lastDs.head? = some 'U' then .ok (dnan, dnan)
    else
      -- the overflow catcher: a 32 bit counter first, then a 64 bit one
      let d := rrdDiff reading lastDs
      let d := if d.lt (.num 0) then d + .num 4294967296 else d
      let d := if d.lt (.num 0) then d + .num 18446744069414584320 else d
      .ok (d, d / .num interval)
  | .derive =>
    if !isSimpleInteger true reading then .error (.notInteger true reading)
    else if lastDs.head? = some 'U' then .ok (dnan, dnan)
    else .ok (rrdDiff reading lastDs, rrdDiff reading lastDs / .num interval)
  | .absolute => convert.map fun v => (v, v / .num interval)
  | .gauge => convert.map fun v => (v * .num interval, v * .num interval / .num interval)
  -- `DST_CDEF` never gets here
  | .cdef => .ok (dnan, dnan)

/-- Is the rate outside the limits of the DS? -/
def outOfRange (d : DsDef) (rate : RrdValue) : Bool :=
  !rate.isnan && ((!d.maxVal.isnan && d.maxVal.lt rate) || (!d.minVal.isnan && rate.lt d.minVal))

/-- Does DS `d` take the reading, or is it unknown without looking at it? -/
def takesReading (d : DsDef) (reading : Text) (interval : ℚ) : Bool :=
  decide (reading.head? ≠ some 'U') && decide (d.dst ≠ .cdef) && decide (interval ≤ d.mrhbCnt)

/-- One pass of the loop of `update_pdp_prep`. -/
def updatePdpPrepDs (interval : ℚ) (i : ℕ) (s : Upd) : UpdResult :=
  let d := s.rrd.dsDef i
  let reading := s.updvals (i + 1)
  let setLastDs (s : Upd) (t : Text) : Upd :=
    { s with rrd := { s.rrd with
        pdpPrep := Function.update s.rrd.pdpPrep i { s.rrd.pdpPrep i with lastDs := t } } }
  -- make sure we do not build diffs with old last_ds values
  let s := if (d.mrhbCnt : ℚ) < interval then setLastDs s ['U'] else s
  if takesReading d reading interval then
    match readValue d.dst reading (s.rrd.pdpPrep i).lastDs interval with
    | .error e => .fail e s
    | .ok (v, rate) =>
      let v := if outOfRange d rate then dnan else v
      .ok (setLastDs { s with pdpNew := Function.update s.pdpNew i v }
        (CStr.strncpy reading (lastDsLen - 1)))
  else
    .ok (setLastDs { s with pdpNew := Function.update s.pdpNew i dnan }
      (CStr.strncpy reading (lastDsLen - 1)))

/-- `update_pdp_prep`. -/
def updatePdpPrep (interval : ℚ) (s : Upd) : UpdResult :=
  forLoopE s.rrd.dsCnt (updatePdpPrepDs interval) s

/-- What `calculate_elapsed_steps` hands back. -/
structure Elapsed : Type where
  /-- the return value, as `elapsed_pdp_st` receives it -/
  elapsedPdpSt : ℕ
  /-- `pre_int` -/
  preInt : ℚ
  /-- `post_int` -/
  postInt : ℚ
  /-- `proc_pdp_cnt` -/
  procPdpCnt : ℕ
  deriving DecidableEq

/-- A 64 bit value returned as `int` and stored into an `unsigned long`. -/
def throughInt (n : ℕ) : ℕ :=
  if n % 2 ^ 32 < 2 ^ 31 then n % 2 ^ 32 else 2 ^ 64 - 2 ^ 32 + n % 2 ^ 32

/-- `calculate_elapsed_steps`. -/
def calculateElapsedSteps (rrd : Rrd) (currentTime currentTimeUsec : ℕ) (interval : ℚ) :
    Elapsed :=
  let procPdpAge := rrd.lastUp % rrd.pdpStep
  let procPdpSt := rrd.lastUp - procPdpAge
  let occuPdpAge := currentTime % rrd.pdpStep
  let occuPdpSt := currentTime - occuPdpAge
  let passed := procPdpSt < occuPdpSt
  { elapsedPdpSt := throughInt ((occuPdpSt - procPdpSt) / rrd.pdpStep)
    preInt := if passed
      then ((occuPdpSt : ℚ) - rrd.lastUp) - (rrd.lastUpUsec : ℚ) / usecPerSec else interval
    postInt := if passed then occuPdpAge + (currentTimeUsec : ℚ) / usecPerSec else 0
    procPdpCnt := procPdpSt / rrd.pdpStep }

/-- `simple_update`. -/
def simpleUpdate (interval : ℚ) (s : Upd) : Upd :=
  forLoop s.rrd.dsCnt (fun i s =>
    let p := s.rrd.pdpPrep i
    let p' :=
      if (s.pdpNew i).isnan then { p with unknSecCnt := p.unknSecCnt + ⌊interval⌋.toNat }
      else if p.pdpVal.isnan then { p with pdpVal := s.pdpNew i }
      else { p with pdpVal := p.pdpVal + s.pdpNew i }
    { s with rrd := { s.rrd with pdpPrep := Function.update s.rrd.pdpPrep i p' } }) s

/-- `process_pdp_st`. -/
def processPdpSt (lib : Libm) (interval preInt postInt : ℚ) (diffPdpSt : ℕ) (i : ℕ) (s : Upd) :
    UpdResult :=
  let d := s.rrd.dsDef i
  let p := s.rrd.pdpPrep i
  let new := s.pdpNew i
  let preUnknown : ℚ := if new.isnan then preInt else 0
  let p := if new.isnan then p
    else { p with pdpVal :=
      (if p.pdpVal.isnan then .num 0 else p.pdpVal) + new / .num interval * .num preInt }
  let setPrep (s : Upd) (p : PdpPrep) : Upd :=
    { s with rrd := { s.rrd with pdpPrep := Function.update s.rrd.pdpPrep i p } }
  let s := setPrep s p
  -- if too much of the pdp_prep is unknown we dump it
  let temp : RrdValue :=
    if (d.mrhbCnt : ℚ) < interval ∨ (s.rrd.pdpStep : ℚ) / 2 < p.unknSecCnt then dnan
    else p.pdpVal / .num ((diffPdpSt : ℚ) - p.unknSecCnt - preUnknown)
  let s := { s with pdpTemp := Function.update s.pdpTemp i temp }
  let ready : PdpPrep :=
    if new.isnan then { p with unknSecCnt := ⌊postInt⌋.toNat, pdpVal := dnan }
    else { p with unknSecCnt := 0, pdpVal := new / .num interval * .num postInt }
  if d.dst = .cdef then
    match computeDs lib d.cdef s.pdpTemp i with
    | .error e => .fail (.rpn e) s
    | .ok v => .ok (setPrep { s with pdpTemp := Function.update s.pdpTemp i v } ready)
  else .ok (setPrep s ready)

/-- `process_all_pdp_st`. -/
def processAllPdpSt (lib : Libm) (interval : ℚ) (el : Elapsed) (s : Upd) : UpdResult :=
  forLoopE s.rrd.dsCnt
    (processPdpSt lib interval el.preInt el.postInt (el.elapsedPdpSt * s.rrd.pdpStep)) s

/-! ## Consolidated data points -/

/-- Arithmetic in `unsigned long`. -/
def ulong (n : ℕ) : ℕ := n % 2 ^ 64

/-- `lookup_seasonal`: the row `offset` after the current one, and the error it may set. -/
def lookupSeasonal (s : Upd) (rraIdx offset : ℕ) : Upd × (ℕ → RrdValue) :=
  let rowIdx := ulong (s.rrd.curRow rraIdx + offset) % (s.rrd.rraDef rraIdx).rowCnt
  let posTmp := s.rrd.rraStart rraIdx + rowIdx * s.rrd.dsCnt
  let error := if s.rrd.valueCnt < posTmp + s.rrd.dsCnt then some (.lookupSeasonal posTmp)
    else s.error
  ({ s with pos := posTmp + s.rrd.dsCnt, error := error }, fun d => s.rrd.values (posTmp + d))

/-- `BURNIN_CYCLES`. -/
def burninCycles : ℕ := 3

/-- `do_schedule_smooth`. -/
def doScheduleSmooth (rrd : Rrd) (rraIdx elapsedPdpSt : ℕ) : Rrd × Bool :=
  let cdpIdx := rraIdx * rrd.dsCnt
  let reached := ulong (rrd.curRow rraIdx + elapsedPdpSt)
  let rra := rrd.rraDef rraIdx
  let c := rrd.cdpPrep cdpIdx
  if burninCycles < c.initSeasonal then
    if rrd.curRow rraIdx < rra.seasonalSmoothIdx then
      (rrd, decide (rra.seasonalSmoothIdx ≤ reached))
    else
      (rrd, decide (rra.rowCnt ≤ reached ∧ rra.rowCnt + rra.seasonalSmoothIdx ≤ reached))
  else if rra.rowCnt ≤ reached then
    -- mark off one of the burn-in cycles
    (rrd.setCdp cdpIdx { c with nullCount := c.nullCount + 1 }, true)
  else (rrd, false)

/-- `IFDNAN`. -/
def ifDnan (x y : RrdValue) : RrdValue := if x.isnan then y else x

/-- `initialize_cdp_val`: the new `CDP_primary_val`. -/
def initializeCdpVal (c : CdpPrep) (cf : Cf) (pdpTempVal : RrdValue)
    (startPdpOffset pdpCnt : ℕ) : RrdValue :=
  match cf with
  | .average =>
    (ifDnan c.cdpVal (.num 0) + ifDnan pdpTempVal (.num 0) * Dbl.ofNat startPdpOffset)
      / Dbl.ofNat (pdpCnt - c.unknPdpCnt)
  | .maximum =>
    let cumVal := ifDnan c.cdpVal .neginf
    let curVal := ifDnan pdpTempVal .neginf
    if cumVal.lt curVal then curVal else cumVal
  | .minimum =>
    let cumVal := ifDnan c.cdpVal .inf
    let curVal := ifDnan pdpTempVal .inf
    if curVal.lt cumVal then curVal else cumVal
  | _ => pdpTempVal

/-- The first `switch` of `initialize_carry_over`: nothing is carried over. -/
def noCarryOver : Cf → RrdValue
  | .maximum => .neginf
  | .minimum => .inf
  | .average => .num 0
  | _ => dnan

/-- `initialize_carry_over`. -/
def initializeCarryOver (pdpTempVal : RrdValue) (cf : Cf)
    (elapsedPdpSt startPdpOffset pdpCnt : ℕ) : RrdValue :=
  let pdpIntoCdpCnt := (elapsedPdpSt - startPdpOffset) % pdpCnt
  if pdpIntoCdpCnt = 0 ∨ pdpTempVal.isnan then noCarryOver cf
  else if cf = .average then pdpTempVal * Dbl.ofNat pdpIntoCdpCnt
  else pdpTempVal

/-- `calculate_cdp_val`. -/
def calculateCdpVal (cdpVal pdpTempVal : RrdValue) (elapsedPdpSt : ℕ) (cf : Cf) : RrdValue :=
  if cdpVal.isnan then
    if cf = .average then pdpTempVal * Dbl.ofNat elapsedPdpSt else pdpTempVal
  else
    match cf with
    | .average => cdpVal + pdpTempVal * Dbl.ofNat elapsedPdpSt
    | .minimum => if pdpTempVal.lt cdpVal then pdpTempVal else cdpVal
    | .maximum => if cdpVal.lt pdpTempVal then pdpTempVal else cdpVal
    | _ => pdpTempVal

/-- `update_cdp`. -/
def updateCdp (c : CdpPrep) (cf : Cf) (pdpTempVal : RrdValue)
    (rraStepCnt elapsedPdpSt startPdpOffset pdpCnt : ℕ) (xff : RrdValue) : CdpPrep :=
  if rraStepCnt ≠ 0 then
    let c := if pdpTempVal.isnan
      then { c with unknPdpCnt := c.unknPdpCnt + startPdpOffset, secondaryVal := dnan }
      else { c with secondaryVal := pdpTempVal }
    let c := { c with primaryVal :=
      if (Dbl.ofNat pdpCnt * xff).lt (Dbl.ofNat c.unknPdpCnt) then dnan
      else initializeCdpVal c cf pdpTempVal startPdpOffset pdpCnt }
    -- the carry over comes last, the primary value needs the old count of unknowns
    { c with
      cdpVal := initializeCarryOver pdpTempVal cf elapsedPdpSt startPdpOffset pdpCnt,
      unknPdpCnt := if pdpTempVal.isnan then (elapsedPdpSt - startPdpOffset) % pdpCnt else 0 }
  else if pdpTempVal.isnan then { c with unknPdpCnt := c.unknPdpCnt + elapsedPdpSt }
  else { c with cdpVal := calculateCdpVal c.cdpVal pdpTempVal elapsedPdpSt cf }

/-- `reset_cdp`. -/
def resetCdp (rra : RraDef) (c : CdpPrep) (elapsedPdpSt : ℕ)
    (pdpTempVal lastSeasonal seasonal : RrdValue) : CdpPrep :=
  match rra.cf with
  | .seasonal | .devseasonal => { c with hwLastIntercept := lastSeasonal, hwIntercept := seasonal }
  | .hwpredict | .mhwpredict =>
    { c with
      nullCount := c.nullCount + elapsedPdpSt,
      lastNullCount := c.lastNullCount + (elapsedPdpSt - 1),
      primaryVal := dnan, secondaryVal := dnan }
  | .devpredict => { c with primaryVal := dnan, secondaryVal := dnan }
  | .failures => eraseViolations rra { c with primaryVal := .num 0, secondaryVal := .num 0 }
  | _ => { c with primaryVal := pdpTempVal, secondaryVal := pdpTempVal }

/-- The choice in the loop of `update_cdp_prep`: nothing to consolidate with one PDP per CDP,
but a bulk update has to reset what is prepared. -/
def prepareCdp (rra : RraDef) (c : CdpPrep) (pdpTempVal : RrdValue)
    (rraStepCnt elapsedPdpSt startPdpOffset : ℕ) (lastSeasonal seasonal : RrdValue) : CdpPrep :=
  if 1 < rra.pdpCnt then
    updateCdp c rra.cf pdpTempVal rraStepCnt elapsedPdpSt startPdpOffset rra.pdpCnt rra.xffVal
  else if 2 < elapsedPdpSt then resetCdp rra c elapsedPdpSt pdpTempVal lastSeasonal seasonal
  else c

/-- One pass of the loop of `update_cdp_prep`. -/
def updateCdpPrepDs (elapsedPdpSt startPdpOffset rraIdx dsIdx : ℕ) (s : Upd) : Upd :=
  let idx := s.rrd.cdpIdx rraIdx dsIdx
  let c := prepareCdp (s.rrd.rraDef rraIdx) (s.rrd.cdpPrep idx) (s.pdpTemp dsIdx)
    (s.rraStepCnt rraIdx) elapsedPdpSt startPdpOffset (s.lastSeasonalCoef dsIdx)
    (s.seasonalCoef dsIdx)
  { s with rrd := s.rrd.setCdp idx c }

/-- `update_cdp_prep`; no error can be pending inside its loop. -/
def updateCdpPrep (elapsedPdpSt startPdpOffset rraIdx : ℕ) (s : Upd) : Upd :=
  forLoop s.rrd.dsCnt (updateCdpPrepDs elapsedPdpSt startPdpOffset rraIdx) s

/-- `start_pdp_offset`: the PDPs that complete the current CDP of an RRA. -/
def startPdpOffset (pdpCnt procPdpCnt : ℕ) : ℕ := pdpCnt - procPdpCnt % pdpCnt

/-- `rra_step_cnt`: the rows an RRA gets. -/
def rraSteps (pdpCnt procPdpCnt elapsedPdpSt : ℕ) : ℕ :=
  let offset := startPdpOffset pdpCnt procPdpCnt
  if offset ≤ elapsedPdpSt then (elapsedPdpSt - offset) / pdpCnt + 1 else 0

/-- A bulk update skips ahead in a seasonal array: the two lookups of
`update_all_cdp_prep`. -/
def skipAhead (elapsedPdpSt rraIdx : ℕ) (s : Upd) : Upd :=
  let r := lookupSeasonal s rraIdx elapsedPdpSt
  let r' := lookupSeasonal r.1 rraIdx (elapsedPdpSt + 1)
  { r'.1 with
    skipUpdate := Function.update s.skipUpdate rraIdx true,
    lastSeasonalCoef := r.2, seasonalCoef := r'.2 }

/-- The seasonal part of one pass of `update_all_cdp_prep`: look ahead on a bulk update, and
decide about a smoothing run. -/
def scheduleSeasonal (elapsedPdpSt rraIdx : ℕ) (s : Upd) : Upd :=
  let s := if 1 < s.rraStepCnt rraIdx then skipAhead elapsedPdpSt rraIdx s else s
  let r := doScheduleSmooth s.rrd rraIdx elapsedPdpSt
  { s with rrd := r.1, scheduleSmooth := s.scheduleSmooth || r.2 }

/-- `rrd_test_error`, where the caller returns on an error. -/
def testError (s : Upd) : UpdResult :=
  match s.error with
  | some e => .fail e s
  | none => .ok s

/-- One pass of `update_all_cdp_prep` before the preparation areas: how many rows the RRA
gets, whether they are skipped, and the seasonal part. -/
def prepareRra (elapsedPdpSt procPdpCnt rraIdx : ℕ) (s : Upd) : Upd :=
  let rra := s.rrd.rraDef rraIdx
  let s := { s with
    skipUpdate := Function.update s.skipUpdate rraIdx false,
    rraStepCnt := Function.update s.rraStepCnt rraIdx
      (rraSteps rra.pdpCnt procPdpCnt elapsedPdpSt) }
  if rra.cf.isSeasonal then scheduleSeasonal elapsedPdpSt rraIdx s else s

/-- One pass of the loop of `update_all_cdp_prep`. -/
def updateAllCdpPrepRra (elapsedPdpSt procPdpCnt rraIdx : ℕ) (s : Upd) : UpdResult :=
  (testError (prepareRra elapsedPdpSt procPdpCnt rraIdx s)).andThen fun t =>
    .ok (updateCdpPrep elapsedPdpSt
      (startPdpOffset (s.rrd.rraDef rraIdx).pdpCnt procPdpCnt) rraIdx t)

/-- `update_all_cdp_prep`. -/
def updateAllCdpPrep (elapsedPdpSt procPdpCnt : ℕ) (s : Upd) : UpdResult :=
  forLoopE s.rrd.rraCnt (updateAllCdpPrepRra elapsedPdpSt procPdpCnt) s

/-- The lookup of `update_aberrant_cdps`: one row further for the second pass. -/
def lookupAhead (elapsedPdpSt : ℕ) (sc : ScratchIdx) (rraIdx : ℕ) (s : Upd) : Upd :=
  if (s.rrd.rraDef rraIdx).cf.isSeasonal then
    let r := lookupSeasonal s rraIdx (elapsedPdpSt + if sc = .primary then 1 else 2)
    { r.1 with seasonalCoef := r.2 }
  else s

/-- The DS loop of `update_aberrant_cdps`. -/
def aberrantLoop (sc : ScratchIdx) (rraIdx : ℕ) (s : Upd) : Upd :=
  forLoop s.rrd.dsCnt (fun dsIdx s => { s with
    rrd := updateAberrantCF s.rrd (s.pdpTemp dsIdx) rraIdx dsIdx sc s.seasonalCoef }) s

/-- One RRA of one pass of `update_aberrant_cdps`. -/
def updateAberrantRra (elapsedPdpSt : ℕ) (sc : ScratchIdx) (rraIdx : ℕ) (s : Upd) : UpdResult :=
  if (s.rrd.rraDef rraIdx).pdpCnt = 1 then
    (testError (lookupAhead elapsedPdpSt sc rraIdx s)).andThen fun s =>
      .ok (aberrantLoop sc rraIdx s)
  else .ok s

/-- One pass of `update_aberrant_cdps` over all RRAs. -/
def updateAberrantPass (elapsedPdpSt : ℕ) (sc : ScratchIdx) (s : Upd) : UpdResult :=
  forLoopE s.rrd.rraCnt (updateAberrantRra elapsedPdpSt sc) s

/-- `update_aberrant_cdps`: no pass on a bulk update, else one pass for each elapsed step. -/
def updateAberrantCdps (elapsedPdpSt : ℕ) (s : Upd) : UpdResult :=
  if elapsedPdpSt = 1 then updateAberrantPass elapsedPdpSt .primary s
  else if elapsedPdpSt = 2 then
    (updateAberrantPass elapsedPdpSt .primary s).andThen
      (updateAberrantPass elapsedPdpSt .secondary)
  else .ok s

/-! ## Writing rows -/

/-- `rrd_write` of one value at the current position. -/
def rrdWrite (v : RrdValue) (s : Upd) : UpdResult :=
  if s.rrd.valueCnt < s.pos + 1 then .fail (.writeBeyondEnd s.pos) s
  else .ok { s with
    rrd := { s.rrd with values := Function.update s.rrd.values s.pos v }, pos := s.pos + 1 }

/-- `write_RRA_row`. -/
def writeRRARow (rraIdx : ℕ) (sc : ScratchIdx) (s : Upd) : UpdResult :=
  forLoopE s.rrd.dsCnt (fun dsIdx s =>
    rrdWrite ((s.rrd.cdpPrep (s.rrd.cdpIdx rraIdx dsIdx)).scratch sc) s) s

/-- The start of one pass of the inner loop of `write_to_rras`: advance the row, with
wrap-around, and seek to it. -/
def seekNextRow (rraIdx : ℕ) (s : Upd) : Upd :=
  let curRow := Ring.next (s.rrd.rraDef rraIdx).rowCnt (s.rrd.curRow rraIdx)
  { s with
    rrd := { s.rrd with curRow := Function.update s.rrd.curRow rraIdx curRow },
    pos := s.rrd.rraStart rraIdx + s.rrd.dsCnt * curRow }

/-- One pass of the inner loop of `write_to_rras`; a skipped row is passed over. -/
def writeNextRow (rraIdx : ℕ) (sc : ScratchIdx) (s : Upd) : UpdResult :=
  let u := seekNextRow rraIdx s
  if u.skipUpdate rraIdx then .ok u
  else (writeRRARow rraIdx sc u).andThen fun t =>
    .ok { t with notified := t.notified ++ [(rraIdx, u.pos)] }

/-- The inner loop of `write_to_rras`, which counts `rra_step_cnt` down. -/
def writeRows (rraIdx : ℕ) : ℕ → ScratchIdx → Upd → UpdResult
  | 0, _, s => .ok s
  | n + 1, sc, s => (writeNextRow rraIdx sc s).andThen fun s =>
    writeRows rraIdx n .secondary { s with rraStepCnt := Function.update s.rraStepCnt rraIdx n }

/-- `write_to_rras`. -/
def writeToRras (s : Upd) : UpdResult :=
  forLoopE s.rrd.rraCnt (fun rraIdx s => writeRows rraIdx (s.rraStepCnt rraIdx) .primary s) s

/-! ## Arguments and calls -/

/-- `interval`: the time since the last update. -/
def updateInterval (s : Upd) : ℚ :=
  ((s.currentTime : ℚ) - s.rrd.lastUp)
    + ((s.currentTimeUsec : ℚ) - s.rrd.lastUpUsec) / usecPerSec

/-- `process_arg` after `update_pdp_prep`: the PDPs, the CDPs and the rows. -/
def processPdps (env : Env) (interval : ℚ) (s : Upd) : UpdResult :=
  let el := calculateElapsedSteps s.rrd s.currentTime.toNat s.currentTimeUsec interval
  if el.elapsedPdpSt = 0 then .ok (simpleUpdate interval s)
  else
    (((processAllPdpSt env.lib interval el s).andThen
      (updateAllCdpPrep el.elapsedPdpSt el.procPdpCnt)).andThen
      (updateAberrantCdps el.elapsedPdpSt)).andThen writeToRras

/-- The last lines of `process_arg`. -/
def setLastUp (s : Upd) : Upd :=
  { s with rrd := { s.rrd with
      lastUp := s.currentTime.toNat, lastUpUsec := s.currentTimeUsec } }

/-- `process_arg`. -/
def processArg (env : Env) (arg : Text) (s : Upd) : UpdResult :=
  (parseDs env arg s).andThen fun s =>
    let interval := updateInterval s
    ((updatePdpPrep interval s).andThen (processPdps env interval)).andThen fun s =>
      .ok (setLastUp s)

/-- `process_arg` behind `parse_ds`. -/
def processReadings (env : Env) (s : Upd) : UpdResult :=
  ((updatePdpPrep (updateInterval s) s).andThen (processPdps env (updateInterval s))).andThen
    fun s => .ok (setLastUp s)

theorem processArg_eq (env : Env) (arg : Text) (s : Upd) :
    processArg env arg s = (parseDs env arg s).andThen (processReadings env) := rfl

/-- The argument loop of `_rrd_update`: it stops at the first argument that fails. -/
def processArgs (env : Env) : List Text → Upd → UpdResult
  | [], s => .ok s
  | arg :: args, s => (processArg env arg s).andThen (processArgs env args)

/-- The state the argument loop starts in; `junk` is what the allocated arrays hold. -/
def Upd.start (junk : Upd) (rrd : Rrd) : Upd :=
  { junk with rrd := rrd, scheduleSmooth := false, pos := 0, error := none, notified := [] }

/-- Working storage that happens to be zero. -/
def Upd.blank (rrd : Rrd) : Upd where
  rrd := rrd
  updvals := fun _ => []
  currentTime := 0
  currentTimeUsec := 0
  pdpNew := fun _ => .num 0
  pdpTemp := fun _ => .num 0
  rraStepCnt := fun _ => 0
  skipUpdate := fun _ => false
  seasonalCoef := fun _ => .num 0
  lastSeasonalCoef := fun _ => .num 0
  scheduleSmooth := false
  pos := 0
  error := none
  notified := []

/-- Surroundings in which no at-style time parses and no function of `libm` is known. -/
def Env.bare : Env where
  lib := ⟨fun _ => dnan, fun _ => dnan, fun _ => dnan, fun _ => dnan, fun _ => dnan,
    fun _ => dnan, fun _ _ => dnan, .num 1000000000, .num 0⟩
  now := (1000000000, 0)
  parsetime := fun _ => none

/-- `_rrd_update` on a file that `rrd_open` accepts, without a template. Smoothing runs once,
after the last argument, and not at all after an error. -/
def rrdUpdate (env : Env) (junk : Upd) (args : List Text) (rrd : Rrd) : Outcome UpdError Rrd :=
  match processArgs env args (junk.start rrd) with
  | .fail e s => .fail e s.rrd
  | .ok s => .ok (if s.scheduleSmooth then smoothAllRras s.rrd else s.rrd)

end Rrdtool
