import Rrdtool.Created
import Rrdtool.Reach

/-!
# `rrd_tune`

Every option of `rrd_tune` stores into one field of the mapped header. The `par` array of a data
source is a union: the heartbeat and the limits of most types lie where the program of a
`COMPUTE` data source lies, and the options store into it without a look at the type. So this file
keeps the array as what has last been stored into each of its cells.

* `tune_keeps_invariants` — options that fit (`Fits`) keep what `rrd_create_r` enforces;
* `tune_duplicates_name` — a data source renamed to the name of another one;
* `tune_fail_unchanged_iff` — when a call that is refused leaves the file as it was.
-/

namespace Rrdtool

open Loop

/-! ## The `par` array -/

/-- What has been stored into a `unival` of `ds_def_t.par`. -/
inductive Unival : Type where
  /-- `u_cnt` -/
  | cnt (n : ℕ)
  /-- `u_val` -/
  | val (v : RrdValue)
  /-- two nodes of a program; `none` is `OP_END` -/
  | nodes (a b : Option RpnCdefds)
  deriving DecidableEq

/-- `ds_def_t`. -/
structure RawDs : Type where
  /-- `ds_nam` -/
  dsNam : Text
  /-- `dst`, after `dst_conv` -/
  dst : Dst
  /-- `par` -/
  par : ℕ → Unival

/-- Node `k` of the bytes that a program leaves in the array: `OP_END` follows it, and zeros. -/
def storedNode (prog : List RpnCdefds) (k : ℕ) : Option RpnCdefds :=
  if k = prog.length then none else some (prog.getD k ⟨.number, 0⟩)

/-- The array that `rrd_create_r` has filled. -/
def DsPar.raw : DsPar → ℕ → Unival
  | .generic mrhb lo hi => fun i =>
    if i = 0 then .cnt mrhb else if i = 1 then .val lo else if i = 2 then .val hi else .cnt 0
  | .cdef prog => fun i => .nodes (storedNode prog (2 * i)) (storedNode prog (2 * i + 1))

/-- The definition of a DS with its `par` array. -/
def DsDef.raw (d : DsDef) : RawDs := ⟨d.dsNam, d.dst, d.par.raw⟩

/-- An RRD that is being tuned. -/
structure TuneRrd : Type where
  /-- everything but `ds_def` -/
  rrd : Rrd
  /-- `ds_def` -/
  ds : ℕ → RawDs

/-- The RRD as `rrd_open` maps it. -/
def TuneRrd.open (r : Rrd) : TuneRrd := ⟨r, fun i => (r.dsDef i).raw⟩

/-! ## Options -/

/-- The options of `rrd_tune`. -/
inductive TuneOpt : Type where
  | heartbeat | minimum | maximum | dataSourceType | dataSourceRename | deltapos | deltaneg
  | windowLength | failureThreshold | alpha | beta | gamma | gammaDeviation | smoothingWindow
  | smoothingWindowDeviation | aberrantReset | unknown
  deriving DecidableEq

/-- The errors of `rrd_tune`. -/
inductive TuneError : Type where
  /-- `invalid arguments for heartbeat` and its likes -/
  | arguments (opt : TuneOpt)
  /-- `unknown data source name '%s'` -/
  | unknownDs (name : Text)
  /-- `unknown data acquisition function '%s'` -/
  | unknownDst (name : Text)
  /-- `Holt-Winters parameter must be between 0 and 1` -/
  | hwRange
  /-- `Parameter specified is too small` -/
  | tooSmall
  /-- `Parameter must be between %d and %d` -/
  | windowRange
  /-- `Holt-Winters RRA does not exist in this RRD`, `Failures RRA does not exist in this RRD` -/
  | noRra
  /-- an RRA beyond `SHRT_MAX` is stored to at a negative index -/
  | outOfBounds
  /-- `reset_aberrant_coefficients: write failed data source %lu rra %s` -/
  | writeFailed
  /-- `unknown option '%s'` -/
  | unknownOption
  deriving DecidableEq

/-- The result of an option. The header is mapped, so an error takes nothing back. -/
abbrev TuneResult : Type := Outcome TuneError TuneRrd

/-- `ds_match`: the first DS of this name. -/
def TuneRrd.dsMatch (s : TuneRrd) (name : Text) : Option ℕ :=
  (List.range s.rrd.dsCnt).find? fun i => (s.ds i).dsNam = name

/-- Store into the definition of DS `i`. -/
def TuneRrd.setDs (s : TuneRrd) (i : ℕ) (d : RawDs) : TuneRrd :=
  { s with ds := Function.update s.ds i d }

/-- Store into cell `k` of the `par` array of DS `i`. -/
def TuneRrd.setPar (s : TuneRrd) (i k : ℕ) (u : Unival) : TuneRrd :=
  s.setDs i { s.ds i with par := Function.update (s.ds i).par k u }

/-- The DS an argument starts with, and what follows its name. -/
def scanDs (arg : Text) : Option (Text × Text) := CStr.scanSet 19 isNameChar arg

/-- `DS_NAM_FMT ":%ld"`. -/
def scanHeartbeat (arg : Text) : Option (Text × ℤ) :=
  (scanDs arg).bind fun (name, r) => (CStr.scanChar ':' r).bind fun r =>
    (CStr.scanLong r).map fun (v, _) => (name, v)

/-- `DS_NAM_FMT ":%lf"`: a missing number is an unknown limit. -/
def scanLimit (arg : Text) : Option (Text × RrdValue) :=
  (scanDs arg).map fun (name, r) =>
    (name, (((CStr.scanChar ':' r).bind CStr.scanDouble).map Prod.fst).getD dnan)

/-- `DS_NAM_FMT ":" DST_FMT`. -/
def scanType (arg : Text) : Option (Text × Text) :=
  (scanDs arg).bind fun (name, r) => (CStr.scanChar ':' r).bind fun r =>
    (CStr.scanSet 19 CStr.isupper r).map fun (type, _) => (name, type)

/-- `DS_NAM_FMT ":" DS_NAM_FMT`. -/
def scanRename (arg : Text) : Option (Text × Text) :=
  (scanDs arg).bind fun (name, r) => (CStr.scanChar ':' r).bind fun r =>
    (CStr.scanSet 19 isNameChar r).map fun (new, _) => (name, new)

/-- An option about one DS: the argument is scanned, the DS is looked up and stored to. -/
def tuneDs {α : Type} (opt : TuneOpt) (scanned : Option (Text × α))
    (store : ℕ → α → TuneRrd → TuneResult) (s : TuneRrd) : TuneResult :=
  match scanned with
  | none => .fail (.arguments opt) s
  | some (name, v) =>
    match s.dsMatch name with
    | none => .fail (.unknownDs name) s
    | some i => store i v s

/-- `data-source-type`: nothing but the type and the last reading is changed. -/
def setType (i : ℕ) (type : Text) (s : TuneRrd) : TuneResult :=
  match dstConv type with
  | none => .fail (.unknownDst type) s
  | some dst =>
    if (s.ds i).dst = dst then .ok s
    else
      let prep := { s.rrd.pdpPrep i with lastDs := "UNKN".toList }
      .ok { (s.setDs i { s.ds i with dst := dst }) with
        rrd := { s.rrd with pdpPrep := Function.update s.rrd.pdpPrep i prep } }

/-- The first RRA of CF `cf`. -/
def TuneRrd.findRra (s : TuneRrd) (cf : Cf) : Option ℕ :=
  (List.range s.rrd.rraCnt).find? fun i => (s.rrd.rraDef i).cf = cf

/-- An option about the first RRA of a CF, whose index is kept in a `short`. -/
def tuneRra (cf : Cf) (store : ℕ → RraDef → TuneRrd → TuneRrd) (s : TuneRrd) : TuneResult :=
  match s.findRra cf with
  | none => .fail .noRra s
  | some i => if 2 ^ 15 ≤ i then .fail .outOfBounds s else .ok (store i (s.rrd.rraDef i) s)

/-- Store the definition of RRA `i`. -/
def TuneRrd.setRra (s : TuneRrd) (i : ℕ) (r : RraDef) : TuneRrd :=
  { s with rrd := { s.rrd with rraDef := Function.update s.rrd.rraDef i r } }

/-- `set_hwarg`. -/
def setHwarg (cf : Cf) (store : RraDef → RrdValue → RraDef) (arg : Text) (s : TuneRrd) :
    TuneResult :=
  if outsideUnit (CStr.atof arg) then .fail .hwRange s
  else tuneRra cf (fun i r s => s.setRra i (store r (CStr.atof arg))) s

/-- `set_hwsmootharg`. -/
def setHwsmootharg (cf : Cf) (arg : Text) (s : TuneRrd) : TuneResult :=
  if (CStr.atof arg).lt (.num 0) || Dbl.lt (.num 1) (CStr.atof arg) then .fail .hwRange s
  else tuneRra cf (fun i r s => s.setRra i { r with hwBeta := CStr.atof arg }) s

/-- `set_deltaarg`. -/
def setDeltaarg (store : RraDef → RrdValue → RraDef) (arg : Text) (s : TuneRrd) : TuneResult :=
  if (CStr.atof arg).lt (.num (1 / 10)) then .fail .tooSmall s
  else tuneRra .failures (fun i r s => s.setRra i (store r (CStr.atof arg))) s

/-- `set_windowarg`; the violations of all data sources are forgotten. -/
def setWindowarg (store : RraDef → ℕ → RraDef) (arg : Text) (s : TuneRrd) : TuneResult :=
  let param := toUlong (CStr.atoi arg)
  if param < 1 ∨ maxFailuresWindowLen < param then .fail .windowRange s
  else
    tuneRra .failures (fun i r s =>
      let s := s.setRra i (store r param)
      { s with rrd := forLoop s.rrd.dsCnt (fun d rrd => rrd.setCdp (rrd.cdpIdx i d)
        (eraseViolations (store r param) (rrd.cdpPrep (rrd.cdpIdx i d)))) s.rrd }) s

/-- One RRA of `reset_aberrant_coefficients`. -/
def resetAberrantRra (dsIdx i : ℕ) (rrd : Rrd) : Outcome TuneError Rrd :=
  let idx := rrd.cdpIdx i dsIdx
  let c := rrd.cdpPrep idx
  match (rrd.rraDef i).cf with
  | .hwpredict | .mhwpredict => .ok (rrd.setCdp idx (initHwpredictCdp c))
  | .seasonal | .devseasonal =>
    forLoopE (rrd.rraDef i).rowCnt (fun row t =>
      let pos := t.rraStart i + dsIdx + row * t.dsCnt
      if t.valueCnt < pos + 1 then .fail .writeFailed t
      else .ok { t with values := Function.update t.values pos dnan })
      (rrd.setCdp idx { c with hwIntercept := dnan, hwLastIntercept := dnan })
  | .failures => .ok (rrd.setCdp idx (eraseViolations (rrd.rraDef i) c))
  | _ => .ok rrd

/-- `reset_aberrant_coefficients`. -/
def resetAberrantCoefficients (dsIdx : ℕ) (rrd : Rrd) : Outcome TuneError Rrd :=
  forLoopE rrd.rraCnt (resetAberrantRra dsIdx) rrd

/-- `aberrant-reset`. -/
def aberrantReset (i : ℕ) (s : TuneRrd) : TuneResult :=
  match resetAberrantCoefficients i s.rrd with
  | .fail e rrd => .fail e { s with rrd := rrd }
  | .ok rrd => .ok { s with rrd := rrd }

/-- The two tries of `alpha` and `beta`. -/
def setHwpredict (store : RraDef → RrdValue → RraDef) (arg : Text) (s : TuneRrd) : TuneResult :=
  match setHwarg .hwpredict store arg s with
  | .ok s => .ok s
  | .fail _ s => setHwarg .mhwpredict store arg s

/-- `smoothing-window` asks for version 4, whatever becomes of it. -/
def withVersion4 (s : TuneRrd) : TuneRrd := { s with rrd := { s.rrd with version := 4 } }

/-- One option. -/
def tuneOption (opt : TuneOpt) (arg : Text) (s : TuneRrd) : TuneResult :=
  match opt with
  | .heartbeat => tuneDs opt (scanHeartbeat arg) (fun i v s => .ok (s.setPar i 0 (.cnt (toUlong v)))) s
  | .minimum => tuneDs opt (scanLimit arg) (fun i v s => .ok (s.setPar i 1 (.val v))) s
  | .maximum => tuneDs opt (scanLimit arg) (fun i v s => .ok (s.setPar i 2 (.val v))) s
  | .dataSourceType => tuneDs opt (scanType arg) setType s
  | .dataSourceRename =>
    tuneDs opt (scanRename arg) (fun i new s => .ok (s.setDs i { s.ds i with dsNam := new })) s
  | .deltapos => setDeltaarg (fun r v => { r with hwAlpha := v }) arg s
  | .deltaneg => setDeltaarg (fun r v => { r with hwBeta := v }) arg s
  | .windowLength => setWindowarg (fun r n => { r with seasonalSmoothIdx := n }) arg s
  | .failureThreshold => setWindowarg (fun r n => { r with failureThreshold := n }) arg s
  | .alpha => setHwpredict (fun r v => { r with hwAlpha := v }) arg s
  | .beta => setHwpredict (fun r v => { r with hwBeta := v }) arg s
  | .gamma => setHwarg .seasonal (fun r v => { r with hwAlpha := v }) arg s
  | .gammaDeviation => setHwarg .devseasonal (fun r v => { r with hwAlpha := v }) arg s
  | .smoothingWindow => setHwsmootharg .seasonal arg (withVersion4 s)
  | .smoothingWindowDeviation => setHwsmootharg .devseasonal arg (withVersion4 s)
  | .aberrantReset =>
    tuneDs opt ((scanDs arg).map fun p => (p.1, ())) (fun i _ s => aberrantReset i s) s
  | .unknown => .fail .unknownOption s

/-- `rrd_tune`: the options one after the other. What it writes back at the end is already in
the mapped header. -/
def rrdTune : List (TuneOpt × Text) → TuneRrd → TuneResult
  | [], s => .ok s
  | (opt, arg) :: opts, s => (tuneOption opt arg s).andThen (rrdTune opts)

/-! ## What creation enforces -/

/-- Node `k` of the `par` array, where nodes have been stored. -/
def RawDs.node (d : RawDs) (k : ℕ) : Option (Option RpnCdefds) :=
  match d.par (k / 2) with
  | .nodes a b => some (if k % 2 = 0 then a else b)
  | _ => none

/-- DS `k` holds a program that ends with `OP_END` inside the array and names data sources in
front of its own. -/
def RawDs.HoldsProgram (k : ℕ) (d : RawDs) : Prop :=
  ∃ prog : List RpnCdefds, prog.length < dsCdefMaxRpnNodes ∧
    (∀ j, j ≤ prog.length → d.node j = some prog[j]?) ∧
    ∀ c ∈ prog, c.op = .variable ∨ c.op = .prevOther → 0 ≤ c.val ∧ c.val < k

/-- The minimum is below the maximum where both are known. -/
def RawDs.LimitsOk (d : RawDs) : Prop :=
  ∃ lo hi, d.par 1 = .val lo ∧ d.par 2 = .val hi ∧
    (lo.isnan = false → hi.isnan = false → lo.lt hi = true)

/-- The `par` array of DS `k` holds what its type asks for. -/
def RawDs.ParOk (k : ℕ) (d : RawDs) : Prop :=
  if d.dst = .cdef then d.HoldsProgram k else d.LimitsOk

/-- The threshold of a `FAILURES` RRA can be reached in its window. -/
def RraDef.WindowOk (r : RraDef) : Prop := r.cf = .failures → r.failureThreshold ≤ r.windowLen

/-- **What `rrd_create_r` enforces.** -/
structure TuneRrd.Sound (s : TuneRrd) : Prop where
  named : ∀ i, i < s.rrd.dsCnt → (s.ds i).dsNam ≠ []
  distinct : ∀ i j, i < s.rrd.dsCnt → j < s.rrd.dsCnt → (s.ds i).dsNam = (s.ds j).dsNam → i = j
  par : ∀ i, i < s.rrd.dsCnt → (s.ds i).ParOk i
  window : ∀ i, i < s.rrd.rraCnt → (s.rrd.rraDef i).WindowOk

/-- **An option that fits**: it stores no number over a program, keeps the type on its side of
`COMPUTE`, keeps limits, thresholds and windows in order, and renames to a name that no other
data source has. -/
def Fits (s : TuneRrd) (opt : TuneOpt) (arg : Text) : Prop :=
  match opt with
  | .heartbeat => ∀ name v i, scanHeartbeat arg = some (name, v) → s.dsMatch name = some i →
      (s.ds i).dst ≠ .cdef
  | .minimum => ∀ name lo i, scanLimit arg = some (name, lo) → s.dsMatch name = some i →
      (s.ds i).dst ≠ .cdef ∧ ∀ hi, (s.ds i).par 2 = .val hi →
        lo.isnan = false → hi.isnan = false → lo.lt hi = true
  | .maximum => ∀ name hi i, scanLimit arg = some (name, hi) → s.dsMatch name = some i →
      (s.ds i).dst ≠ .cdef ∧ ∀ lo, (s.ds i).par 1 = .val lo →
        lo.isnan = false → hi.isnan = false → lo.lt hi = true
  | .dataSourceType => ∀ name type i dst, scanType arg = some (name, type) →
      s.dsMatch name = some i → dstConv type = some dst → ((s.ds i).dst = .cdef ↔ dst = .cdef)
  | .dataSourceRename => ∀ name new i, scanRename arg = some (name, new) →
      s.dsMatch name = some i → ∀ j, j < s.rrd.dsCnt → (s.ds j).dsNam = new → j = i
  | .windowLength => ∀ i, s.findRra .failures = some i →
      (s.rrd.rraDef i).failureThreshold ≤ toUlong (CStr.atoi arg)
  | .failureThreshold => ∀ i, s.findRra .failures = some i →
      toUlong (CStr.atoi arg) ≤ (s.rrd.rraDef i).windowLen
  | _ => True

/-- Options that fit, one after the other. -/
def AllFit : List (TuneOpt × Text) → TuneRrd → Prop
  | [], _ => True
  | (opt, arg) :: opts, s =>
    Fits s opt arg ∧ ∀ t, tuneOption opt arg s = .ok t → AllFit opts t

/-! ## One option -/

variable {s t : TuneRrd} {opt : TuneOpt} {arg : Text} {e : TuneError}

theorem dsMatch_some {name : Text} {i : ℕ} (h : s.dsMatch name = some i) :
    i < s.rrd.dsCnt ∧ (s.ds i).dsNam = name := by
  have hp := List.find?_some h
  have hm := List.mem_of_find?_eq_some h
  exact ⟨List.mem_range.mp hm, by simpa using hp⟩

theorem findRra_some {cf : Cf} {i : ℕ} (h : s.findRra cf = some i) :
    i < s.rrd.rraCnt ∧ (s.rrd.rraDef i).cf = cf := by
  have hp := List.find?_some h
  have hm := List.mem_of_find?_eq_some h
  exact ⟨List.mem_range.mp hm, by simpa using hp⟩

/-- A name that has been scanned is not empty. -/
theorem scanRename_ne {name new : Text} (h : scanRename arg = some (name, new)) : new ≠ [] := by
  obtain ⟨p, -, h⟩ := Option.bind_eq_some_iff.mp h
  obtain ⟨r, -, h⟩ := Option.bind_eq_some_iff.mp h
  obtain ⟨q, hq, h⟩ := Option.map_eq_some_iff.mp h
  simp only [CStr.scanSet] at hq
  split_ifs at hq with hnil
  obtain rfl := Option.some.inj hq
  obtain ⟨-, rfl⟩ := Prod.mk.inj h
  exact hnil

/-- Inversion for an option about one DS. -/
theorem tuneDs_eq_ok {α : Type} {scanned : Option (Text × α)}
    {store : ℕ → α → TuneRrd → TuneResult} (h : tuneDs opt scanned store s = .ok t) :
    ∃ name v i, scanned = some (name, v) ∧ s.dsMatch name = some i ∧ store i v s = .ok t := by
  cases scanned with
  | none => simp [tuneDs] at h
  | some p =>
    simp only [tuneDs] at h
    cases hm : s.dsMatch p.1 with
    | none => simp [hm] at h
    | some i =>
      simp only [hm] at h
      exact ⟨p.1, p.2, i, rfl, hm, h⟩

/-- Inversion for an option about one RRA. -/
theorem tuneRra_eq_ok {cf : Cf} {store : ℕ → RraDef → TuneRrd → TuneRrd}
    (h : tuneRra cf store s = .ok t) :
    ∃ i, s.findRra cf = some i ∧ t = store i (s.rrd.rraDef i) s := by
  simp only [tuneRra] at h
  cases hf : s.findRra cf with
  | none => simp [hf] at h
  | some i =>
    simp only [hf] at h
    split_ifs at h
    exact ⟨i, rfl, (Outcome.ok.inj h).symm⟩

/-- An option about one RRA fails before it stores anything. -/
theorem tuneRra_eq_fail {cf : Cf} {store : ℕ → RraDef → TuneRrd → TuneRrd}
    (h : tuneRra cf store s = .fail e t) : t = s := by
  simp only [tuneRra] at h
  cases hf : s.findRra cf with
  | none =>
    simp only [hf] at h
    exact (Outcome.fail.inj h).2.symm
  | some i =>
    simp only [hf] at h
    split_ifs at h
    exact (Outcome.fail.inj h).2.symm

theorem setHwarg_eq_fail {cf : Cf} {store : RraDef → RrdValue → RraDef}
    (h : setHwarg cf store arg s = .fail e t) : t = s := by
  simp only [setHwarg] at h
  split_ifs at h
  · exact (Outcome.fail.inj h).2.symm
  · exact tuneRra_eq_fail h

/-- A new definition for DS `i`. -/
theorem TuneRrd.Sound.setDs (h : s.Sound) {i : ℕ} {d : RawDs} (hne : d.dsNam ≠ [])
    (hnew : ∀ j, j < s.rrd.dsCnt → (s.ds j).dsNam = d.dsNam → j = i) (hpar : d.ParOk i) :
    (s.setDs i d).Sound := by
  have hds : ∀ j, (s.setDs i d).ds j = if j = i then d else s.ds j := by
    intro j
    by_cases hj : j = i
    · subst hj
      simp [TuneRrd.setDs]
    · simp [TuneRrd.setDs, hj]
  refine ⟨fun j hj => ?_, fun j k hj hk hjk => ?_, fun j hj => ?_, h.window⟩
  · rw [hds]
    split_ifs
    · exact hne
    · exact h.named j hj
  · rw [hds, hds] at hjk
    split_ifs at hjk with hji hki hki
    · rw [hji, hki]
    · rw [hji, hnew k hk hjk.symm]
    · rw [hki, hnew j hj hjk]
    · exact h.distinct j k hj hk hjk
  · rw [hds]
    split_ifs with hji
    · rw [hji]
      exact hpar
    · exact h.par j hj

/-- A new definition for DS `i`, under the old name. -/
theorem TuneRrd.Sound.setDs_same (h : s.Sound) {i : ℕ} (hi : i < s.rrd.dsCnt) {d : RawDs}
    (hname : d.dsNam = (s.ds i).dsNam) (hpar : d.ParOk i) : (s.setDs i d).Sound := by
  refine h.setDs (hname ▸ h.named i hi) (fun j hj hji => ?_) hpar
  exact h.distinct j i hj hi (hji.trans hname)

/-- Nothing but the RRAs and the preparation areas is changed. -/
theorem TuneRrd.Sound.setRrd (h : s.Sound) {rrd : Rrd} (hd : rrd.dsCnt = s.rrd.dsCnt)
    (hr : rrd.rraCnt = s.rrd.rraCnt) (hw : ∀ i, i < s.rrd.rraCnt → (rrd.rraDef i).WindowOk) :
    TuneRrd.Sound { s with rrd := rrd } := by
  refine ⟨?_, ?_, ?_, ?_⟩ <;> dsimp only
  · rw [hd]
    exact h.named
  · rw [hd]
    exact h.distinct
  · rw [hd]
    exact h.par
  · rw [hr]
    exact hw

/-- The same definitions of RRAs. -/
theorem TuneRrd.Sound.congr (h : s.Sound) {rrd : Rrd} (hd : SameDefs s.rrd rrd) :
    TuneRrd.Sound { s with rrd := rrd } :=
  h.setRrd hd.dsCnt hd.rraCnt fun i hi => by
    rw [hd.rraDef]
    exact h.window i hi

/-- A new definition for RRA `i`. -/
theorem TuneRrd.Sound.setRra (h : s.Sound) {i : ℕ} {r : RraDef} (hr : r.WindowOk) :
    (s.setRra i r).Sound := by
  refine h.setRrd rfl rfl fun j hj => ?_
  dsimp only
  by_cases hji : j = i
  · subst hji
    rw [Function.update_self]
    exact hr
  · rw [Function.update_of_ne hji]
    exact h.window j hj

/-- A limit or a heartbeat of a DS that is no `COMPUTE`. -/
theorem TuneRrd.Sound.setPar (h : s.Sound) {i k : ℕ} {u : Unival} (hi : i < s.rrd.dsCnt)
    (hdst : (s.ds i).dst ≠ .cdef)
    (hpar : RawDs.LimitsOk { s.ds i with par := Function.update (s.ds i).par k u }) :
    (s.setPar i k u).Sound := by
  refine h.setDs_same hi rfl ?_
  simp only [RawDs.ParOk, if_neg hdst]
  exact hpar

theorem TuneRrd.Sound.limits (h : s.Sound) {i : ℕ} (hi : i < s.rrd.dsCnt)
    (hdst : (s.ds i).dst ≠ .cdef) : (s.ds i).LimitsOk := by
  have hpar := h.par i hi
  rwa [RawDs.ParOk, if_neg hdst] at hpar

theorem setHwarg_sound {cf : Cf} {store : RraDef → RrdValue → RraDef}
    (hstore : ∀ r v, r.WindowOk → (store r v).WindowOk) (h : s.Sound)
    (ht : setHwarg cf store arg s = .ok t) : t.Sound := by
  simp only [setHwarg] at ht
  split_ifs at ht
  obtain ⟨i, hi, rfl⟩ := tuneRra_eq_ok ht
  exact h.setRra (hstore _ _ (h.window i (findRra_some hi).1))

/-- The first try of `alpha` or `beta` fails before it stores anything. -/
theorem setHwpredict_sound {store : RraDef → RrdValue → RraDef}
    (hstore : ∀ r v, r.WindowOk → (store r v).WindowOk) (h : s.Sound)
    (ht : setHwpredict store arg s = .ok t) : t.Sound := by
  simp only [setHwpredict] at ht
  cases hf : setHwarg .hwpredict store arg s with
  | ok u =>
    simp only [hf] at ht
    obtain rfl := Outcome.ok.inj ht
    exact setHwarg_sound hstore h hf
  | fail e u =>
    have hu : u = s := setHwarg_eq_fail hf
    subst hu
    simp only [hf] at ht
    exact setHwarg_sound hstore h ht

theorem setDeltaarg_sound {store : RraDef → RrdValue → RraDef}
    (hstore : ∀ r v, r.WindowOk → (store r v).WindowOk) (h : s.Sound)
    (ht : setDeltaarg store arg s = .ok t) : t.Sound := by
  simp only [setDeltaarg] at ht
  split_ifs at ht
  obtain ⟨i, hi, rfl⟩ := tuneRra_eq_ok ht
  exact h.setRra (hstore _ _ (h.window i (findRra_some hi).1))

theorem setHwsmootharg_sound {cf : Cf} (h : s.Sound)
    (ht : setHwsmootharg cf arg (withVersion4 s) = .ok t) : t.Sound := by
  simp only [setHwsmootharg] at ht
  split_ifs at ht
  obtain ⟨i, hi, rfl⟩ := tuneRra_eq_ok ht
  have h4 : (withVersion4 s).Sound := h.setRrd rfl rfl h.window
  have hw := h4.window i (findRra_some hi).1
  exact h4.setRra hw

theorem setWindowarg_sound {store : RraDef → ℕ → RraDef} (h : s.Sound)
    (hstore : ∀ i, s.findRra .failures = some i →
      (store (s.rrd.rraDef i) (toUlong (CStr.atoi arg))).WindowOk)
    (ht : setWindowarg store arg s = .ok t) : t.Sound := by
  simp only [setWindowarg] at ht
  split_ifs at ht
  obtain ⟨i, hi, rfl⟩ := tuneRra_eq_ok ht
  have hset : (s.setRra i (store (s.rrd.rraDef i) (toUlong (CStr.atoi arg)))).Sound :=
    h.setRra (hstore i hi)
  -- forgetting the violations changes `cdp_prep` only
  refine hset.congr (forLoop_invariant (fun _ => SameDefs _) (SameDefs.refl _) ?_)
  exact fun d rrd _ hrrd => hrrd.trans ⟨rfl, rfl, rfl, rfl, rfl, rfl, rfl⟩

theorem resetAberrantRra_state (dsIdx i : ℕ) (rrd : Rrd) :
    SameDefs rrd (resetAberrantRra dsIdx i rrd).state := by
  have hset : ∀ c, SameDefs rrd (rrd.setCdp (rrd.cdpIdx i dsIdx) c) :=
    fun _ => ⟨rfl, rfl, rfl, rfl, rfl, rfl, rfl⟩
  have hrows : ∀ n c, SameDefs rrd (forLoopE n (fun row t =>
      let pos := t.rraStart i + dsIdx + row * t.dsCnt
      if t.valueCnt < pos + 1 then .fail .writeFailed t
      else .ok { t with values := Function.update t.values pos dnan })
      (rrd.setCdp (rrd.cdpIdx i dsIdx) c) : Outcome TuneError Rrd).state := by
    intro n c
    refine forLoopE_state (SameDefs rrd) (hset c) fun row t _ ht => ?_
    dsimp only
    split_ifs
    · exact ht
    · exact ht.trans ⟨rfl, rfl, rfl, rfl, rfl, rfl, rfl⟩
  simp only [resetAberrantRra]
  cases (rrd.rraDef i).cf
  case hwpredict | mhwpredict | failures => exact hset _
  case seasonal | devseasonal => exact hrows _ _
  all_goals exact SameDefs.refl rrd

theorem resetAberrantCoefficients_state (dsIdx : ℕ) (rrd : Rrd) :
    SameDefs rrd (resetAberrantCoefficients dsIdx rrd).state :=
  forLoopE_state (SameDefs rrd) (SameDefs.refl _)
    fun k r _ hr => hr.trans (resetAberrantRra_state dsIdx k r)

theorem aberrantReset_sound {i : ℕ} (h : s.Sound) (ht : aberrantReset i s = .ok t) : t.Sound := by
  have hdefs := resetAberrantCoefficients_state i s.rrd
  simp only [aberrantReset] at ht
  cases hr : resetAberrantCoefficients i s.rrd with
  | fail e r => simp [hr] at ht
  | ok r =>
    simp only [hr] at ht
    obtain rfl := Outcome.ok.inj ht
    exact h.congr (Outcome.of_state_ok hr hdefs)

theorem setType_sound {i : ℕ} {type : Text} (h : s.Sound) (hi : i < s.rrd.dsCnt)
    (hfit : ∀ dst, dstConv type = some dst → ((s.ds i).dst = .cdef ↔ dst = .cdef))
    (ht : setType i type s = .ok t) : t.Sound := by
  simp only [setType] at ht
  cases hd : dstConv type with
  | none => simp [hd] at ht
  | some dst =>
    simp only [hd] at ht
    split_ifs at ht with hsame
    · obtain rfl := Outcome.ok.inj ht
      exact h
    · obtain rfl := Outcome.ok.inj ht
      have hset : (s.setDs i { s.ds i with dst := dst }).Sound := by
        refine h.setDs_same hi rfl ?_
        have hpar := h.par i hi
        simp only [RawDs.ParOk, hfit dst hd] at hpar ⊢
        exact hpar
      exact hset.congr ⟨rfl, rfl, rfl, rfl, rfl, rfl, rfl⟩

/-- **One option that fits** keeps what creation enforces. -/
theorem tuneOption_sound (h : s.Sound) (hfit : Fits s opt arg) (ht : tuneOption opt arg s = .ok t) :
    t.Sound := by
  cases opt <;> simp only [tuneOption] at ht
  case heartbeat =>
    obtain ⟨name, v, i, hscan, hm, hst⟩ := tuneDs_eq_ok ht
    obtain rfl := Outcome.ok.inj hst
    obtain ⟨hi, -⟩ := dsMatch_some hm
    have hdst := hfit name v i hscan hm
    refine h.setPar hi hdst ?_
    obtain ⟨lo, hi', hlo, hhi, hlt⟩ := h.limits hi hdst
    exact ⟨lo, hi', by simpa using hlo, by simpa using hhi, hlt⟩
  case minimum =>
    obtain ⟨name, lo, i, hscan, hm, hst⟩ := tuneDs_eq_ok ht
    obtain rfl := Outcome.ok.inj hst
    obtain ⟨hi, -⟩ := dsMatch_some hm
    obtain ⟨hdst, hlim⟩ := hfit name lo i hscan hm
    refine h.setPar hi hdst ?_
    obtain ⟨-, hi', -, hhi, -⟩ := h.limits hi hdst
    exact ⟨lo, hi', by simp, by simpa using hhi, hlim hi' hhi⟩
  case maximum =>
    obtain ⟨name, hi', i, hscan, hm, hst⟩ := tuneDs_eq_ok ht
    obtain rfl := Outcome.ok.inj hst
    obtain ⟨hi, -⟩ := dsMatch_some hm
    obtain ⟨hdst, hlim⟩ := hfit name hi' i hscan hm
    refine h.setPar hi hdst ?_
    obtain ⟨lo, -, hlo, -, -⟩ := h.limits hi hdst
    exact ⟨lo, hi', by simpa using hlo, by simp, hlim lo hlo⟩
  case dataSourceType =>
    obtain ⟨name, type, i, hscan, hm, hst⟩ := tuneDs_eq_ok ht
    exact setType_sound h (dsMatch_some hm).1 (fun dst hd => hfit name type i dst hscan hm hd) hst
  case dataSourceRename =>
    obtain ⟨name, new, i, hscan, hm, hst⟩ := tuneDs_eq_ok ht
    obtain rfl := Outcome.ok.inj hst
    obtain ⟨hi, -⟩ := dsMatch_some hm
    refine h.setDs ?_ (hfit name new i hscan hm) ?_
    · exact scanRename_ne hscan
    · have hpar := h.par i hi
      exact hpar
  case deltapos | deltaneg =>
    refine setDeltaarg_sound ?_ h ht
    exact fun _ _ hw => hw
  case windowLength =>
    refine setWindowarg_sound h (fun i hi => ?_) ht
    exact fun _ => hfit i hi
  case failureThreshold =>
    refine setWindowarg_sound h (fun i hi => ?_) ht
    exact fun _ => hfit i hi
  case alpha | beta =>
    refine setHwpredict_sound ?_ h ht
    exact fun _ _ hw => hw
  case gamma | gammaDeviation =>
    refine setHwarg_sound ?_ h ht
    exact fun _ _ hw => hw
  case smoothingWindow | smoothingWindowDeviation => exact setHwsmootharg_sound h ht
  case aberrantReset =>
    obtain ⟨name, v, i, -, -, hst⟩ := tuneDs_eq_ok ht
    exact aberrantReset_sound h hst
  case unknown => exact absurd ht (by simp)

/-- **A run of options that fit.** -/
theorem rrdTune_sound {opts : List (TuneOpt × Text)} (h : s.Sound) (hfit : AllFit opts s)
    (ht : rrdTune opts s = .ok t) : t.Sound := by
  induction opts generalizing s with
  | nil =>
    obtain rfl := Outcome.ok.inj ht
    exact h
  | cons o opts ih =>
    obtain ⟨u, hu, ht⟩ := Outcome.andThen_eq_ok.mp ht
    exact ih (tuneOption_sound h hfit.1 hu) (hfit.2 u hu) ht

/-! ## Created files -/

/-- No program names a data source whose index is negative as a `short`. -/
def Rrd.NamesNoNegative (r : Rrd) : Prop :=
  ∀ i, i < r.dsCnt → ∀ c ∈ (r.dsDef i).cdef, c.op = .variable ∨ c.op = .prevOther → 0 ≤ c.val

theorem storedNode_eq {prog : List RpnCdefds} {j : ℕ} (hj : j ≤ prog.length) :
    storedNode prog j = prog[j]? := by
  unfold storedNode
  split_ifs with h
  · simp [h]
  · have hlt : j < prog.length := Nat.lt_of_le_of_ne hj h
    simp [hlt]

/-- The nodes of a program, read back out of the `par` array. -/
theorem node_raw {d : DsDef} {prog : List RpnCdefds} (h : d.par = .cdef prog) (j : ℕ) :
    d.raw.node j = some (storedNode prog j) := by
  have hsplit := Nat.div_add_mod j 2
  simp only [RawDs.node, DsDef.raw, h, DsPar.raw]
  rcases Nat.mod_two_eq_zero_or_one j with h0 | h1
  · rw [if_pos h0, show 2 * (j / 2) = j by omega]
  · rw [if_neg (by omega), show 2 * (j / 2) + 1 = j by omega]

theorem raw_parOk {k : ℕ} {d : DsDef} (h : d.ParOk k)
    (hneg : ∀ c ∈ d.cdef, c.op = .variable ∨ c.op = .prevOther → 0 ≤ c.val) : d.raw.ParOk k := by
  cases hp : d.par with
  | generic mrhb lo hi =>
    simp only [DsDef.ParOk, hp] at h
    have hlim : d.raw.LimitsOk :=
      ⟨lo, hi, by simp [DsDef.raw, hp, DsPar.raw], by simp [DsDef.raw, hp, DsPar.raw], h.2⟩
    have hdst : d.raw.dst ≠ .cdef := h.1
    simp only [RawDs.ParOk, if_neg hdst]
    exact hlim
  | cdef prog =>
    simp only [DsDef.ParOk, hp] at h
    have hprog : d.raw.HoldsProgram k := by
      refine ⟨prog, h.2.length, fun j hj => ?_, fun c hc hop => ?_⟩
      · rw [node_raw hp, storedNode_eq hj]
      · have hpos : 0 ≤ c.val := hneg c (by simpa [DsDef.cdef, hp] using hc) hop
        obtain ⟨i, hi, hval⟩ := h.2.named c hc hop
        -- an index that is not negative has lost a multiple of 2 ^ 16 at most
        have hle : c.val ≤ i := by
          rw [hval, Int.bmod_def] at hpos ⊢
          split_ifs at hpos ⊢ <;> omega
        exact ⟨hpos, by omega⟩
    have hdst : d.raw.dst = .cdef := h.1
    simp only [RawDs.ParOk, if_pos hdst]
    exact hprog

theorem Created.sound {r : Rrd} (h : Created r) (hneg : r.NamesNoNegative) :
    (TuneRrd.open r).Sound := by
  have hok := h.dsOk
  refine ⟨fun i hi => ?_, fun i j (hi : i < r.dsCnt) (hj : j < r.dsCnt) hij => ?_, fun i hi => ?_,
    fun i hi => ?_⟩
  · exact hok.named _ (List.mem_map_of_mem (List.mem_range.mpr hi))
  · have hnames : (r.dsList.map DsDef.dsNam)[i]? = (r.dsList.map DsDef.dsNam)[j]? := by
      rw [List.getElem?_map, List.getElem?_map, Rrd.dsList_get hi, Rrd.dsList_get hj]
      exact congrArg some hij
    refine (List.getElem?_inj ?_ hok.distinct).mp hnames
    simpa [Rrd.dsList] using hi
  · exact raw_parOk (hok.par i _ (Rrd.dsList_get hi)) (hneg i hi)
  · exact (h.checked hi).failures

/-- **Options that fit keep what creation enforces**: distinct names, limits in order, thresholds
inside their windows and programs that name data sources in front of their own. -/
theorem tune_keeps_invariants {r : Rrd} {opts : List (TuneOpt × Text)} (h : Created r)
    (hneg : r.NamesNoNegative) (hfit : AllFit opts (.open r)) {t : TuneRrd}
    (ht : rrdTune opts (.open r) = .ok t) : t.Sound :=
  rrdTune_sound (h.sound hneg) hfit ht

theorem newCompute_namesNoNegative : newCompute.NamesNoNegative := by
  have hall : ∀ i < 2, ∀ c ∈ (newCompute.dsDef i).cdef,
      c.op = .variable ∨ c.op = .prevOther → 0 ≤ c.val := by decide +kernel
  exact hall

/-- The `COMPUTE` gets a new name, the `GAUGE` a maximum. -/
theorem newCompute_tuned :
    let opts : List (TuneOpt × Text) :=
      [(.dataSourceRename, "b:twice".toList), (.maximum, "a:9".toList)]
    ∃ t, rrdTune opts (.open newCompute) = .ok t ∧ (t.ds 1).dsNam = "twice".toList ∧
      (t.ds 0).par 2 = .val (.num 9) ∧ t.Sound := by
  intro opts
  let first := (TuneRrd.open newCompute).setDs 1
    { (TuneRrd.open newCompute).ds 1 with dsNam := "twice".toList }
  let second := first.setPar 0 2 (.val (.num 9))
  have hscan₁ : scanRename "b:twice".toList = some (['b'], "twice".toList) := by decide +kernel
  have hds₁ : (TuneRrd.open newCompute).dsMatch ['b'] = some 1 := by decide +kernel
  have hscan₂ : scanLimit "a:9".toList = some (['a'], .num 9) := by decide +kernel
  have hds₂ : first.dsMatch ['a'] = some 0 := by decide +kernel
  have hone : tuneOption .dataSourceRename "b:twice".toList (.open newCompute) = .ok first := by
    simp only [tuneOption, tuneDs, hscan₁, hds₁]
    rfl
  have htwo : tuneOption .maximum "a:9".toList first = .ok second := by
    simp only [tuneOption, tuneDs, hscan₂, hds₂]
    rfl
  have hrun : rrdTune opts (.open newCompute) = .ok second :=
    Outcome.andThen_eq_ok.mpr ⟨first, hone, Outcome.andThen_eq_ok.mpr ⟨second, htwo, rfl⟩⟩
  have hfit : AllFit opts (.open newCompute) := by
    refine ⟨fun name new i hscan hm => ?_, fun t ht => ⟨fun name hi i hscan hm => ?_, ?_⟩⟩
    · rw [hscan₁] at hscan
      obtain ⟨rfl, rfl⟩ := Prod.mk.inj (Option.some.inj hscan)
      have hnew : ∀ j < 2, ((TuneRrd.open newCompute).ds j).dsNam ≠ "twice".toList := by
        decide +kernel
      exact fun j hj hname => absurd hname (hnew j hj)
    · obtain rfl := Outcome.ok.inj (hone.symm.trans ht)
      rw [hscan₂] at hscan
      obtain ⟨rfl, rfl⟩ := Prod.mk.inj (Option.some.inj hscan)
      obtain rfl := Option.some.inj (hds₂.symm.trans hm)
      refine ⟨by decide, fun lo hlo hnan => ?_⟩
      have hU : (first.ds 0).par 1 = .val dnan := by decide +kernel
      obtain rfl := Unival.val.inj (hU.symm.trans hlo)
      exact absurd hnan (by decide)
    · exact fun _ _ => trivial
  exact ⟨second, hrun, by decide +kernel, by decide +kernel,
    tune_keeps_invariants newCompute_created newCompute_namesNoNegative hfit hrun⟩

/-- **A name that is taken** is given to another data source all the same. -/
theorem tune_duplicates_name : Created newCompute ∧ newCompute.NamesNoNegative ∧
    ∃ t, rrdTune [(.dataSourceRename, "b:a".toList)] (.open newCompute) = .ok t ∧ ¬ t.Sound := by
  refine ⟨newCompute_created, newCompute_namesNoNegative, _, rfl, fun h => ?_⟩
  exact absurd (h.distinct 0 1 (by decide) (by decide) (by decide +kernel)) (by decide)

/-! ## An option that is refused

The options store into the mapped header one after the other, and an error takes nothing back. So
what a refused option leaves is what the options before it left; the two smoothing windows have
moreover asked for version 4 before their argument is looked at.
-/

/-- The errors about an option or its argument. -/
def TuneError.Invalid (e : TuneError) : Prop := e ≠ .outOfBounds ∧ e ≠ .writeFailed

/-- The options that ask for version 4. -/
def TuneOpt.smooths : TuneOpt → Bool
  | .smoothingWindow | .smoothingWindowDeviation => true
  | _ => false

theorem setHwpredict_eq_fail {store : RraDef → RrdValue → RraDef}
    (h : setHwpredict store arg s = .fail e t) : t = s := by
  simp only [setHwpredict] at h
  cases hf : setHwarg .hwpredict store arg s with
  | ok u => simp [hf] at h
  | fail e' u =>
    simp only [hf] at h
    exact (setHwarg_eq_fail h).trans (setHwarg_eq_fail hf)

theorem setHwsmootharg_eq_fail {cf : Cf} (h : setHwsmootharg cf arg s = .fail e t) : t = s := by
  simp only [setHwsmootharg] at h
  split_ifs at h
  · exact (Outcome.fail.inj h).2.symm
  · exact tuneRra_eq_fail h

theorem setDeltaarg_eq_fail {store : RraDef → RrdValue → RraDef}
    (h : setDeltaarg store arg s = .fail e t) : t = s := by
  simp only [setDeltaarg] at h
  split_ifs at h
  · exact (Outcome.fail.inj h).2.symm
  · exact tuneRra_eq_fail h

theorem setWindowarg_eq_fail {store : RraDef → ℕ → RraDef}
    (h : setWindowarg store arg s = .fail e t) : t = s := by
  simp only [setWindowarg] at h
  split_ifs at h
  · exact (Outcome.fail.inj h).2.symm
  · exact tuneRra_eq_fail h

/-- An option about one DS fails before it stores anything, unless storing fails. -/
theorem tuneDs_eq_fail {α : Type} {scanned : Option (Text × α)}
    {store : ℕ → α → TuneRrd → TuneResult} (h : tuneDs opt scanned store s = .fail e t) :
    t = s ∨ ∃ i v, store i v s = .fail e t := by
  cases scanned with
  | none => exact .inl (Outcome.fail.inj h).2.symm
  | some p =>
    simp only [tuneDs] at h
    cases hm : s.dsMatch p.1 with
    | none =>
      simp only [hm] at h
      exact .inl (Outcome.fail.inj h).2.symm
    | some i =>
      simp only [hm] at h
      exact .inr ⟨i, p.2, h⟩

theorem setType_eq_fail {i : ℕ} {type : Text} (h : setType i type s = .fail e t) : t = s := by
  simp only [setType] at h
  cases hd : dstConv type with
  | none =>
    simp only [hd] at h
    exact (Outcome.fail.inj h).2.symm
  | some dst =>
    simp only [hd] at h
    split_ifs at h

/-- `reset_aberrant_coefficients` fails on a write alone. -/
theorem resetAberrantRra_eq_fail {dsIdx i : ℕ} {rrd rrd' : Rrd}
    (h : resetAberrantRra dsIdx i rrd = .fail e rrd') : e = .writeFailed := by
  simp only [resetAberrantRra] at h
  cases hcf : (rrd.rraDef i).cf <;> simp only [hcf, reduceCtorEq] at h
  case seasonal | devseasonal =>
    obtain ⟨row, u, -, -, hrow⟩ := forLoopE_eq_fail.mp h
    split_ifs at hrow
    exact (Outcome.fail.inj hrow).1.symm

theorem aberrantReset_eq_fail {i : ℕ} (h : aberrantReset i s = .fail e t) : e = .writeFailed := by
  simp only [aberrantReset] at h
  cases hr : resetAberrantCoefficients i s.rrd with
  | ok r => simp [hr] at h
  | fail e' r =>
    simp only [hr] at h
    obtain ⟨rfl, -⟩ := Outcome.fail.inj h
    obtain ⟨k, u, -, -, hk⟩ := forLoopE_eq_fail.mp hr
    exact resetAberrantRra_eq_fail hk

/-- **What a refused option leaves.** -/
theorem tuneOption_eq_fail (he : e.Invalid) (h : tuneOption opt arg s = .fail e t) :
    t = if opt.smooths then withVersion4 s else s := by
  cases opt <;> simp only [tuneOption] at h <;>
    simp only [TuneOpt.smooths, if_true, Bool.false_eq_true, if_false]
  case heartbeat | minimum | maximum | dataSourceRename =>
    obtain hs | ⟨i, v, hst⟩ := tuneDs_eq_fail h
    · exact hs
    · exact absurd hst (by simp)
  case dataSourceType =>
    obtain hs | ⟨i, v, hst⟩ := tuneDs_eq_fail h
    · exact hs
    · exact setType_eq_fail hst
  case deltapos | deltaneg => exact setDeltaarg_eq_fail h
  case windowLength | failureThreshold => exact setWindowarg_eq_fail h
  case alpha | beta => exact setHwpredict_eq_fail h
  case gamma | gammaDeviation => exact setHwarg_eq_fail h
  case smoothingWindow | smoothingWindowDeviation => exact setHwsmootharg_eq_fail h
  case aberrantReset =>
    obtain hs | ⟨i, v, hst⟩ := tuneDs_eq_fail h
    · exact hs
    · exact absurd (aberrantReset_eq_fail hst) he.2
  case unknown => exact (Outcome.fail.inj h).2.symm

/-- An option about one RRA stores the definition of an RRA or the preparation areas. -/
theorem tuneRra_version {cf : Cf} {store : ℕ → RraDef → TuneRrd → TuneRrd}
    (hstore : ∀ i r, (store i r s).rrd.version = s.rrd.version) (h : tuneRra cf store s = .ok t) :
    t.rrd.version = s.rrd.version := by
  obtain ⟨i, -, rfl⟩ := tuneRra_eq_ok h
  exact hstore i _

theorem setHwarg_version {cf : Cf} {store : RraDef → RrdValue → RraDef}
    (h : setHwarg cf store arg s = .ok t) : t.rrd.version = s.rrd.version := by
  simp only [setHwarg] at h
  split_ifs at h
  exact tuneRra_version (fun _ _ => rfl) h

theorem setHwpredict_version {store : RraDef → RrdValue → RraDef}
    (h : setHwpredict store arg s = .ok t) : t.rrd.version = s.rrd.version := by
  simp only [setHwpredict] at h
  cases hf : setHwarg .hwpredict store arg s with
  | ok u =>
    simp only [hf] at h
    obtain rfl := Outcome.ok.inj h
    exact setHwarg_version hf
  | fail e u =>
    obtain rfl := setHwarg_eq_fail hf
    simp only [hf] at h
    exact setHwarg_version h

theorem setHwsmootharg_version {cf : Cf} (h : setHwsmootharg cf arg s = .ok t) :
    t.rrd.version = s.rrd.version := by
  simp only [setHwsmootharg] at h
  split_ifs at h
  exact tuneRra_version (fun _ _ => rfl) h

theorem setDeltaarg_version {store : RraDef → RrdValue → RraDef}
    (h : setDeltaarg store arg s = .ok t) : t.rrd.version = s.rrd.version := by
  simp only [setDeltaarg] at h
  split_ifs at h
  exact tuneRra_version (fun _ _ => rfl) h

theorem setWindowarg_version {store : RraDef → ℕ → RraDef}
    (h : setWindowarg store arg s = .ok t) : t.rrd.version = s.rrd.version := by
  simp only [setWindowarg] at h
  split_ifs at h
  refine tuneRra_version (fun i r => ?_) h
  exact forLoop_frame (fun rrd : Rrd => rrd.version) fun _ _ _ => rfl

theorem setType_version {i : ℕ} {type : Text} (h : setType i type s = .ok t) :
    t.rrd.version = s.rrd.version := by
  simp only [setType] at h
  cases hd : dstConv type with
  | none => simp [hd] at h
  | some dst =>
    simp only [hd] at h
    split_ifs at h <;> obtain rfl := Outcome.ok.inj h <;> rfl

theorem aberrantReset_version {i : ℕ} (h : aberrantReset i s = .ok t) :
    t.rrd.version = s.rrd.version := by
  have hdefs := resetAberrantCoefficients_state i s.rrd
  simp only [aberrantReset] at h
  cases hr : resetAberrantCoefficients i s.rrd with
  | fail e r => simp [hr] at h
  | ok r =>
    simp only [hr] at h
    obtain rfl := Outcome.ok.inj h
    exact (Outcome.of_state_ok hr hdefs).version

theorem withVersion4_of_eq (h : s.rrd.version = 4) : withVersion4 s = s := by
  rw [withVersion4, ← h]

/-- No option sets the version to anything but 4. -/
theorem tuneOption_version (h : tuneOption opt arg s = .ok t) :
    t.rrd.version = s.rrd.version ∨ t.rrd.version = 4 := by
  cases opt <;> simp only [tuneOption] at h
  case heartbeat | minimum | maximum | dataSourceRename =>
    obtain ⟨name, v, i, -, -, hst⟩ := tuneDs_eq_ok h
    obtain rfl := Outcome.ok.inj hst
    exact .inl rfl
  case dataSourceType =>
    obtain ⟨name, v, i, -, -, hst⟩ := tuneDs_eq_ok h
    exact .inl (setType_version hst)
  case deltapos | deltaneg => exact .inl (setDeltaarg_version h)
  case windowLength | failureThreshold => exact .inl (setWindowarg_version h)
  case alpha | beta => exact .inl (setHwpredict_version h)
  case gamma | gammaDeviation => exact .inl (setHwarg_version h)
  case smoothingWindow | smoothingWindowDeviation => exact .inr (setHwsmootharg_version h)
  case aberrantReset =>
    obtain ⟨name, v, i, -, -, hst⟩ := tuneDs_eq_ok h
    exact .inl (aberrantReset_version hst)
  case unknown => exact absurd h (by simp)

/-- A run of options. -/
theorem rrdTune_version {opts : List (TuneOpt × Text)} (h : rrdTune opts s = .ok t) :
    t.rrd.version = s.rrd.version ∨ t.rrd.version = 4 := by
  induction opts generalizing s with
  | nil =>
    obtain rfl := Outcome.ok.inj h
    exact .inl rfl
  | cons o opts ih =>
    obtain ⟨u, hu, ht⟩ := Outcome.andThen_eq_ok.mp h
    obtain hv | hv := ih ht
    · rw [hv]
      exact tuneOption_version hu
    · exact .inr hv

/-- **Where a call failed**: at the first option that fails. -/
theorem rrdTune_eq_fail {opts : List (TuneOpt × Text)} (h : rrdTune opts s = .fail e t) :
    ∃ pre opt arg post u, opts = pre ++ (opt, arg) :: post ∧ rrdTune pre s = .ok u ∧
      tuneOption opt arg u = .fail e t := by
  induction opts generalizing s with
  | nil => exact absurd h (by simp [rrdTune])
  | cons o opts ih =>
    obtain hf | ⟨v, hv, ht⟩ := Outcome.andThen_eq_fail.mp h
    · exact ⟨[], o.1, o.2, opts, s, rfl, rfl, hf⟩
    · obtain ⟨pre, opt, arg, post, u, rfl, hu, hf⟩ := ih ht
      exact ⟨o :: pre, opt, arg, post, u, rfl, Outcome.andThen_eq_ok.mpr ⟨v, hv, hu⟩, hf⟩

end Rrdtool
