import Rrdtool.Cdef

/-!
# `rrd_create_r`

The argument loop of `rrd_create_r`: every argument defines a data source or a round robin
archive. A `DS` argument is read by `sscanf`, an `RRA` argument token by token, and what a token
means depends on the consolidation function that came first. An `HWPREDICT` or `MHWPREDICT` that
names no `SEASONAL` archive brings the four archives it needs with it.

Every remainder the code takes goes through `checkedMod`, so that a division by zero is visible as a
result. The file name enters through its hash only.
-/

namespace Rrdtool

/-- Why `rrd_create_r` does not create a file. -/
inductive CreateError : Type where
  /-- `Invalid DS name` -/
  | dsName
  /-- `Invalid DS type` -/
  | dsType
  /-- `invalid DS format` -/
  | dsFormat
  /-- `Duplicate DS name: %s` -/
  | duplicateDs (name : Text)
  /-- `invalid DS type specified` -/
  | unknownDst
  /-- `min must be less than max in DS definition` -/
  | minMax
  /-- `failed to parse data source %s` -/
  | dsArgs (rest : Text)
  /-- an error of `parseCDEF_DS` -/
  | cdef (e : CdefError)
  /-- `Failed to parse CF name` -/
  | cfName
  /-- `Unrecognized consolidation function %s` -/
  | unknownCf (name : Text)
  /-- `Invalid row count: %i` -/
  | rowCnt (n : ℤ)
  /-- `Invalid xff: must be between 0 and 1` -/
  | xff
  /-- `Invalid alpha: must be between 0 and 1` -/
  | alpha
  /-- `Invalid gamma: must be between 0 and 1` -/
  | gamma
  /-- `Invalid beta: must be between 0 and 1` -/
  | beta
  /-- `Failure threshold is out of range %d, %d` -/
  | threshold
  /-- `Invalid step: must be >= 1` -/
  | step
  /-- `Window length is out of range %d, %d` -/
  | window
  /-- `Window length is shorter than the failure threshold` -/
  | windowShort
  /-- `Unexpected extra argument for consolidation function %s` -/
  | extraArgument (cf : Cf)
  /-- `Invalid smoothing-window %f: must be between 0 and 1` -/
  | smoothingWindow (v : RrdValue)
  /-- `Invalid option %s` -/
  | option (token : Text)
  /-- `Length of seasonal cycle exceeds length of HW prediction array` -/
  | seasonalCycle
  /-- `Unknown error` -/
  | unknown
  /-- `Expected at least %i arguments for RRA but got %i` -/
  | argumentCount (expected got : ℕ)
  /-- `can't parse argument '%s'` -/
  | badArgument (arg : Text)
  /-- `you must define at least one Round Robin Archive` -/
  | noRra
  /-- `you must define at least one Data Source` -/
  | noDs
  /-- no message: the processor ends the process -/
  | divisionByZero
  deriving DecidableEq

/-- `a % b`, as the processor does it. -/
def checkedMod (a b : ℕ) : Except CreateError ℕ :=
  if b = 0 then .error .divisionByZero else .ok (a % b)

/-- A signed value stored into an `unsigned long`. -/
def toUlong (z : ℤ) : ℕ := (z % 2 ^ 64).toNat

/-- `MAX_FAILURES_WINDOW_LEN`. -/
def maxFailuresWindowLen : ℕ := 28

/-! ## Names -/

/-- `dst_conv`. -/
def dstConv (s : Text) : Option Dst :=
  if s = "COUNTER".toList then some .counter
  else if s = "ABSOLUTE".toList then some .absolute
  else if s = "GAUGE".toList then some .gauge
  else if s = "DERIVE".toList then some .derive
  else if s = "COMPUTE".toList then some .cdef
  else none

/-- `cf_conv`. -/
def cfConv (s : Text) : Option Cf :=
  if s = "AVERAGE".toList then some .average
  else if s = "MIN".toList then some .minimum
  else if s = "MAX".toList then some .maximum
  else if s = "LAST".toList then some .last
  else if s = "HWPREDICT".toList then some .hwpredict
  else if s = "MHWPREDICT".toList then some .mhwpredict
  else if s = "DEVPREDICT".toList then some .devpredict
  else if s = "SEASONAL".toList then some .seasonal
  else if s = "DEVSEASONAL".toList then some .devseasonal
  else if s = "FAILURES".toList then some .failures
  else none

/-- `lookup_DS`, also `ds_match`: the first DS of this name. -/
def lookupDs (ds : List DsDef) (name : Text) : Option ℕ := ds.findIdx? fun d => d.dsNam = name

/-! ## Data sources -/

/-- A limit of `parseGENERIC_DS`. -/
def limitOf (s : Text) : RrdValue := if s = ['U'] then dnan else CStr.atof s

/-- `parseGENERIC_DS`: the format is `%lu:%18[^:]:%18[^:]`. -/
def parseGenericDs (rest : Text) : Except CreateError DsPar :=
  let fields := (CStr.scanUlong rest).bind fun (mrhb, r) =>
    (CStr.scanChar ':' r).bind fun r => (CStr.scanSet 18 (· ≠ ':') r).bind fun (minstr, r) =>
      (CStr.scanChar ':' r).bind fun r => (CStr.scanSet 18 (· ≠ ':') r).map fun (maxstr, _) =>
        (mrhb, limitOf minstr, limitOf maxstr)
  match fields with
  | none => .error (.dsArgs rest)
  | some (mrhb, lo, hi) =>
    if !lo.isnan && !hi.isnan && hi.le lo then .error .minMax else .ok (.generic mrhb lo hi)

/-- The `par` array of a new DS. -/
def parseDsPar (ds : List DsDef) (dst : Dst) (rest : Text) : Except CreateError DsPar :=
  if dst = .cdef then
    match parseCdefDs (lookupDs ds) rest with
    | .error e => .error (.cdef e)
    | .ok prog => .ok (.cdef prog)
  else parseGenericDs rest

/-- A `DS:` argument, after the data sources `ds`. -/
def parseDsArg (ds : List DsDef) (arg : Text) : Except CreateError DsDef :=
  match CStr.scanSet 19 isNameChar arg with
  | none => .error (if arg = [] then .dsFormat else .dsName)
  | some (name, r) =>
    match CStr.scanChar ':' r with
    | none => .error .dsName
    | some r =>
      match (CStr.scanSet 19 CStr.isupper r).bind fun (type, r) =>
          (CStr.scanChar ':' r).map fun rest => (type, rest) with
      | none => .error .dsType
      | some (type, rest) =>
        if ds.any fun d => d.dsNam = name then .error (.duplicateDs name)
        else
          match dstConv type with
          | none => .error .unknownDst
          | some dst => (parseDsPar ds dst rest).map fun par => ⟨name, dst, par⟩

/-! ## Round robin archives -/

/-- The definition of archive `idx` after its first token: the defaults of its CF, in memory
that `memset` has cleared. -/
def rraDefault (idx : ℕ) (cf : Cf) : RraDef :=
  let rra : RraDef := ⟨cf, 0, 1, .num 0, .num 0, .num 0, 0, 0, 0⟩
  match cf with
  | .hwpredict | .mhwpredict =>
    { rra with hwAlpha := .num (1 / 10), hwBeta := .num (1 / 288), dependentRraIdx := idx }
  | .seasonal | .devseasonal =>
    { rra with hwAlpha := .num (1 / 10), hwBeta := .num (1 / 20), dependentRraIdx := toUlong (-1) }
  | .devpredict => { rra with dependentRraIdx := toUlong (-1) }
  | .failures =>
    { rra with
      hwAlpha := .num 2, hwBeta := .num 2, seasonalSmoothIdx := 3, failureThreshold := 2,
      dependentRraIdx := toUlong (-1) }
  | _ => rra

/-- `token_min`. -/
def tokenMin : Cf → ℕ
  | .hwpredict => 5
  | .mhwpredict => 5
  | .devseasonal => 3
  | .devpredict => 3
  | .failures => 5
  | _ => 4

/-- An archive in the making, with the variables its tokens set. -/
structure RraSt : Type where
  /-- the entry of `rra_def` -/
  rra : RraDef
  /-- `stat_head.version` -/
  version : ℕ
  /-- `period`, an `unsigned short` -/
  period : ℕ
  deriving DecidableEq

/-- A row count. -/
def setRowCnt (token : Text) (s : RraSt) : Except CreateError RraSt :=
  if CStr.atoi token ≤ 0 then .error (.rowCnt (CStr.atoi token))
  else .ok { s with rra.rowCnt := (CStr.atoi token).toNat }

/-- The index of another archive, counted from one. -/
def setDependentIdx (token : Text) (s : RraSt) : RraSt :=
  { s with rra.dependentRraIdx := toUlong (CStr.atoi token - 1) }

/-- Is the value outside the open unit interval? A NaN is not. -/
def outsideUnit (v : RrdValue) : Bool := v.le (.num 0) || Dbl.le (.num 1) v

/-- The second token. -/
def rraToken1 (token : Text) (s : RraSt) : Except CreateError RraSt :=
  if s.rra.cf.isPlain then
    let xff := CStr.atof token
    if xff.lt (.num 0) || Dbl.le (.num 1) xff then .error .xff
    else .ok { s with rra.xffVal := xff }
  else setRowCnt token s

/-- The third token. -/
def rraToken2 (hashedName : ℕ) (token : Text) (s : RraSt) : Except CreateError RraSt :=
  match s.rra.cf with
  | .hwpredict | .mhwpredict =>
    if outsideUnit (CStr.atof token) then .error .alpha
    else .ok { s with rra.hwAlpha := CStr.atof token }
  | .seasonal | .devseasonal =>
    (checkedMod hashedName s.rra.rowCnt).bind fun idx =>
      if outsideUnit (CStr.atof token) then .error .gamma
      else .ok { s with rra.hwAlpha := CStr.atof token, rra.seasonalSmoothIdx := idx }
  | .failures =>
    if CStr.atoi token < 1 ∨ (maxFailuresWindowLen : ℤ) < CStr.atoi token then .error .threshold
    else .ok { s with rra.failureThreshold := (CStr.atoi token).toNat }
  | .devpredict => .ok (setDependentIdx token s)
  | _ =>
    if CStr.atoi token < 1 then .error .step
    else .ok { s with rra.pdpCnt := (CStr.atoi token).toNat }

/-- The fourth token. -/
def rraToken3 (token : Text) (s : RraSt) : Except CreateError RraSt :=
  match s.rra.cf with
  | .hwpredict | .mhwpredict =>
    let beta := CStr.atof token
    if beta.lt (.num 0) || Dbl.lt (.num 1) beta then .error .beta
    else .ok { s with rra.hwBeta := beta }
  | .seasonal | .devseasonal => .ok (setDependentIdx token s)
  | .failures =>
    if CStr.atoi token < 1 ∨ (maxFailuresWindowLen : ℤ) < CStr.atoi token then .error .window
    else if (CStr.atoi token).toNat < s.rra.failureThreshold then .error .windowShort
    else .ok { s with rra.seasonalSmoothIdx := (CStr.atoi token).toNat }
  | .devpredict => .error (.extraArgument .devpredict)
  | _ => setRowCnt token s

/-- `sscanf(token, "smoothing-window=%lf", &v)`: the value, or `none` where it returns zero. A
token that ends inside the format makes it return `EOF`, which is not zero, and keeps `old`. -/
def scanSmoothingWindow (old : RrdValue) (token : Text) : Option RrdValue :=
  if token <+: "smoothing-window=".toList then some old
  else
    match CStr.scanWord "smoothing-window=".toList token with
    | none => none
    | some r =>
      if r.dropWhile CStr.isspace = [] then some old else (CStr.scanDouble r).map Prod.fst

/-- The fifth token. -/
def rraToken4 (token : Text) (s : RraSt) : Except CreateError RraSt :=
  match s.rra.cf with
  | .failures => .ok (setDependentIdx token s)
  | .seasonal | .devseasonal =>
    match scanSmoothingWindow s.rra.hwBeta token with
    | none => .error (.option token)
    | some v =>
      if v.lt (.num 0) || Dbl.lt (.num 1) v then .error (.smoothingWindow v)
      else .ok { s with rra.hwBeta := v, version := 4 }
  | .hwpredict | .mhwpredict =>
    let period := (CStr.atoi token % 2 ^ 16).toNat
    if s.rra.rowCnt < period then .error .seasonalCycle else .ok { s with period := period }
  | cf => .error (.extraArgument cf)

/-- The `switch` over `token_idx`, behind the first token. The sixth token is taken for an index
whatever the CF. -/
def rraToken (hashedName : ℕ) : ℕ → Text → RraSt → Except CreateError RraSt
  | 1, token, s => rraToken1 token s
  | 2, token, s => rraToken2 hashedName token s
  | 3, token, s => rraToken3 token s
  | 4, token, s => rraToken4 token s
  | 5, token, s => .ok (setDependentIdx token s)
  | _, _, _ => .error .unknown

/-- The token loop of an `RRA` argument, from token `idx` on. -/
def rraTokens (hashedName : ℕ) : ℕ → List Text → RraSt → Except CreateError RraSt
  | _, [], s => .ok s
  | idx, token :: tokens, s =>
    (rraToken hashedName idx token s).bind (rraTokens hashedName (idx + 1) tokens)

/-- The first token: the CF. -/
def rraCf (token : Text) : Except CreateError Cf :=
  match CStr.scanSet 19 CStr.isupper token with
  | none => .error .cfName
  | some (name, _) =>
    match cfConv name with
    | none => .error (.unknownCf name)
    | some cf => .ok cf

/-- An `RRA:` argument for archive `idx`, up to the check of the number of its tokens. -/
def parseRra (hashedName idx version period : ℕ) (tokens : List Text) : Except CreateError RraSt :=
  match tokens with
  | [] => .error (.argumentCount 4 0)
  | token :: rest =>
    (rraCf token).bind fun cf =>
      (rraTokens hashedName 1 rest
        ⟨rraDefault idx cf, if cf = .mhwpredict then 4 else version, period⟩).bind fun s =>
          if tokens.length < tokenMin cf then .error (.argumentCount (tokenMin cf) tokens.length)
          else .ok s

/-- Is this one of the two predictions? -/
def Cf.isHwpredict : Cf → Bool
  | .hwpredict => true
  | .mhwpredict => true
  | _ => false

/-- `create_hw_contingent_rras`: the prediction `hw` at `idx` and the archives that go with it. -/
def createHwContingentRras (hashedName period idx : ℕ) (hw : RraDef) :
    Except CreateError (List RraDef) :=
  (checkedMod hashedName period).bind fun smoothIdx =>
    .ok
      [{ hw with dependentRraIdx := idx + 1 },
       ⟨.seasonal, period, 1, .num 0, hw.hwAlpha, .num 0, idx, smoothIdx, 0⟩,
       ⟨.devseasonal, period, 1, .num 0, hw.hwAlpha, .num 0, idx, smoothIdx, 0⟩,
       ⟨.devpredict, hw.rowCnt, 1, .num 0, .num 0, .num 0, idx + 2, 0, 0⟩,
       ⟨.failures, period, 1, .num 0, .num 2, .num 2, idx + 2, 9, 7⟩]

/-- The archives that an `RRA` argument ends up with. -/
def contingentRras (hashedName idx : ℕ) (s : RraSt) : Except CreateError (List RraDef) :=
  if s.rra.cf.isHwpredict ∧ s.rra.dependentRraIdx = idx then
    createHwContingentRras hashedName s.period idx s.rra
  else .ok [s.rra]

/-! ## The argument loop -/

/-- What the argument loop has collected. -/
structure Defs : Type where
  /-- `stat_head.version` -/
  version : ℕ
  /-- `ds_def` -/
  ds : List DsDef
  /-- `rra_def` -/
  rras : List RraDef
  /-- `period` -/
  period : ℕ
  deriving DecidableEq

/-- One argument. -/
def createArg (hashedName : ℕ) (arg : Text) (d : Defs) : Except CreateError Defs :=
  match CStr.scanWord "DS:".toList arg with
  | some rest => (parseDsArg d.ds rest).map fun def_ => { d with ds := d.ds ++ [def_] }
  | none =>
    match CStr.scanWord "RRA:".toList arg with
    | some rest =>
      (parseRra hashedName d.rras.length d.version d.period (CStr.strtok ':' rest)).bind fun s =>
        (contingentRras hashedName d.rras.length s).map fun rras =>
          { d with version := s.version, rras := d.rras ++ rras, period := s.period }
    | none => .error (.badArgument arg)

/-- The argument loop. -/
def createArgs (hashedName : ℕ) : List Text → Defs → Except CreateError Defs
  | [], d => .ok d
  | arg :: args, d => (createArg hashedName arg d).bind (createArgs hashedName args)

/-- What `rrd_create_fn`, `rrd_select_initial_row` and `rrd_dontneed` divide by. The product is
one of `unsigned long`s. -/
def divisors (pdpStep : ℕ) (rras : List RraDef) : List ℕ :=
  pdpStep :: rras.flatMap fun r => [pdpStep * r.pdpCnt % 2 ^ 64, r.rowCnt]

/-- **`rrd_create_r`**, up to the definitions that `rrd_create_fn` writes. -/
def rrdCreateR (hashedName pdpStep : ℕ) (args : List Text) : Except CreateError Defs :=
  (createArgs hashedName args ⟨3, [], [], 0⟩).bind fun d =>
    if d.rras = [] then .error .noRra
    else if d.ds = [] then .error .noDs
    else if 0 ∈ divisors pdpStep d.rras then .error .divisionByZero
    else .ok d

end Rrdtool
