import Rrdtool.Format
import Mathlib.Algebra.Order.Floor.Ring

/-!
# The RPN calculator on `COMPUTE` data sources

`rpn_expand` and `rpn_calc` as `process_pdp_st` calls them: the program of a `COMPUTE` DS is
expanded, its variables are replaced by the PDPs of the current update, and the calculator
runs with `data_idx = 0` and without data pointers (`ds_cnt` is zero in every node).

The stack is a list with the top first, so `stackunderflow(n)` asks for more than `n`
elements. Every failure the calculator reports is an `RpnError`.
-/

namespace Rrdtool

/-- What the calculator takes from `libm`, the clock and the time zone. -/
structure Libm : Type where
  /-- `sin` -/
  sin : RrdValue → RrdValue
  /-- `cos` -/
  cos : RrdValue → RrdValue
  /-- `log` -/
  log : RrdValue → RrdValue
  /-- `exp` -/
  exp : RrdValue → RrdValue
  /-- `sqrt` -/
  sqrt : RrdValue → RrdValue
  /-- `atan` -/
  atan : RrdValue → RrdValue
  /-- `atan2` -/
  atan2 : RrdValue → RrdValue → RrdValue
  /-- `time(NULL)` -/
  now : RrdValue
  /-- `tzoffset(0)` -/
  tzoffset : RrdValue

/-- The errors of `rpn_calc`. -/
inductive RpnError : Type where
  /-- `RPN stack underflow` -/
  | stackUnderflow
  /-- `VDEF made it into rpn_calc... aborting` -/
  | vdef
  /-- `malformed trend arguments` -/
  | malformedTrend
  /-- `RPN final stack size != 1` -/
  | finalStackSize
  /-- `qsort` or a data pointer is used outside its array: the process does not survive -/
  | outOfBounds
  deriving DecidableEq

/-- `rpnp_t`: an operator with the value of `OP_NUMBER` and the index of a variable. -/
structure Rpnp : Type where
  /-- `op` -/
  op : Op
  /-- `val` -/
  val : RrdValue
  /-- `ptr` -/
  ptr : ℕ
  deriving DecidableEq

/-- `rpn_expand` on one node. -/
def rpnExpand (c : RpnCdefds) : Rpnp :=
  match c.op with
  | .number => ⟨.number, .num c.val, 0⟩
  | .variable => ⟨.variable, .num 0, c.val.toNat⟩
  | .prevOther => ⟨.prevOther, .num 0, c.val.toNat⟩
  | op => ⟨op, .num 0, 0⟩

/-- `fmod`. -/
def fmod : RrdValue → RrdValue → RrdValue
  | .num a, .num b =>
    if b = 0 then .nan else .num (a - b * (Dbl.toInt 0 (.num (a / b)) : ℤ))
  | .num a, .inf => .num a
  | .num a, .neginf => .num a
  | _, _ => .nan

/-- A comparison of two stack elements: NaN wins, else one or zero. -/
def rpnCompare (test : RrdValue → RrdValue → Bool) (a b : RrdValue) : RrdValue :=
  if a.isnan then a else if b.isnan then b else if test a b then .num 1 else .num 0

/-- `OP_MIN` and `OP_MAX`: the second operand replaces the first when `test` says so. -/
def rpnPick (test : RrdValue → RrdValue → Bool) (a b : RrdValue) : RrdValue :=
  if a.isnan then a else if b.isnan then b else if test a b then b else a

/-- `OP_LIMIT`. -/
def rpnLimit (a lo hi : RrdValue) : RrdValue :=
  if a.isnan then a
  else if lo.isnan then lo
  else if hi.isnan then hi
  else if a.lt lo then dnan
  else if hi.lt a then dnan
  else a

/-- `OP_ADDNAN`. -/
def rpnAddnan (a b : RrdValue) : RrdValue :=
  if a.isnan then b else if b.isnan then a else a + b

/-- The order `rpn_compare_double` gives to `qsort`. -/
def rpnSortLe (a b : RrdValue) : Bool := !(Dbl.lt (.num 0) (a - b))

/-- `OP_AVG` over the popped elements. -/
def rpnAvg (xs : List RrdValue) : RrdValue :=
  let known := xs.filter fun x => !x.isnan
  if known.length = 0 then dnan
  else known.foldl (fun sum x => sum + x) (.num 0) / Dbl.ofNat known.length

/-- `INT_MIN`, what the conversion of a NaN to `int` gives. -/
def intMin : ℤ := -2147483648

/-- Apply a function to the top of the stack. -/
def rpnUnary (f : RrdValue → RrdValue) : List RrdValue → Except RpnError (List RrdValue)
  | a :: s => .ok (f a :: s)
  | [] => .error .stackUnderflow

/-- Replace the two top elements by a function of them. -/
def rpnBinary (f : RrdValue → RrdValue → RrdValue) :
    List RrdValue → Except RpnError (List RrdValue)
  | b :: a :: s => .ok (f a b :: s)
  | _ => .error .stackUnderflow

/-- One pass of the loop of `rpn_calc`. -/
def rpnStep (lib : Libm) (output : ℕ → RrdValue) (outputIdx : ℕ) (n : Rpnp)
    (s : List RrdValue) : Except RpnError (List RrdValue) :=
  match n.op with
  | .number => .ok (n.val :: s)
  -- `ds_cnt == 0`: variables were substituted before, so only these two cases are left
  | .variable => .error .vdef
  | .prevOther => .error .vdef
  | .count => .ok (Dbl.ofNat (outputIdx + 1) :: s)
  | .prev => .ok ((if outputIdx = 0 then dnan else output (outputIdx - 1)) :: s)
  | .unkn => .ok (dnan :: s)
  | .inf => .ok (.inf :: s)
  | .neginf => .ok (.neginf :: s)
  | .now => .ok (lib.now :: s)
  | .time => .ok (.num 0 :: s)
  | .ltime => .ok ((lib.tzoffset + .num 0) :: s)
  | .add => rpnBinary (· + ·) s
  | .addnan => rpnBinary rpnAddnan s
  | .sub => rpnBinary (· - ·) s
  | .mul => rpnBinary (· * ·) s
  | .div => rpnBinary (· / ·) s
  | .mod => rpnBinary fmod s
  | .sin => rpnUnary lib.sin s
  | .atan => rpnUnary lib.atan s
  | .rad2deg => rpnUnary (fun a => .num (5729577951 / 100000000) * a) s
  | .deg2rad => rpnUnary (fun a => .num (174532952 / 10000000000) * a) s
  | .atan2 => rpnBinary lib.atan2 s
  | .cos => rpnUnary lib.cos s
  | .ceil => rpnUnary Dbl.ceil s
  | .floor => rpnUnary Dbl.floor s
  | .log => rpnUnary lib.log s
  | .dup =>
    match s with
    | a :: t => .ok (a :: a :: t)
    | [] => .error .stackUnderflow
  | .pop =>
    match s with
    | _ :: t => .ok t
    | [] => .error .stackUnderflow
  | .exc =>
    match s with
    | b :: a :: t => .ok (a :: b :: t)
    | _ => .error .stackUnderflow
  | .exp => rpnUnary lib.exp s
  | .lt => rpnBinary (rpnCompare fun a b => a.lt b) s
  | .le => rpnBinary (rpnCompare fun a b => a.le b) s
  | .gt => rpnBinary (rpnCompare fun a b => b.lt a) s
  | .ge => rpnBinary (rpnCompare fun a b => b.le a) s
  | .ne => rpnBinary (rpnCompare fun a b => !a.eq b) s
  | .eq => rpnBinary (rpnCompare fun a b => a.eq b) s
  | .cond =>
    match s with
    | c :: b :: a :: t => .ok ((if a.isnan || a.eq (.num 0) then c else b) :: t)
    | _ => .error .stackUnderflow
  | .min => rpnBinary (rpnPick fun a b => b.lt a) s
  | .max => rpnBinary (rpnPick fun a b => a.lt b) s
  | .limit =>
    match s with
    | hi :: lo :: a :: t => .ok (rpnLimit a lo hi :: t)
    | _ => .error .stackUnderflow
  | .un => rpnUnary (fun a => if a.isnan then .num 1 else .num 0) s
  | .isinf => rpnUnary (fun a => if a.isinf then .num 1 else .num 0) s
  | .sqrt => rpnUnary lib.sqrt s
  | .sort =>
    match s with
    | c :: t =>
      let spn := c.toInt intMin
      if (t.length : ℤ) < spn then .error .stackUnderflow
      -- a negative count reaches `qsort` as a huge `size_t`
      else if spn < 0 then .error .outOfBounds
      else .ok (((t.take spn.toNat).mergeSort rpnSortLe).reverse ++ t.drop spn.toNat)
    | [] => .error .stackUnderflow
  | .rev =>
    match s with
    | c :: t =>
      let spn := c.toInt intMin
      if (t.length : ℤ) < spn then .error .stackUnderflow
      else .ok ((t.take spn.toNat).reverse ++ t.drop spn.toNat)
    | [] => .error .stackUnderflow
  | .avg =>
    match s with
    | c :: t =>
      let i := c.toInt intMin
      if (t.length : ℤ) < i then .error .stackUnderflow
      else .ok (rpnAvg (t.take i.toNat) :: t.drop i.toNat)
    | [] => .error .stackUnderflow
  -- `parseCDEF_DS` refuses the operators that look back into the data of a variable
  | .trend => .error .malformedTrend
  | .trendnan => .error .malformedTrend
  | .predict => .error .outOfBounds
  | .predictsigma => .error .outOfBounds
  | .abs => rpnUnary Dbl.fabs s

/-- `rpn_calc`: the value it stores into `output[output_idx]`. -/
def rpnCalc (lib : Libm) (output : ℕ → RrdValue) (outputIdx : ℕ) :
    List Rpnp → List RrdValue → Except RpnError RrdValue
  | [], [v] => .ok v
  | [], _ => .error .finalStackSize
  | n :: prog, s =>
    match rpnStep lib output outputIdx n s with
    | .ok t => rpnCalc lib output outputIdx prog t
    | .error e => .error e

/-- The substitution loop of `process_pdp_st`: an `OP_VARIABLE` becomes the number its DS
has in `pdp_temp`. -/
def substVariable (pdpTemp : ℕ → RrdValue) (n : Rpnp) : Rpnp :=
  if n.op = .variable then { n with op := .number, val := pdpTemp n.ptr } else n

/-- A `COMPUTE` program on the PDPs of one update. A DS index beyond `SHRT_MAX` has been stored as
a negative number and points in front of `pdp_temp`. -/
def computeDs (lib : Libm) (prog : List RpnCdefds) (pdpTemp : ℕ → RrdValue) (dsIdx : ℕ) :
    Except RpnError RrdValue :=
  if prog.any fun c => c.op = .variable && decide (c.val < 0) then .error .outOfBounds
  else rpnCalc lib pdpTemp dsIdx (prog.map fun c => substVariable pdpTemp (rpnExpand c)) []

end Rrdtool
