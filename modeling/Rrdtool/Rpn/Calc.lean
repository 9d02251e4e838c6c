import Rrdtool.Rpn
import Rrdtool.Lib.Loop
import Mathlib.Tactic.Simps.Basic

/-!
# The RPN calculator on its array

`rpn_calc` as it works on the memory: the stack is an array that grows, an operator reads and writes its
elements by their index, and a variable is read through a pointer that the evaluation moves on. What is
read and written is kept in two logs, one of the stack elements and one of the data.

`rpnStep` is what the operators of a `COMPUTE` DS do to the stack as a list; here are all operators, with
the arity of those that take it from the stack.
-/

namespace Rrdtool

open Loop

/-! ## Data -/

/-- A number stored into an `int`: what does not fit is `INT_MIN`. -/
def cInt (x : RrdValue) : ℤ :=
  let z := x.toInt (-2 ^ 31)
  if -2 ^ 31 ≤ z ∧ z < 2 ^ 31 then z else -2 ^ 31

/-- A number stored into a `time_t`: what does not fit is `LONG_MIN`. -/
def cLong (x : RrdValue) : ℤ :=
  let z := x.toInt (-2 ^ 63)
  if -2 ^ 63 ≤ z ∧ z < 2 ^ 63 then z else -2 ^ 63

/-- An expression of type `int`: what does not fit wraps. -/
def wrapInt (z : ℤ) : ℤ := z.bmod (2 ^ 32)

/-- `(int) ceil((float) a / (float) b)`, without rounding. -/
def ceilQuot (a b : ℤ) : ℤ := cInt (Dbl.ceil (.num a / .num b))

/-- `rpnp_t`. The pointer `data` is an index into the array `arr`; evaluations move it. -/
structure RpnNode extends Rpnp where
  /-- the array that `data` points into -/
  arr : ℕ
  /-- `ds_cnt` -/
  dsCnt : ℕ
  /-- `step` -/
  step : ℕ
  deriving DecidableEq

/-- What the calculator works with. -/
structure RpnEnv : Type where
  /-- the mathematical functions, and the clock -/
  libm : Libm
  /-- `tzoffset` -/
  tzoffset : ℤ → ℤ
  /-- the arrays of the variables, and what is in front of them and behind them -/
  mem : ℕ → ℤ → RrdValue
  /-- does `realloc` find memory for so many elements? -/
  realloc : ℤ → Bool

/-- The arguments of `rpn_calc`. -/
structure RpnCall : Type where
  /-- `data_idx` -/
  dataIdx : ℤ
  /-- `output` -/
  output : ℕ → RrdValue
  /-- `output_idx` -/
  outputIdx : ℤ

/-- How `rpn_calc` fails. -/
inductive CalcError : Type where
  /-- `RPN stack overflow`: there is no memory -/
  | stackOverflow
  /-- `RPN stack underflow` -/
  | stackUnderflow
  /-- `VDEF made it into rpn_calc... aborting` -/
  | vdef
  /-- `malformed trend arguments` -/
  | malformedTrend
  /-- `negative shift step not allowed: %i` -/
  | negativeShift (step : ℤ)
  /-- `RPN final stack size != 1` -/
  | finalStackSize
  /-- no message: the processor ends the process at `data_idx % step` -/
  | divisionByZero
  deriving DecidableEq

/-- One access to the stack, with `dc_stacksize`, and `stptr` as it was when the operator started. -/
inductive Touch : Type where
  /-- an element is read or written; had it been written before a read? -/
  | cell (index size top : ℤ) (known : Bool)
  /-- `qsort` is called; had all the elements been written? -/
  | sort (base count size top : ℤ) (known : Bool)
  deriving DecidableEq

/-- The state of an evaluation. -/
structure RpnState : Type where
  /-- `rpnstack->s` -/
  cells : ℤ → RrdValue
  /-- the elements that have been written -/
  known : ℤ → Bool
  /-- `rpnstack->dc_stacksize` -/
  size : ℤ
  /-- `stptr` -/
  stptr : ℤ
  /-- `stptr`, as it was when the operator started -/
  top : ℤ
  /-- `rpnp[].data` -/
  data : ℕ → ℤ
  /-- the accesses to the stack, the last one first -/
  touched : List Touch
  /-- the reads of the data: the node, and the index in its array, the last one first -/
  reads : List (ℕ × ℤ)

/-- The result of an operator. -/
abbrev CalcOutcome : Type := Outcome CalcError RpnState

namespace RpnState

/-! ## Accesses -/

/-- `rpnstack->s[i]` is read. -/
@[simps] def load (c : RpnState) (i : ℤ) : RpnState :=
  { c with touched := .cell i c.size c.top (c.known i) :: c.touched }

/-- `rpnstack->s[i] = v` -/
@[simps] def store (c : RpnState) (i : ℤ) (v : RrdValue) : RpnState :=
  { c with
    cells := Function.update c.cells i v
    known := Function.update c.known i true
    touched := .cell i c.size c.top true :: c.touched }

/-- `stptr += k` -/
@[simps] def move (c : RpnState) (k : ℤ) : RpnState := { c with stptr := c.stptr + k }

/-- `rpnstack->s[++stptr] = v` -/
def push (c : RpnState) (v : RrdValue) : RpnState := (c.move 1).store (c.stptr + 1) v

@[simp] theorem push_stptr (c : RpnState) (v : RrdValue) : (c.push v).stptr = c.stptr + 1 := rfl

@[simp] theorem push_size (c : RpnState) (v : RrdValue) : (c.push v).size = c.size := rfl

@[simp] theorem push_top (c : RpnState) (v : RrdValue) : (c.push v).top = c.top := rfl

@[simp] theorem push_data (c : RpnState) (v : RrdValue) : (c.push v).data = c.data := rfl

@[simp] theorem push_reads (c : RpnState) (v : RrdValue) : (c.push v).reads = c.reads := rfl

@[simp] theorem push_cells (c : RpnState) (v : RrdValue) :
    (c.push v).cells = Function.update c.cells (c.stptr + 1) v := rfl

@[simp] theorem push_known (c : RpnState) (v : RrdValue) :
    (c.push v).known = Function.update c.known (c.stptr + 1) true := rfl

@[simp] theorem push_touched (c : RpnState) (v : RrdValue) :
    (c.push v).touched = .cell (c.stptr + 1) c.size c.top true :: c.touched := rfl

/-- An element of the data of a node is read. -/
@[simps] def readData (c : RpnState) (rpi : ℕ) (pos : ℤ) : RpnState := { c with reads := (rpi, pos) :: c.reads }

/-- `n` elements from index `base` on. -/
def block (c : RpnState) (base : ℤ) (n : ℕ) : List RrdValue := (List.range n).map fun k => c.cells (base + k)

/-- Elements are written back. -/
def storeBlock (c : RpnState) (base : ℤ) (vs : List RrdValue) : RpnState :=
  { c with cells := fun i => if base ≤ i then vs.getD (i - base).toNat (c.cells i) else c.cells i }

/-- `stackunderflow(MINSIZE)`, and what follows. -/
def need (c : RpnState) (minsize : ℤ) (k : RpnState → CalcOutcome) : CalcOutcome :=
  if c.stptr < minsize then .fail .stackUnderflow c else k c

/-- `dc_stackblock` -/
def stackblock : ℤ := 100

/-- The stack grows. -/
def grow (env : RpnEnv) (c : RpnState) : CalcOutcome :=
  if c.size < c.stptr + 5 then
    let c := { c with size := c.size + stackblock }
    if env.realloc c.size then .ok c else .fail .stackOverflow c
  else .ok c

/-! ## Families of operators -/

/-- The top is replaced. -/
def unary (c : RpnState) (f : RrdValue → RrdValue) : CalcOutcome :=
  c.need 0 fun c => .ok ((c.load c.stptr).store c.stptr (f (c.cells c.stptr)))

/-- The two elements on top are replaced by one. -/
def binary (c : RpnState) (f : RrdValue → RrdValue → RrdValue) : CalcOutcome :=
  c.need 1 fun c =>
    let v := f (c.cells (c.stptr - 1)) (c.cells c.stptr)
    .ok ((((c.load (c.stptr - 1)).load c.stptr).store (c.stptr - 1) v).move (-1))

/-- The three elements on top are replaced by one. -/
def ternary (c : RpnState) (f : RrdValue → RrdValue → RrdValue → RrdValue) : CalcOutcome :=
  c.need 2 fun c =>
    let v := f (c.cells (c.stptr - 2)) (c.cells (c.stptr - 1)) (c.cells c.stptr)
    .ok (((((c.load (c.stptr - 2)).load (c.stptr - 1)).load c.stptr).store (c.stptr - 2) v).move (-2))

end RpnState

/-! ## Operators with a body of their own -/

open RpnState

/-- `OP_VARIABLE` and `OP_PREV_OTHER`. -/
def opVariable (env : RpnEnv) (call : RpnCall) (n : RpnNode) (rpi : ℕ) (c : RpnState) : CalcOutcome :=
  if n.dsCnt = 0 then .fail .vdef c
  else
    let pos := c.data rpi
    let c :=
      if n.op = .variable then (c.readData rpi pos).push (env.mem n.arr pos)
      else if call.outputIdx ≤ 0 then c.push dnan
      else (c.readData rpi (pos - n.dsCnt)).push (env.mem n.arr (pos - n.dsCnt))
    if n.step = 0 then .fail .divisionByZero c
    else if call.dataIdx.tmod n.step = 0 then
      .ok { c with data := Function.update c.data rpi (pos + n.dsCnt) }
    else .ok c

/-- `OP_DUP` -/
def opDup (c : RpnState) : CalcOutcome :=
  c.need 0 fun c => .ok (((c.load c.stptr).store (c.stptr + 1) (c.cells c.stptr)).move 1)

/-- `OP_EXC` -/
def opExc (c : RpnState) : CalcOutcome :=
  c.need 1 fun c =>
    let dummy := c.cells c.stptr
    .ok ((((c.load c.stptr).load (c.stptr - 1)).store c.stptr (c.cells (c.stptr - 1))).store
      (c.stptr - 1) dummy)

/-- `OP_SORT`. The count is popped, and taken as it is. -/
def opSort (c : RpnState) : CalcOutcome :=
  c.need 0 fun c =>
    let spn := cInt (c.cells c.stptr)
    let c := (c.load c.stptr).move (-1)
    c.need (wrapInt (spn - 1)) fun c =>
      let base := c.stptr - spn + 1
      let known := (List.range spn.toNat).all fun k => c.known (base + k)
      let c := { c with touched := .sort base spn c.size c.top known :: c.touched }
      .ok (c.storeBlock base ((c.block base spn.toNat).mergeSort rpnSortLe))

/-- The loop of `OP_REV`: `p` and `q` move towards each other. -/
def revLoop : ℕ → ℤ → ℤ → RpnState → RpnState
  | 0, _, _, c => c
  | fuel + 1, p, q, c =>
    if p < q then
      let x := c.cells q
      revLoop fuel (p + 1) (q - 1) ((((c.load q).load p).store q (c.cells p)).store p x)
    else c

/-- `OP_REV` -/
def opRev (c : RpnState) : CalcOutcome :=
  c.need 0 fun c =>
    let spn := cInt (c.cells c.stptr)
    let c := (c.load c.stptr).move (-1)
    c.need (wrapInt (spn - 1)) fun c => .ok (revLoop spn.toNat (c.stptr - spn + 1) c.stptr c)

/-- One value of `OP_AVG`. -/
def avgPass (s : RpnState × RrdValue × ℕ) : RpnState × RrdValue × ℕ :=
  let c := s.1
  let val := c.cells c.stptr
  let c' := (c.load c.stptr).move (-1)
  if val.isnan then (c', s.2) else (c', s.2.1 + val, s.2.2 + 1)

/-- `OP_AVG` -/
def opAvg (c : RpnState) : CalcOutcome :=
  c.need 0 fun c =>
    let i := cInt (c.cells c.stptr)
    let c := (c.load c.stptr).move (-1)
    c.need (wrapInt (i - 1)) fun c =>
      let s := forLoop i.toNat (fun _ s => avgPass s) (c, .num 0, 0)
      .ok (s.1.push (if 0 < s.2.2 then s.2.1 / Dbl.ofNat s.2.2 else dnan))

/-- `accum` and `count` of `OP_TREND` with the index `i`, after one more value. -/
structure TrendAcc : Type where
  /-- `accum` -/
  accum : RrdValue
  /-- `i` -/
  i : ℤ
  /-- `count` -/
  count : ℕ

/-- One pass of the loop of `OP_TREND` and `OP_TRENDNAN`. -/
def trendPass (env : RpnEnv) (v : RpnNode) (rpi : ℕ) (ignorenan : Bool) (s : RpnState × TrendAcc) :
    RpnState × TrendAcc :=
  let pos := s.1.data rpi + v.dsCnt * s.2.i
  let val := env.mem v.arr pos
  let c := s.1.readData rpi pos
  if ignorenan || !val.isnan then (c, ⟨s.2.accum + val, s.2.i - 1, s.2.count + 1⟩)
  else (c, ⟨s.2.accum, s.2.i - 1, s.2.count⟩)

/-- `while (dur > 0)`: the passes behind the first one. -/
def trendLoop (env : RpnEnv) (v : RpnNode) (rpi : ℕ) (ignorenan : Bool) (dur : ℤ)
    (s : RpnState × TrendAcc) : RpnState × TrendAcc :=
  if _h : 0 < dur ∧ 0 < v.step then
    trendLoop env v rpi ignorenan (dur - v.step) (trendPass env v rpi ignorenan s)
  else s
termination_by dur.toNat
decreasing_by omega

/-- `OP_TREND` and `OP_TRENDNAN`, with the node two before it. -/
def opTrend (env : RpnEnv) (call : RpnCall) (op : Op) (v : Option RpnNode) (rpi : ℕ) (c : RpnState) :
    CalcOutcome :=
  c.need 1 fun c =>
    match v with
    | none => .fail .malformedTrend c
    | some v =>
      if v.op ≠ .variable then .fail .malformedTrend c
      else
        let dur := cLong (c.cells c.stptr)
        let c := c.load c.stptr
        if ceilQuot dur v.step ≤ call.outputIdx + 1 then
          let ignorenan := decide (op = .trend)
          let s := trendPass env v (rpi - 2) ignorenan (c, ⟨.num 0, 0, 0⟩)
          -- a `time_t`: the smallest one wraps
          let s := trendLoop env v (rpi - 2) ignorenan ((dur - v.step).bmod (2 ^ 64)) s
          let v := if s.2.count = 0 then dnan else s.2.accum / Dbl.ofNat s.2.count
          .ok ((s.1.move (-1)).store (c.stptr - 1) v)
        else .ok ((c.move (-1)).store (c.stptr - 1) dnan)

/-- `sum`, `sum2` and `count` of `OP_PREDICT`. -/
structure PredictAcc : Type where
  /-- `sum` -/
  sum : RrdValue
  /-- `sum2` -/
  sum2 : RrdValue
  /-- `count` -/
  count : ℕ

/-- One value of the inner loop of `OP_PREDICT`. -/
def predictPass (env : RpnEnv) (call : RpnCall) (v : RpnNode) (rpi : ℕ) (offset : ℤ)
    (s : RpnState × PredictAcc) : RpnState × PredictAcc :=
  if 0 ≤ offset ∧ offset < call.outputIdx then
    let pos := s.1.data rpi - v.dsCnt * offset
    let val := env.mem v.arr pos
    let c := s.1.readData rpi pos
    if val.isnan then (c, s.2) else (c, ⟨s.2.sum + val, s.2.sum2 + val * val, s.2.count + 1⟩)
  else s

/-- One pass of its outer loop: one shift. The flag says that `shifts` is negative. -/
def predictShift (env : RpnEnv) (call : RpnCall) (v : RpnNode) (rpi : ℕ) (locstep : ℤ) (negative : Bool)
    (loop : ℕ) (s : RpnState × PredictAcc) : Outcome CalcError (RpnState × PredictAcc) :=
  let c := s.1
  let index := if negative then c.stptr else c.stptr + loop
  let shiftstep := if negative then cInt (Dbl.ofNat loop * c.cells index) else cInt (c.cells index)
  let s := (c.load index, s.2)
  if shiftstep < 0 then .fail (.negativeShift shiftstep) s
  else
    let shiftstep := ceilQuot shiftstep v.step
    .ok (forLoop (locstep + 1).toNat (fun i s => predictPass env call v rpi (shiftstep + i) s) s)

/-- The value at the end. -/
def predictValue (libm : Libm) (op : Op) (a : PredictAcc) : RrdValue :=
  let count := Dbl.ofNat a.count
  if op = .predict then if 0 < a.count then a.sum / count else dnan
  else if 1 < a.count then
    let val := count * a.sum2 - a.sum * a.sum
    if val.lt (.num 0) then dnan else libm.sqrt (val / (count * (count - .num 1)))
  else dnan

/-- The shifts of `OP_PREDICT`, where their number and the size of the window have been popped. -/
def predictShifts (env : RpnEnv) (call : RpnCall) (op : Op) (v : RpnNode) (rpi : ℕ)
    (locstepsize shifts : ℤ) (c : RpnState) : CalcOutcome :=
  let c := if shifts < 0 then c.move (-1) else c.move (-shifts)
  let locstep := ceilQuot locstepsize v.step
  let doshifts := if shifts < 0 then wrapInt (-shifts) else shifts
  match forLoopE doshifts.toNat (predictShift env call v (rpi - 1) locstep (decide (shifts < 0)))
      (c, ⟨.num 0, .num 0, 0⟩) with
  | .fail e s => .fail e s.1
  | .ok s => .ok (s.1.store s.1.stptr (predictValue env.libm op s.2))

/-- `OP_PREDICT` and `OP_PREDICTSIGMA`, with the node before it. -/
def opPredict (env : RpnEnv) (call : RpnCall) (op : Op) (v : RpnNode) (rpi : ℕ) (c : RpnState) :
    CalcOutcome :=
  c.need 2 fun c =>
    let locstepsize := cInt (c.cells (c.stptr - 1))
    let shifts := cInt (c.cells (c.stptr - 2))
    let c := (((c.move (-1)).load (c.stptr - 1)).move (-1)).load (c.stptr - 2)
    c.need shifts (predictShifts env call op v rpi locstepsize shifts)

/-! ## The calculator -/

/-- The case distinction of `rpn_calc`, for the node `rpi`. -/
def rpnOp (env : RpnEnv) (call : RpnCall) (prog : List RpnNode) (rpi : ℕ) (n : RpnNode)
    (c : RpnState) : CalcOutcome :=
  match n.op with
  | .number => .ok (c.push n.val)
  | .variable => opVariable env call n rpi c
  | .prevOther => opVariable env call n rpi c
  | .count => .ok (c.push (.num (call.outputIdx + 1 : ℤ)))
  | .prev =>
    .ok (c.push (if call.outputIdx ≤ 0 then dnan else call.output (call.outputIdx - 1).toNat))
  | .unkn => .ok (c.push dnan)
  | .inf => .ok (c.push .inf)
  | .neginf => .ok (c.push .neginf)
  | .now => .ok (c.push env.libm.now)
  | .time => .ok (c.push (.num (call.dataIdx : ℤ)))
  | .ltime => .ok (c.push (.num (env.tzoffset call.dataIdx : ℤ) + .num (call.dataIdx : ℤ)))
  | .add => c.binary (· + ·)
  | .addnan => c.binary rpnAddnan
  | .sub => c.binary (· - ·)
  | .mul => c.binary (· * ·)
  | .div => c.binary (· / ·)
  | .mod => c.binary fmod
  | .sin => c.unary env.libm.sin
  | .atan => c.unary env.libm.atan
  | .rad2deg => c.unary fun a => .num (5729577951 / 100000000) * a
  | .deg2rad => c.unary fun a => .num (174532952 / 10000000000) * a
  | .atan2 => c.binary env.libm.atan2
  | .cos => c.unary env.libm.cos
  | .ceil => c.unary Dbl.ceil
  | .floor => c.unary Dbl.floor
  | .log => c.unary env.libm.log
  | .dup => opDup c
  | .pop => c.need 0 fun c => .ok (c.move (-1))
  | .exc => opExc c
  | .exp => c.unary env.libm.exp
  | .lt => c.binary (rpnCompare fun a b => a.lt b)
  | .le => c.binary (rpnCompare fun a b => a.le b)
  | .gt => c.binary (rpnCompare fun a b => b.lt a)
  | .ge => c.binary (rpnCompare fun a b => b.le a)
  | .ne => c.binary (rpnCompare fun a b => !a.eq b)
  | .eq => c.binary (rpnCompare fun a b => a.eq b)
  | .cond => c.ternary fun x a b => if x.isnan || x.eq (.num 0) then b else a
  | .min => c.binary (rpnPick fun a b => b.lt a)
  | .max => c.binary (rpnPick fun a b => a.lt b)
  | .limit => c.ternary rpnLimit
  | .un => c.unary fun a => if a.isnan then .num 1 else .num 0
  | .isinf => c.unary fun a => if a.isinf then .num 1 else .num 0
  | .sqrt => c.unary env.libm.sqrt
  | .sort => opSort c
  | .rev => opRev c
  | .predict => opPredict env call n.op (prog.getD (rpi - 1) n) rpi c
  | .predictsigma => opPredict env call n.op (prog.getD (rpi - 1) n) rpi c
  | .trend => opTrend env call n.op (if rpi < 2 then none else prog[rpi - 2]?) rpi c
  | .trendnan => opTrend env call n.op (if rpi < 2 then none else prog[rpi - 2]?) rpi c
  | .avg => opAvg c
  | .abs => c.unary Dbl.fabs

/-- An operator starts. -/
def RpnState.start (c : RpnState) : RpnState := { c with top := c.stptr }

/-- One pass of the loop: the stack grows if it has to, then the operator works. -/
def rpnPass (env : RpnEnv) (call : RpnCall) (prog : List RpnNode) (rpi : ℕ) (c : RpnState) :
    CalcOutcome :=
  match prog[rpi]? with
  | none => .ok c
  | some n => (c.grow env).andThen fun c => rpnOp env call prog rpi n c.start

/-- The first `k` nodes. -/
def rpnRun (env : RpnEnv) (call : RpnCall) (prog : List RpnNode) (k : ℕ) (c : RpnState) :
    CalcOutcome := forLoopE k (rpnPass env call prog) c

/-- The end of `rpn_calc`: one element has to be left. -/
def rpnFinish (c : RpnState) : CalcOutcome :=
  if c.stptr ≠ 0 then .fail .finalStackSize c else .ok (c.start.load 0)

/-- `rpnstack_t`, as earlier evaluations have left it, and the data pointers of the program. -/
structure RpnStack : Type where
  /-- `s` -/
  cells : ℤ → RrdValue
  /-- the elements that have been written -/
  known : ℤ → Bool
  /-- `dc_stacksize` -/
  size : ℕ
  /-- `rpnp[].data` -/
  data : ℕ → ℤ

/-- The state in which `rpn_calc` starts. -/
def RpnStack.state (s : RpnStack) : RpnState where
  cells := s.cells
  known := s.known
  size := s.size
  stptr := -1
  top := -1
  data := s.data
  touched := []
  reads := []

/-- `rpn_calc`: `output[output_idx]` is element 0 of the stack it returns. -/
def rpnCalcArray (env : RpnEnv) (call : RpnCall) (prog : List RpnNode) (s : RpnStack) : CalcOutcome :=
  (rpnRun env call prog prog.length s.state).andThen rpnFinish

end Rrdtool
