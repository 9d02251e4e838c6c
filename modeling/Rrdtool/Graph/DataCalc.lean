import Rrdtool.Define
import Rrdtool.Rpn.Pointers
import Rrdtool.Lib.Extent
import Rrdtool.Lib.Grid
import Mathlib.Data.Nat.GCD.Basic

/-!
# `data_calc`

The loop of `data_calc` over the elements of a graph: a `SHIFT` moves the times of a variable, a `VDEF`
becomes a number, and a `CDEF` is calculated row by row. The variables of a `CDEF` are bound to the data they
name, each with a pointer of its own, and the rows run from the latest start to the earliest end in steps of
the greatest common divisor.

Times are integers here; their sums do not overflow.

* `lcd`, `scanNode`, `startPos` — how a `CDEF` is set up;
* `CdefJob` — its rows;
* `dataCalc` — the elements, one after the other.
-/

namespace Rrdtool

open Loop

/-! ## The step -/

/-- The inner loop of `lcd`. The second number is not zero. -/
def lcdPair (a b : ℕ) : ℕ := if _h : 0 < b ∧ 0 < a % b then lcdPair b (a % b) else b
termination_by b
decreasing_by exact Nat.mod_lt _ _h.1

/-- `lcd`, with the first number that is left. A zero ends the array. -/
def lcdFrom (a : ℕ) : List ℕ → ℕ
  | [] => a
  | b :: num => if b = 0 then a else lcdFrom (lcdPair a b) num

/-- `lcd` -/
def lcd : List ℕ → ℕ
  | [] => 0
  | a :: num => lcdFrom a num

/-! ## The elements of a graph -/

/-- `gf_en`, as far as `data_calc` looks at it. -/
inductive Gf : Type where
  | gfDef | vdef | cdef | shift | other
  deriving DecidableEq

/-- `graph_desc_t` -/
structure GraphDesc : Type where
  /-- `gf` -/
  gf : Gf
  /-- `vidx`: the variable of a `SHIFT` -/
  vidx : ℕ
  /-- `shidx`: the `VDEF` that a `SHIFT` takes its offset from -/
  shidx : Option ℕ
  /-- `shval` -/
  shval : ℤ
  /-- `shift` -/
  shift : ℤ
  /-- `vf.val` -/
  vfVal : RrdValue
  /-- `rpnp`, without the data pointers -/
  rpnp : List RpnNode
  /-- `start` -/
  start : ℤ
  /-- `end` -/
  stop : ℤ
  /-- `step` -/
  step : ℕ
  /-- `ds_cnt` -/
  dsCnt : ℕ
  /-- `ds` -/
  ds : ℕ
  /-- the rows that `data` has memory for -/
  rows : ℕ
  /-- `data`, with what is in front of it and behind it -/
  data : ℤ → RrdValue

/-- `image_desc_t`, with `rpnstack`. -/
structure ImageDesc : Type where
  /-- `gdes` -/
  gdes : ℕ → GraphDesc
  /-- `gdes_c` -/
  gdesC : ℕ
  /-- `rpnstack`, with what is in the data pointers that have not been set -/
  stack : RpnStack

/-- What `data_calc` works with. -/
structure GraphEnv : Type where
  /-- the mathematical functions, and the clock -/
  libm : Libm
  /-- `tzoffset` -/
  tzoffset : ℤ → ℤ
  /-- does `realloc` find memory for so many elements of the stack? -/
  realloc : ℤ → Bool
  /-- does `malloc` find memory for so many values? -/
  malloc : ℕ → Bool
  /-- the `vf.val` that `vdef_calc` finds for an element -/
  vdefCalc : (ℕ → GraphDesc) → ℕ → Option RrdValue

/-- How `data_calc` fails. -/
inductive GraphError : Type where
  /-- `Error processing VDEF '%s'` -/
  | vdef
  /-- `rpn expressions without DEF or CDEF variables are not supported` -/
  | noVariables
  /-- `malloc im->gdes[gdi].data` -/
  | malloc
  /-- the error string of `rpn_calc` -/
  | calc (e : CalcError)
  deriving DecidableEq

/-! ## How a `CDEF` is set up -/

/-- What the loop over the nodes has found so far. -/
structure VarScan : Type where
  /-- the nodes, bound to what they name -/
  prog : List RpnNode
  /-- `steparray` -/
  steps : List ℕ
  /-- `start` -/
  start : ℤ
  /-- `end` -/
  stop : ℤ

/-- One node. A `VDEF` becomes a number. -/
def scanNode (gdes : ℕ → GraphDesc) (s : VarScan) (n : RpnNode) : VarScan :=
  if n.op.IsVar then
    let v := gdes n.ptr
    if v.dsCnt = 0 then { s with prog := s.prog ++ [{ n with op := .number, val := v.vfVal }] }
    else
      { prog := s.prog ++ [{ n with arr := n.ptr, dsCnt := v.dsCnt, step := v.step }]
        steps := s.steps ++ [v.step]
        start := Extent.later s.start v.start
        stop := Extent.earlier s.stop v.stop }
  else { s with prog := s.prog ++ [n] }

/-- The loop over the nodes. -/
def scanNodes (gdes : ℕ → GraphDesc) (rpnp : List RpnNode) : VarScan :=
  rpnp.foldl (scanNode gdes) ⟨[], [], 0, 0⟩

/-- Where the data pointer of a variable starts. The division truncates. -/
def startPos (gdes : ℕ → GraphDesc) (start : ℤ) (n : RpnNode) : ℤ :=
  let v := gdes n.ptr
  let diff := start - v.start
  if 0 < diff then v.ds + diff / v.step * v.dsCnt else v.ds

/-- `(end - start) / step`. The difference becomes an `unsigned long`, a negative one is huge. -/
def rowCount (start stop : ℤ) (step : ℕ) : ℕ :=
  if start ≤ stop then ((stop - start) / step).toNat else toUlong (stop - start) / step

/-- The rows so far. -/
structure CdefRun : Type where
  /-- `rpnstack`, and the data pointers -/
  stack : RpnStack
  /-- `data` -/
  output : ℕ → RrdValue
  /-- `dataidx + 1` -/
  idx : ℕ

/-- A `CDEF` that has been set up. -/
structure CdefJob : Type where
  /-- what the calculator works with -/
  env : RpnEnv
  /-- `rpnp` -/
  prog : List RpnNode
  /-- `start` -/
  start : ℤ
  /-- `end` -/
  stop : ℤ
  /-- `step` -/
  step : ℕ
  /-- before the first row -/
  init : CdefRun

namespace CdefJob

/-- The call of `rpn_calc` for a row. -/
def call (now : ℤ) (s : CdefRun) : RpnCall := ⟨now, s.output, s.idx⟩

/-- What `rpn_calc` leaves behind. -/
def next (s : CdefRun) (c : RpnState) : CdefRun where
  stack := ⟨c.cells, c.known, c.size.toNat, c.data⟩
  output := Function.update s.output s.idx (c.cells 0)
  idx := s.idx + 1

/-- One row. -/
def pass (job : CdefJob) (now : ℤ) (s : CdefRun) : Outcome CalcError CdefRun :=
  match rpnCalcArray job.env (call now s) job.prog s.stack with
  | .fail e c => .fail e (next s c)
  | .ok c => .ok (next s c)

/-- `for (now = ..; now <= end; now += step)` -/
def loop (job : CdefJob) (now : ℤ) (s : CdefRun) : Outcome CalcError CdefRun :=
  if _h : now ≤ job.stop ∧ 0 < job.step then (job.pass now s).andThen (job.loop (now + job.step)) else .ok s
termination_by (job.stop + 1 - now).toNat
decreasing_by omega

/-- All rows. -/
def run (job : CdefJob) : Outcome CalcError CdefRun := job.loop (job.start + job.step) job.init

end CdefJob

/-- The `CDEF` in place `gdi`, set up. -/
def cdefJob (env : GraphEnv) (im : ImageDesc) (gdi : ℕ) : CdefJob :=
  let scan := scanNodes im.gdes (im.gdes gdi).rpnp
  { env := ⟨env.libm, env.tzoffset, fun arr i => (im.gdes arr).data i, env.realloc⟩
    prog := scan.prog
    start := scan.start
    stop := scan.stop
    step := lcd scan.steps
    init :=
      { stack :=
          { im.stack with
            data := fun rpi =>
              match scan.prog[rpi]? with
              | some n => if n.op.IsVar then startPos im.gdes scan.start n else im.stack.data rpi
              | none => im.stack.data rpi }
        output := fun i => (im.gdes gdi).data i
        idx := 0 } }

/-- `case GF_CDEF` -/
def calcCdef (env : GraphEnv) (im : ImageDesc) (gdi : ℕ) : Except GraphError ImageDesc :=
  let d := im.gdes gdi
  let job := cdefJob env im gdi
  if (scanNodes im.gdes d.rpnp).steps = [] then .error .noVariables
  else
    let rows := rowCount job.start job.stop job.step
    if env.malloc rows = false then .error .malloc
    else
      match job.run with
      | .fail e _ => .error (.calc e)
      | .ok s =>
        .ok { im with
          gdes := Function.update im.gdes gdi
            { d with
              rpnp := job.prog, dsCnt := 1, ds := 0, start := job.start, stop := job.stop, step := job.step
              rows := rows
              data := fun i => if 0 ≤ i then s.output i.toNat else d.data i }
          stack := s.stack }

/-! ## The elements, one after the other -/

/-- `case GF_SHIFT`. Both divisions truncate. -/
def applyShift (im : ImageDesc) (gdi : ℕ) : ImageDesc :=
  let g := im.gdes gdi
  let vdp := im.gdes g.vidx
  let shift : ℤ :=
    match g.shidx with
    | some i => cLong (im.gdes i).vfVal
    | none => g.shval
  let shift : ℤ := shift.tdiv vdp.step * vdp.step
  { im with
    gdes := Function.update im.gdes g.vidx
      { vdp with
        start := vdp.start - vdp.shift + shift
        stop := vdp.stop - vdp.shift + shift
        shift := shift } }

/-- `case GF_VDEF` -/
def calcVdef (env : GraphEnv) (im : ImageDesc) (gdi : ℕ) : Except GraphError ImageDesc :=
  let gdes := Function.update im.gdes gdi { im.gdes gdi with dsCnt := 0 }
  match env.vdefCalc gdes gdi with
  | none => .error .vdef
  | some val => .ok { im with gdes := Function.update gdes gdi { gdes gdi with vfVal := val } }

/-- One element. -/
def calcEntry (env : GraphEnv) (im : ImageDesc) (gdi : ℕ) : Except GraphError ImageDesc :=
  match (im.gdes gdi).gf with
  | .shift => .ok (applyShift im gdi)
  | .vdef => calcVdef env im gdi
  | .cdef => calcCdef env im gdi
  | .gfDef => .ok im
  | .other => .ok im

/-- The first `k` elements. -/
def calcEntries (env : GraphEnv) : ℕ → ImageDesc → Except GraphError ImageDesc
  | 0, im => .ok im
  | k + 1, im => (calcEntries env k im).bind fun im => calcEntry env im k

/-- `data_calc` -/
def dataCalc (env : GraphEnv) (im : ImageDesc) : Except GraphError ImageDesc := calcEntries env im.gdesC im

end Rrdtool
