import Rrdtool.FetchWindow
import Rrdtool.Define
import Rrdtool.Lib.Tape
import Rrdtool.Lib.RunningSum
import Mathlib.Data.Nat.Prime.Basic
import Mathlib.Tactic.LinearCombination

/-!
# Reducing the rows of a fetch

`reduce_data` combines the rows of a fetch into rows of a longer step, in the array that holds them.

* `consolidates_reduceValue` — the value of a row, and the one way in which it goes wrong;
* `ReduceCall.tapeOut_lags` — the array, although it is rewritten in place;
* `ReduceCall.reduceData_iff` — the function is right exactly where its arguments fit;
* `ReduceCall.shortWindow_exits` — a window inside of one new interval ends the process.
-/

namespace Rrdtool

open Loop Dbl

/-! ## The function -/

/-- The consolidation functions that `reduce_data` takes the average for. -/
def Cf.isAveraged : Cf → Bool
  | .hwpredict => true
  | .mhwpredict => true
  | .devseasonal => true
  | .devpredict => true
  | .seasonal => true
  | .average => true
  | _ => false

/-- `newval`, after one more value that is known. -/
def reduceAdd (cf : Cf) (newval v : RrdValue) : RrdValue :=
  if newval.isnan then v
  else
    match cf with
    | .hwpredict => newval + v
    | .mhwpredict => newval + v
    | .devseasonal => newval + v
    | .devpredict => newval + v
    | .seasonal => newval + v
    | .average => newval + v
    | .minimum => if newval.lt v then newval else v
    | .failures => if v.lt newval then newval else v
    | .maximum => if v.lt newval then newval else v
    | .last => v

/-- The loop over `i`: `newval` and `validval`, for the values of one column. -/
def reduceFold (cf : Cf) (reduceFactor : ℕ) (src : ℕ → RrdValue) : RrdValue × ℕ :=
  forLoop reduceFactor
    (fun i s => if (src i).isnan then s else (reduceAdd cf s.1 (src i), s.2 + 1)) (dnan, 0)

/-- What is stored for them. -/
def reduceValue (cf : Cf) (reduceFactor : ℕ) (src : ℕ → RrdValue) : RrdValue :=
  let s := reduceFold cf reduceFactor src
  if s.2 = 0 then dnan else if cf.isAveraged then s.1 / Dbl.ofNat s.2 else s.1

/-- A row of the destination, from the source rows that start at `src`. -/
def reduceRow (cf : Cf) (reduceFactor dsCnt src : ℕ) (t : Tape RrdValue) : Tape RrdValue :=
  forLoop dsCnt
    (fun col t => t.put (reduceValue cf reduceFactor fun i => t.cells (src + (i * dsCnt + col)))) t

/-- A row of unknown values. -/
def nanRow (dsCnt : ℕ) (t : Tape RrdValue) : Tape RrdValue := forLoop dsCnt (fun _ t => t.put dnan) t

/-- The loop over `dst_row`, for a positive factor; `(long int) row_cnt` is negative from `2 ^ 63` on. -/
def reduceRows (cf : Cf) (reduceFactor dsCnt : ℕ) (rowCnt src : ℕ) (t : Tape RrdValue) :
    Tape RrdValue :=
  if _h : rowCnt < 2 ^ 63 ∧ reduceFactor ≤ rowCnt ∧ 0 < reduceFactor then
    reduceRows cf reduceFactor dsCnt (rowCnt - reduceFactor) (src + dsCnt * reduceFactor)
      (reduceRow cf reduceFactor dsCnt src t)
  else t
termination_by rowCnt
decreasing_by omega

/-- What `reduce_data` leaves behind. -/
structure Reduction : Type where
  /-- `*start` -/
  start : ℤ
  /-- `*end` -/
  stop : ℤ
  /-- `*step` -/
  step : ℕ
  /-- `*data`, and `dstptr` -/
  tape : Tape RrdValue

/-- How `reduce_data` ends. -/
inductive ReduceOutcome : Type where
  /-- `exit(1)`, after `BUG in reduce_data()` -/
  | sanityCheck
  /-- the process is gone: a division by zero, or a loop that does not end -/
  | fault
  /-- normal return -/
  | done (r : Reduction)

/-- A number stored into an `int`: what does not fit is `INT_MIN`. -/
def toInt32 (z : ℤ) : ℤ := if -2 ^ 31 ≤ z ∧ z < 2 ^ 31 then z else -2 ^ 31

/-- `reduce_data`. -/
def reduceData (cf : Cf) (curStep : ℕ) (start stop : ℤ) (step dsCnt : ℕ) (data : ℕ → RrdValue) :
    ReduceOutcome :=
  let reduceFactor := toInt32 ⌈(step : ℚ) / curStep⌉
  let step := toUlong (curStep * reduceFactor)
  let rowCnt := toUlong (stop - start) / curStep
  if step = 0 then .fault
  else
    let endOffset := (umod stop step).toNat
    let startOffset := (umod start step).toNat
    let skiprows := toUlong (reduceFactor - (startOffset / curStep : ℕ))
    let srcptr := if startOffset ≠ 0 then skiprows * dsCnt else 0
    let dst := if startOffset ≠ 0 then nanRow dsCnt ⟨data, 0⟩ else ⟨data, 0⟩
    let rowCnt := if startOffset ≠ 0 then toUlong (rowCnt - skiprows) else rowCnt
    let rowCnt := if endOffset ≠ 0 then toUlong (rowCnt - (endOffset / curStep : ℕ)) else rowCnt
    if rowCnt % toUlong reduceFactor ≠ 0 then .sanityCheck
    else if reduceFactor ≤ 0 then .fault
    else
      let dst := reduceRows cf reduceFactor.toNat dsCnt rowCnt srcptr dst
      .done {
        start := if startOffset ≠ 0 then long (start - startOffset) else start
        stop := if endOffset ≠ 0 then long (stop - endOffset + step) else stop
        step := step
        tape := if endOffset ≠ 0 then nanRow dsCnt dst else dst }

/-! ## What it is for -/

/-- The consolidation of known values. -/
def Cf.Consolidates (cf : Cf) (known : List RrdValue) (v : RrdValue) : Prop :=
  if known = [] then v = dnan
  else
    match cf with
    | .minimum => v ∈ known ∧ ∀ x ∈ known, v.le x = true
    | .failures => v ∈ known ∧ ∀ x ∈ known, x.le v = true
    | .maximum => v ∈ known ∧ ∀ x ∈ known, x.le v = true
    | .last => known.getLast? = some v
    | _ => v = known.foldl (· + ·) (.num 0) / Dbl.ofNat known.length

/-- The values that are known. -/
def knownOf (l : List RrdValue) : List RrdValue := l.filter fun v => !v.isnan

/-- The call: the window and its step, the step that is asked for, and the array that holds the rows. -/
structure ReduceCall : Type where
  /-- `cf` -/
  cf : Cf
  /-- `cur_step` -/
  curStep : ℕ
  /-- `*start` -/
  start : ℤ
  /-- `*end` -/
  stop : ℤ
  /-- `*step` -/
  step : ℕ
  /-- `*ds_cnt` -/
  dsCnt : ℕ
  /-- `*data` -/
  data : ℕ → RrdValue
  curStep_pos : 0 < curStep
  dsCnt_pos : 0 < dsCnt
  start_dvd : (curStep : ℤ) ∣ start
  stop_dvd : (curStep : ℤ) ∣ stop
  start_le : start ≤ stop
  step_lt : curStep < step
  /-- they are values of their types -/
  start_time : -2 ^ 63 ≤ start
  stop_time : stop < 2 ^ 63
  step_ulong : step < 2 ^ 64
  /-- the array is in memory -/
  room : ((stop - start) / curStep).toNat * dsCnt < 2 ^ 60

namespace ReduceCall

/-- The rows of the array. -/
def rows (a : ReduceCall) : ℕ := ((a.stop - a.start) / a.curStep).toNat

/-- The known values of a column in an interval, oldest first. -/
def knownIn (a : ReduceCall) (lo hi : ℤ) (col : ℕ) : List RrdValue :=
  knownOf (((List.range a.rows).filter fun r : ℕ =>
      decide (lo ≤ a.start + r * a.curStep ∧ a.start + (r + 1) * a.curStep ≤ hi)).map
    fun r => a.data (r * a.dsCnt + col))

/-- `reduce_data` -/
def run (a : ReduceCall) : ReduceOutcome :=
  reduceData a.cf a.curStep a.start a.stop a.step a.dsCnt a.data

/-- **The rows of the longer step**: the window is rounded to the outside, the rows are written inside of
the array, and a row holds the consolidation of its interval, as far as the interval is in the window. -/
structure Reduced (a : ReduceCall) (r : Reduction) : Prop where
  step : IsLeast {m : ℕ | a.curStep ∣ m ∧ a.step ≤ m} r.step
  start : IsGreatest {t : ℤ | (r.step : ℤ) ∣ t ∧ t ≤ a.start} r.start
  stop : IsLeast {t : ℤ | (r.step : ℤ) ∣ t ∧ a.stop ≤ t} r.stop
  written : (r.tape.pos : ℤ) = (r.stop - r.start) / r.step * a.dsCnt
  room : r.tape.pos ≤ a.rows * a.dsCnt
  inside : ∀ j col : ℕ, col < a.dsCnt → a.start ≤ r.start + j * r.step →
    r.start + (j + 1) * r.step ≤ a.stop →
    a.cf.Consolidates (a.knownIn (r.start + j * r.step) (r.start + (j + 1) * r.step) col)
      (r.tape.cells (j * a.dsCnt + col))
  outside : ∀ j col : ℕ, col < a.dsCnt → r.start + (j + 1) * r.step ≤ r.stop →
    ¬(a.start ≤ r.start + j * r.step ∧ r.start + (j + 1) * r.step ≤ a.stop) →
    r.tape.cells (j * a.dsCnt + col) = dnan

end ReduceCall

/-! ## The value of a row -/

variable {cf : Cf}

theorem knownOf_append (l m : List RrdValue) : knownOf (l ++ m) = knownOf l ++ knownOf m :=
  List.filter_append ..

theorem not_isnan_of_mem_knownOf {l : List RrdValue} {v : RrdValue} (h : v ∈ knownOf l) :
    v.isnan = false := by
  simpa using (List.mem_filter.mp h).2

/-- The loop goes over the known values. -/
theorem reduceFold_eq (cf : Cf) (n : ℕ) (src : ℕ → RrdValue) :
    reduceFold cf n src =
      ((knownOf ((List.range n).map src)).foldl (reduceAdd cf) dnan,
        (knownOf ((List.range n).map src)).length) := by
  induction n with
  | zero => rfl
  | succ n ih =>
    rw [reduceFold, forLoop_succ, ← reduceFold, ih, List.range_succ, List.map_append, knownOf_append]
    cases hv : (src n).isnan with
    | true => simp [hv, knownOf]
    | false => simp [hv, knownOf]

theorem reduceAdd_averaged (h : cf.isAveraged = true) : reduceAdd cf = runningAdd := by
  funext s v
  cases cf <;> first | rfl | cases h

theorem le_refl_dbl {x : Dbl} (hx : x.isnan = false) : x.le x = true := by
  cases x with
  | nan => cases hx
  | neginf | inf => rfl
  | num q => simp

theorem le_trans_dbl {x y z : Dbl} (hxy : x.le y = true) (hyz : y.le z = true) : x.le z = true := by
  cases x <;> cases y <;> cases z <;> simp_all [Dbl.le]
  exact le_trans hxy hyz

theorem le_of_lt_dbl {x y : Dbl} (h : x.lt y = true) : x.le y = true := by
  cases x <;> cases y <;> simp_all [Dbl.le, Dbl.lt]
  exact le_of_lt h

theorem le_of_not_lt_dbl {x y : Dbl} (hx : x.isnan = false) (hy : y.isnan = false)
    (h : x.lt y = false) : y.le x = true := by
  cases x <;> cases y <;> simp_all [Dbl.le, Dbl.lt]

/-- A loop that picks one of two values has one that is before all others. -/
theorem foldl_pick {α : Type} {f : α → α → α} {R : α → α → Prop} {P : α → Prop}
    (hmem : ∀ x y, P x → P y → f x y = x ∨ f x y = y) (hleft : ∀ x y, P x → P y → R (f x y) x)
    (hright : ∀ x y, P x → P y → R (f x y) y) (htrans : ∀ x y z, R x y → R y z → R x z)
    (hrefl : ∀ x, P x → R x x) {x : α} {l : List α} (hx : P x) (hl : ∀ y ∈ l, P y) :
    l.foldl f x ∈ x :: l ∧ ∀ y ∈ x :: l, R (l.foldl f x) y := by
  induction l generalizing x with
  | nil =>
    refine ⟨List.mem_cons_self, fun y hy => ?_⟩
    obtain rfl := List.mem_singleton.mp hy
    exact hrefl _ hx
  | cons z l ih =>
    have hz := hl z List.mem_cons_self
    have hf : P (f x z) := by
      rcases hmem x z hx hz with h | h
      · rw [h]
        exact hx
      · rw [h]
        exact hz
    obtain ⟨hin, hall⟩ := ih hf fun y hy => hl y (List.mem_cons_of_mem z hy)
    have hhead := hall _ List.mem_cons_self
    rw [List.foldl_cons]
    constructor
    · rcases List.mem_cons.mp hin with h | h
      · rw [h]
        rcases hmem x z hx hz with hxz | hxz
        · rw [hxz]
          exact List.mem_cons_self
        · rw [hxz]
          exact List.mem_cons_of_mem _ List.mem_cons_self
      · exact List.mem_cons_of_mem _ (List.mem_cons_of_mem _ h)
    · intro y hy
      rcases List.mem_cons.mp hy with rfl | hy
      · exact htrans _ _ _ hhead (hleft y z hx hz)
      · rcases List.mem_cons.mp hy with rfl | hy
        · exact htrans _ _ _ hhead (hright x y hx hz)
        · exact hall y (List.mem_cons_of_mem _ hy)

/-- The least of known values. -/
theorem foldl_minimum {x : RrdValue} {l : List RrdValue} (hx : x.isnan = false)
    (hl : ∀ y ∈ l, y.isnan = false) :
    l.foldl (reduceAdd .minimum) x ∈ x :: l ∧
      ∀ y ∈ x :: l, (l.foldl (reduceAdd .minimum) x).le y = true := by
  have hadd {x y : RrdValue} (hx : x.isnan = false) :
      reduceAdd .minimum x y = if x.lt y then x else y := by simp [reduceAdd, hx]
  refine foldl_pick (R := fun x y => x.le y = true) (P := fun x : RrdValue => x.isnan = false) ?_ ?_ ?_
    (fun _ _ _ => le_trans_dbl) (fun _ => le_refl_dbl) hx hl
  · intro x y hx _
    rw [hadd hx]
    split_ifs
    · exact .inl rfl
    · exact .inr rfl
  · intro x y hx hy
    rw [hadd hx]
    split_ifs with h
    · exact le_refl_dbl hx
    · exact le_of_not_lt_dbl hx hy (Bool.eq_false_iff.mpr h)
  · intro x y hx hy
    rw [hadd hx]
    split_ifs with h
    · exact le_of_lt_dbl h
    · exact le_refl_dbl hy

/-- The greatest of known values. -/
theorem foldl_maximum {x : RrdValue} {l : List RrdValue} (hcf : cf = .failures ∨ cf = .maximum)
    (hx : x.isnan = false) (hl : ∀ y ∈ l, y.isnan = false) :
    l.foldl (reduceAdd cf) x ∈ x :: l ∧ ∀ y ∈ x :: l, y.le (l.foldl (reduceAdd cf) x) = true := by
  have hadd {x y : RrdValue} (hx : x.isnan = false) :
      reduceAdd cf x y = if y.lt x then x else y := by
    rcases hcf with rfl | rfl
    · simp [reduceAdd, hx]
    · simp [reduceAdd, hx]
  refine foldl_pick (R := fun x y => y.le x = true) (P := fun x : RrdValue => x.isnan = false) ?_ ?_ ?_
    (fun _ _ _ h h' => le_trans_dbl h' h) (fun _ => le_refl_dbl) hx hl
  · intro x y hx _
    rw [hadd hx]
    split_ifs
    · exact .inl rfl
    · exact .inr rfl
  · intro x y hx hy
    rw [hadd hx]
    split_ifs with h
    · exact le_refl_dbl hx
    · exact le_of_not_lt_dbl hy hx (Bool.eq_false_iff.mpr h)
  · intro x y hx hy
    rw [hadd hx]
    split_ifs with h
    · exact le_of_lt_dbl h
    · exact le_refl_dbl hy

/-- The last of known values. -/
theorem foldl_last (x : RrdValue) (l : List RrdValue) :
    (x :: l).getLast? = some (l.foldl (reduceAdd .last) x) := by
  induction l generalizing x with
  | nil => rfl
  | cons y l ih =>
    have hadd : reduceAdd .last x y = y := by
      rw [reduceAdd]
      split_ifs
      · rfl
      · rfl
    rw [List.foldl_cons, hadd, ← ih y, List.getLast?_cons_cons]

/-- The sum that the averaging functions keep comes out right. -/
def Cf.Settles (cf : Cf) (known : List RrdValue) : Prop :=
  cf.isAveraged = true → Torn known → (runningSum known).isnan = true

/-- **The value of a row** is the consolidation of the known values, unless the sum has started again. -/
theorem consolidates_reduceValue (cf : Cf) (n : ℕ) (src : ℕ → RrdValue) :
    cf.Consolidates (knownOf ((List.range n).map src)) (reduceValue cf n src) ↔
      cf.Settles (knownOf ((List.range n).map src)) := by
  have hknown : ∀ v ∈ knownOf ((List.range n).map src), v.isnan = false :=
    fun v hv => not_isnan_of_mem_knownOf hv
  rw [reduceValue, reduceFold_eq]
  generalize knownOf ((List.range n).map src) = ks at hknown
  cases ks with
  | nil => simp [Cf.Consolidates, Cf.Settles, Torn]
  | cons x l =>
    have hx := hknown x List.mem_cons_self
    have hl : ∀ y ∈ l, y.isnan = false := fun y hy => hknown y (List.mem_cons_of_mem x hy)
    have hcount : (x :: l).length ≠ 0 := Nat.succ_ne_zero _
    have hstart : (x :: l).foldl (reduceAdd cf) dnan = l.foldl (reduceAdd cf) x := rfl
    dsimp only
    rw [if_neg hcount, hstart, Cf.Consolidates.eq_def, if_neg (List.cons_ne_nil x l)]
    by_cases havg : cf.isAveraged = true
    · have hpos : (0 : ℚ) < ((x :: l).length : ℕ) := by
        rw [List.length_cons]
        exact_mod_cast Nat.succ_pos _
      have hsum : runningSum (x :: l) = sum (x :: l) ↔ cf.Settles (x :: l) := by
        rw [runningSum_eq_sum_iff (List.cons_ne_nil x l) hknown]
        exact ⟨fun h _ => h, fun h => h havg⟩
      rw [if_pos havg, reduceAdd_averaged havg, ← hsum]
      have hmean := div_left_inj_pos hpos (x := runningSum (x :: l)) (y := sum (x :: l))
      cases cf <;> first | exact hmean | cases havg
    · have hsettles : cf.Settles (x :: l) := fun h => absurd h havg
      rw [if_neg havg]
      refine iff_of_true ?_ hsettles
      cases cf with
      | minimum => exact foldl_minimum hx hl
      | failures => exact foldl_maximum (.inl rfl) hx hl
      | maximum => exact foldl_maximum (.inr rfl) hx hl
      | last => exact foldl_last x l
      | hwpredict | mhwpredict | devseasonal | devpredict | seasonal | average => exact absurd rfl havg

/-! ## The rows in the array -/

section Rows

open Tape

variable {f ds src : ℕ} {out input : ℕ → RrdValue} {t : Tape RrdValue}

theorem reduceRow_lags (h : Lags out input t) (hsrc : t.pos ≤ src)
    (hout : ∀ col, col < ds →
      out (t.pos + col) = reduceValue cf f fun i => input (src + (i * ds + col))) :
    Lags out input (reduceRow cf f ds src t) ∧ (reduceRow cf f ds src t).pos = t.pos + ds := by
  refine lags_forLoop h fun col u hcol hpos hu => ?_
  have hread : (fun i => u.cells (src + (i * ds + col))) = fun i => input (src + (i * ds + col)) := by
    funext i
    apply hu.read
    rw [hpos]
    omega
  rw [hread, hpos, hout col hcol]

theorem nanRow_lags (h : Lags out input t) (hout : ∀ col, col < ds → out (t.pos + col) = dnan) :
    Lags out input (nanRow ds t) ∧ (nanRow ds t).pos = t.pos + ds := by
  refine lags_forLoop h fun col u hcol hpos _ => ?_
  rw [hpos, hout col hcol]

/-- `m` rows of the destination. -/
theorem reduceRows_lags (hf : 0 < f) {m : ℕ} (hm : m * f < 2 ^ 63) (h : Lags out input t)
    (hsrc : t.pos ≤ src)
    (hout : ∀ d col, d < m → col < ds →
      out (t.pos + (d * ds + col)) = reduceValue cf f fun i => input (src + ((d * f + i) * ds + col))) :
    Lags out input (reduceRows cf f ds (m * f) src t) ∧
      (reduceRows cf f ds (m * f) src t).pos = t.pos + m * ds := by
  induction m generalizing src t with
  | zero =>
    have hnone : ¬((0 * f) < 2 ^ 63 ∧ f ≤ 0 * f ∧ 0 < f) := by
      rintro ⟨-, hle, -⟩
      rw [Nat.zero_mul] at hle
      omega
    rw [reduceRows, dif_neg hnone, Nat.zero_mul]
    exact ⟨h, rfl⟩
  | succ m ih =>
    have hsucc : (m + 1) * f = m * f + f := Nat.succ_mul m f
    have hone : (m + 1) * f < 2 ^ 63 ∧ f ≤ (m + 1) * f ∧ 0 < f := ⟨hm, by omega, hf⟩
    have hrest : (m + 1) * f - f = m * f := by omega
    obtain ⟨hrow, hpos⟩ := @reduceRow_lags cf f ds src out input t h hsrc fun col hcol => by
      have hfirst := hout 0 col (Nat.succ_pos m) hcol
      simpa only [Nat.zero_mul, Nat.zero_add] using hfirst
    have hstep : ds ≤ ds * f := Nat.le_mul_of_pos_right ds hf
    obtain ⟨hall, hend⟩ := @ih (src + ds * f) _ (by omega) hrow (by omega) fun d col hd hcol => by
      have hnext := hout (d + 1) col (Nat.succ_lt_succ hd) hcol
      have hcell : (reduceRow cf f ds src t).pos + (d * ds + col) = t.pos + ((d + 1) * ds + col) := by
        rw [hpos, Nat.succ_mul]
        omega
      have hread (i : ℕ) : src + ds * f + ((d * f + i) * ds + col) =
          src + (((d + 1) * f + i) * ds + col) := by ring
      simp only [hcell, hnext, hread]
    rw [reduceRows, dif_pos hone, hrest]
    refine ⟨hall, ?_⟩
    rw [hend, hpos, Nat.succ_mul]
    omega

/-- The array behind the call: `lead` rows that are unknown, `m` rows from the source row `skip` on, and
unknown rows. -/
def reducedCells (cf : Cf) (f ds lead m skip : ℕ) (input : ℕ → RrdValue) (k : ℕ) : RrdValue :=
  if lead ≤ k / ds ∧ k / ds < lead + m then
    reduceValue cf f fun i => input ((skip + (k / ds - lead) * f + i) * ds + k % ds)
  else dnan

theorem reducedCells_row (hds : 0 < ds) {lead m skip j col : ℕ} (hcol : col < ds) :
    reducedCells cf f ds lead m skip input (j * ds + col) =
      if lead ≤ j ∧ j < lead + m then
        reduceValue cf f fun i => input ((skip + (j - lead) * f + i) * ds + col)
      else dnan := by
  have hdiv : (j * ds + col) / ds = j := by
    rw [Nat.mul_comm, Nat.mul_add_div hds, Nat.div_eq_of_lt hcol, Nat.add_zero]
  have hmod : (j * ds + col) % ds = col := Nat.mul_add_mod_of_lt hcol
  rw [reducedCells, hdiv, hmod]

end Rows

/-! ## The longer step -/

namespace ReduceCall

variable {a : ReduceCall} {r : Reduction}

/-- `reduce_factor`, where it fits into its type. -/
def factor (a : ReduceCall) : ℕ := (a.step + a.curStep - 1) / a.curStep

/-- The least multiple of the step that is not below the one asked for. -/
def longStep (a : ReduceCall) : ℕ := a.curStep * a.factor

theorem step_le_longStep (a : ReduceCall) : a.step ≤ a.longStep := by
  have hpos := a.curStep_pos
  have hmod := Nat.mod_lt (a.step + a.curStep - 1) hpos
  have hdm := Nat.div_add_mod (a.step + a.curStep - 1) a.curStep
  rw [longStep, factor]
  omega

theorem longStep_lt (a : ReduceCall) : a.longStep < a.step + a.curStep := by
  have hpos := a.curStep_pos
  have hlt := a.step_lt
  have hdm := Nat.div_add_mod (a.step + a.curStep - 1) a.curStep
  rw [longStep, factor]
  omega

theorem factor_pos (a : ReduceCall) : 0 < a.factor :=
  Nat.div_pos (by have := a.step_lt; omega) a.curStep_pos

theorem longStep_pos (a : ReduceCall) : 0 < a.longStep := Nat.mul_pos a.curStep_pos a.factor_pos

theorem longStep_least (a : ReduceCall) : IsLeast {m : ℕ | a.curStep ∣ m ∧ a.step ≤ m} a.longStep := by
  refine ⟨⟨Dvd.intro _ rfl, a.step_le_longStep⟩, ?_⟩
  rintro m ⟨⟨k, rfl⟩, hm⟩
  have hlt := a.longStep_lt
  rw [longStep] at hlt ⊢
  have hk : a.curStep * a.factor < a.curStep * (k + 1) := by
    rw [Nat.mul_succ]
    omega
  exact Nat.mul_le_mul_left _ (Nat.lt_succ_iff.mp (Nat.lt_of_mul_lt_mul_left hk))

theorem ceil_eq (a : ReduceCall) : ⌈(a.step : ℚ) / a.curStep⌉ = a.factor := by
  have hpos : (0 : ℚ) < a.curStep := by exact_mod_cast a.curStep_pos
  have hle : (a.step : ℚ) ≤ a.factor * a.curStep := by
    have h := a.step_le_longStep
    rw [longStep, Nat.mul_comm] at h
    exact_mod_cast h
  have hlt : (a.factor : ℚ) * a.curStep < a.step + a.curStep := by
    have h := a.longStep_lt
    rw [longStep, Nat.mul_comm] at h
    exact_mod_cast h
  rw [Int.ceil_eq_iff]
  constructor
  · rw [lt_div_iff₀ hpos]
    push_cast
    linarith
  · rw [div_le_iff₀ hpos]
    exact_mod_cast hle

/-- **When `reduce_data` is right**: its numbers fit into their types, start and end are not inside of one
new interval, and no sum starts again. -/
structure Fits (a : ReduceCall) : Prop where
  /-- `reduce_factor` is an `int` -/
  factor : a.factor < 2 ^ 31
  /-- `*step` is an `unsigned long` -/
  step : a.longStep < 2 ^ 64
  /-- `*end` is a `time_t` -/
  stop : a.stop + -a.stop % a.longStep < 2 ^ 63
  /-- times are taken modulo the step as `unsigned long`s -/
  sign : 0 ≤ a.start ∨ a.longStep ∣ 2 ^ 64
  /-- start and end are not both inside of one interval of the new step -/
  apart : a.start % a.longStep = 0 ∨ a.stop % a.longStep = 0 ∨
    a.start / a.longStep ≠ a.stop / a.longStep
  /-- sums of infinities come out right -/
  sums : ∀ t : ℤ, (a.longStep : ℤ) ∣ t → a.start ≤ t → t + a.longStep ≤ a.stop →
    ∀ col, col < a.dsCnt → a.cf.Settles (a.knownIn t (t + a.longStep) col)

/-! ## The machine's numbers -/

theorem toUlong_of_lt {n : ℕ} (h : n < 2 ^ 64) : toUlong n = n := by
  rw [toUlong, Int.emod_eq_of_lt (Int.natCast_nonneg n) (by exact_mod_cast h)]
  exact Int.toNat_natCast n

theorem toUlong_toUlong_sub (x y : ℤ) : toUlong (toUlong x - y) = toUlong (x - y) := by
  have hcast : ((toUlong x : ℕ) : ℤ) = x % 2 ^ 64 := Int.toNat_of_nonneg (Int.emod_nonneg _ (by decide))
  change (((toUlong x : ℕ) - y) % 2 ^ 64).toNat = ((x - y) % 2 ^ 64).toNat
  rw [hcast, Int.emod_sub_emod]

/-- The remainder that the machine computes for a time. -/
theorem umod_eq_iff {t : ℤ} {s : ℕ} (hlo : -2 ^ 63 ≤ t) (hhi : t < 2 ^ 63) :
    umod t s = t % s ↔ 0 ≤ t ∨ s ∣ 2 ^ 64 := by
  rw [umod]
  rcases Int.lt_or_le t 0 with hneg | hpos
  · have hwrap : t % 2 ^ 64 = t + 2 ^ 64 := by
      rw [← Int.add_emod_right, Int.emod_eq_of_lt (by omega) (by omega)]
    have hdvd : (t + 2 ^ 64) % (s : ℤ) = t % s ↔ (s : ℤ) ∣ 2 ^ 64 := by
      rw [Int.emod_eq_emod_iff_emod_sub_eq_zero, add_sub_cancel_left]
      exact Int.dvd_iff_emod_eq_zero.symm
    have hcast : (s : ℤ) ∣ 2 ^ 64 ↔ s ∣ 2 ^ 64 := by
      exact_mod_cast Int.natCast_dvd_natCast (m := s) (n := 2 ^ 64)
    rw [hwrap, hdvd, hcast]
    exact ⟨Or.inr, fun h => h.resolve_left (by omega)⟩
  · rw [Int.emod_eq_of_lt hpos (lt_trans hhi (by decide))]
    exact iff_of_true rfl (.inl hpos)

/-! ## Times in rows of the longer step -/

/-- How many short steps a time is behind a multiple of the longer one. -/
def offset (a : ReduceCall) (t : ℤ) : ℕ := (t % a.longStep / a.curStep).toNat

theorem offset_spec (a : ReduceCall) {t : ℤ} (ht : (a.curStep : ℤ) ∣ t) :
    t % a.longStep = a.curStep * a.offset t ∧ a.offset t < a.factor := by
  have hpos : (0 : ℤ) < a.curStep := by exact_mod_cast a.curStep_pos
  have hL : (0 : ℤ) < a.longStep := by exact_mod_cast a.longStep_pos
  have hcast : (a.longStep : ℤ) = a.curStep * a.factor := by
    rw [longStep]
    push_cast
    rfl
  have hdvd : (a.curStep : ℤ) ∣ t % a.longStep := by
    rw [Int.emod_def, hcast, mul_assoc]
    exact Int.dvd_sub ht (Dvd.intro _ rfl)
  have hnonneg := Int.emod_nonneg t hL.ne'
  have hmul : t % a.longStep = a.curStep * a.offset t := by
    rw [offset, Int.toNat_of_nonneg (Int.ediv_nonneg hnonneg hpos.le), Int.mul_ediv_cancel' hdvd]
  refine ⟨hmul, ?_⟩
  have hlt := Int.emod_lt_of_pos t hL
  rw [hmul, hcast] at hlt
  exact_mod_cast lt_of_mul_lt_mul_left hlt hpos.le

/-- The row in front: it is not full. -/
def lead (a : ReduceCall) : ℕ := if a.offset a.start = 0 then 0 else 1

/-- The row behind. -/
def tail (a : ReduceCall) : ℕ := if a.offset a.stop = 0 then 0 else 1

/-- The rows in between: none, if it is `-1`. -/
def inner (a : ReduceCall) : ℤ := a.stop / a.longStep - a.start / a.longStep - a.lead

/-- The source rows in front of the first full row. -/
def skip (a : ReduceCall) : ℕ := if a.offset a.start = 0 then 0 else a.factor - a.offset a.start

theorem longStep_cast (a : ReduceCall) : (a.longStep : ℤ) = a.curStep * a.factor := by
  rw [longStep]
  push_cast
  rfl

/-- A time, in short steps. -/
theorem eq_curStep_mul (a : ReduceCall) {t : ℤ} (ht : (a.curStep : ℤ) ∣ t) :
    t = a.curStep * (a.factor * (t / a.longStep) + a.offset t) := by
  have hdm := Int.mul_ediv_add_emod t a.longStep
  rw [(a.offset_spec ht).1, longStep_cast] at hdm
  calc t = a.curStep * a.factor * (t / (a.curStep * a.factor)) + a.curStep * a.offset t := hdm.symm
    _ = a.curStep * (a.factor * (t / a.longStep) + a.offset t) := by
      rw [longStep_cast]
      ring

theorem rows_cast (a : ReduceCall) :
    (a.rows : ℤ) = a.factor * (a.stop / a.longStep - a.start / a.longStep) + a.offset a.stop -
      a.offset a.start := by
  have hpos : (0 : ℤ) < a.curStep := by exact_mod_cast a.curStep_pos
  have hle := a.start_le
  have hstart := a.eq_curStep_mul a.start_dvd
  have hstop := a.eq_curStep_mul a.stop_dvd
  have hdiff : a.stop - a.start = a.curStep * (a.factor * (a.stop / a.longStep - a.start / a.longStep) +
      a.offset a.stop - a.offset a.start) := by
    linear_combination hstop - hstart
  have hdiv : (a.stop - a.start) / a.curStep =
      a.factor * (a.stop / a.longStep - a.start / a.longStep) + a.offset a.stop - a.offset a.start := by
    rw [hdiff, Int.mul_ediv_cancel_left _ hpos.ne']
  rw [rows, Int.toNat_of_nonneg (Int.ediv_nonneg (by omega) hpos.le), hdiv]

/-- The rows that are left when those in front and behind are taken off. -/
theorem rows_eq (a : ReduceCall) : (a.rows : ℤ) = a.skip + a.factor * a.inner + a.offset a.stop := by
  have hlt := (a.offset_spec a.start_dvd).2
  rw [rows_cast, inner, skip, lead]
  split_ifs with h
  · rw [h]
    push_cast
    ring
  · rw [Nat.cast_sub hlt.le]
    push_cast
    ring

/-- The array that the function leaves behind. -/
def tapeOut (a : ReduceCall) : Tape RrdValue :=
  let dst := if a.offset a.start = 0 then ⟨a.data, 0⟩ else nanRow a.dsCnt ⟨a.data, 0⟩
  let dst := reduceRows a.cf a.factor a.dsCnt (toUlong (a.factor * a.inner)) (a.skip * a.dsCnt) dst
  if a.offset a.stop = 0 then dst else nanRow a.dsCnt dst

/-- `*start`. -/
def startOut (a : ReduceCall) : ℤ :=
  if a.offset a.start = 0 then a.start else long (a.start - a.start % a.longStep)

/-- `*end`. -/
def stopOut (a : ReduceCall) : ℤ :=
  if a.offset a.stop = 0 then a.stop else long (a.stop - a.stop % a.longStep + a.longStep)

/-- `row_cnt`, with the rows in front and behind taken off. -/
theorem rowCnt_eq (a : ReduceCall) :
    (if a.offset a.stop ≠ 0 then
      toUlong ((if a.offset a.start ≠ 0 then toUlong (a.rows - (a.skip : ℕ)) else a.rows : ℕ) -
        (a.offset a.stop : ℕ))
    else if a.offset a.start ≠ 0 then toUlong (a.rows - (a.skip : ℕ)) else a.rows) =
      toUlong (a.factor * a.inner) := by
  have hrows := a.rows_eq
  have hsmall : a.rows < 2 ^ 64 := by
    have hle := Nat.le_mul_of_pos_right a.rows a.dsCnt_pos
    have hroom : a.rows * a.dsCnt < 2 ^ 60 := a.room
    omega
  have hself : toUlong (a.rows : ℤ) = a.rows := toUlong_of_lt hsmall
  by_cases hstart : a.offset a.start = 0
  · have hskip : a.skip = 0 := if_pos hstart
    have hsum : (a.rows : ℤ) - a.offset a.stop = a.factor * a.inner := by
      rw [hrows, hskip]
      push_cast
      ring
    by_cases hstop : a.offset a.stop = 0
    · simp only [hstart, hstop, ne_eq, not_true_eq_false, if_false]
      rw [← hsum, hstop, Nat.cast_zero, sub_zero, hself]
    · simp only [hstart, hstop, ne_eq, not_true_eq_false, not_false_eq_true, if_true, if_false]
      rw [← hsum]
  · have hsum : (a.rows : ℤ) - a.skip - a.offset a.stop = a.factor * a.inner := by
      rw [hrows]
      ring
    by_cases hstop : a.offset a.stop = 0
    · simp only [hstart, hstop, ne_eq, not_true_eq_false, not_false_eq_true, if_true, if_false]
      rw [← hsum, hstop, Nat.cast_zero, sub_zero]
    · simp only [hstart, hstop, ne_eq, not_false_eq_true, if_true]
      rw [toUlong_toUlong_sub, hsum]

/-- **The function in short steps**, where its numbers fit. -/
theorem run_eq (hf : a.factor < 2 ^ 31) (hL : a.longStep < 2 ^ 64)
    (hstart : umod a.start a.longStep = a.start % a.longStep)
    (hstop : umod a.stop a.longStep = a.stop % a.longStep) :
    a.run = if toUlong (a.factor * a.inner) % a.factor ≠ 0 then .sanityCheck
      else .done ⟨a.startOut, a.stopOut, a.longStep, a.tapeOut⟩ := by
  have hint : toInt32 ⌈(a.step : ℚ) / a.curStep⌉ = a.factor := by
    rw [ceil_eq, toInt32, if_pos ⟨by omega, by exact_mod_cast hf⟩]
  have hfpos := a.factor_pos
  have hfactor : toUlong (a.factor : ℤ) = a.factor := toUlong_of_lt (by omega)
  have hstep : toUlong ((a.curStep : ℤ) * a.factor) = a.longStep := by
    rw [← longStep_cast]
    exact toUlong_of_lt hL
  have hLpos := a.longStep_pos
  obtain ⟨hp, hplt⟩ := a.offset_spec a.start_dvd
  obtain ⟨hq, hqlt⟩ := a.offset_spec a.stop_dvd
  have hpnat : (umod a.start a.longStep).toNat = a.curStep * a.offset a.start := by
    rw [hstart, hp]
    exact_mod_cast Int.toNat_natCast _
  have hqnat : (umod a.stop a.longStep).toNat = a.curStep * a.offset a.stop := by
    rw [hstop, hq]
    exact_mod_cast Int.toNat_natCast _
  have hpdiv : a.curStep * a.offset a.start / a.curStep = a.offset a.start :=
    Nat.mul_div_cancel_left _ a.curStep_pos
  have hqdiv : a.curStep * a.offset a.stop / a.curStep = a.offset a.stop :=
    Nat.mul_div_cancel_left _ a.curStep_pos
  have hzero (n : ℕ) : a.curStep * n ≠ 0 ↔ n ≠ 0 := by
    rw [ne_eq, Nat.mul_eq_zero, not_or]
    exact ⟨fun h => h.2, fun h => ⟨a.curStep_pos.ne', h⟩⟩
  have hskip : toUlong ((a.factor : ℤ) - a.offset a.start) = a.factor - a.offset a.start := by
    rw [← Nat.cast_sub hplt.le]
    exact toUlong_of_lt (by omega)
  have hrows : toUlong (a.stop - a.start) / a.curStep = a.rows := by
    have hle := a.start_le
    have hlo := a.start_time
    have hhi := a.stop_time
    have hcast : (((a.stop - a.start).toNat / a.curStep : ℕ) : ℤ) = (a.stop - a.start) / a.curStep := by
      rw [Int.natCast_ediv, Int.toNat_of_nonneg (by omega)]
    rw [toUlong, Int.emod_eq_of_lt (by omega) (by omega), rows, ← hcast]
    exact (Int.toNat_natCast _).symm
  have hahead : (if a.offset a.start ≠ 0 then
      toUlong (a.rows - (a.factor - a.offset a.start : ℕ)) else a.rows) =
      if a.offset a.start ≠ 0 then toUlong (a.rows - (a.skip : ℕ)) else a.rows := by
    by_cases h : a.offset a.start = 0
    · simp [h]
    · simp [skip, h]
  have hsrc : (if a.offset a.start ≠ 0 then (a.factor - a.offset a.start) * a.dsCnt else 0) =
      a.skip * a.dsCnt := by
    by_cases h : a.offset a.start = 0
    · simp [skip, h]
    · simp [skip, h]
  have hcurp : ((a.curStep * a.offset a.start : ℕ) : ℤ) = a.start % a.longStep := by
    rw [hp]
    push_cast
    rfl
  have hcurq : ((a.curStep * a.offset a.stop : ℕ) : ℤ) = a.stop % a.longStep := by
    rw [hq]
    push_cast
    rfl
  have hfneg : ¬(a.factor : ℤ) ≤ 0 := by omega
  rw [run, reduceData, hint]
  simp only [hstep, hpnat, hqnat, hpdiv, hqdiv, hzero, hskip, hrows, hfactor]
  rw [if_neg hLpos.ne', hahead, a.rowCnt_eq, hsrc, if_neg hfneg, hcurp, hcurq, Int.toNat_natCast]
  simp only [ite_not, ne_eq, startOut, stopOut, tapeOut]

/-! ## Rows in front, in between and behind -/

theorem offset_eq_zero_iff (a : ReduceCall) {t : ℤ} (ht : (a.curStep : ℤ) ∣ t) :
    a.offset t = 0 ↔ t % a.longStep = 0 := by
  have hpos : (a.curStep : ℤ) ≠ 0 := by exact_mod_cast a.curStep_pos.ne'
  rw [(a.offset_spec ht).1, Int.mul_eq_zero]
  constructor
  · intro h
    exact .inr (by exact_mod_cast h)
  · intro h
    exact_mod_cast h.resolve_left hpos

/-- There are rows in between, unless both ends are inside of one interval. -/
theorem inner_nonneg_iff (a : ReduceCall) :
    0 ≤ a.inner ↔ a.start % a.longStep = 0 ∨ a.stop % a.longStep = 0 ∨
      a.start / a.longStep ≠ a.stop / a.longStep := by
  have hL : (0 : ℤ) < a.longStep := by exact_mod_cast a.longStep_pos
  have hmono : a.start / a.longStep ≤ a.stop / a.longStep := Int.ediv_le_ediv hL a.start_le
  have hrows := a.rows_cast
  rw [← a.offset_eq_zero_iff a.start_dvd, ← a.offset_eq_zero_iff a.stop_dvd, inner, lead]
  split_ifs with h
  · simp only [h, true_or, iff_true]
    omega
  · simp only [h, false_or]
    constructor
    · intro hin
      right
      intro heq
      rw [heq] at hin
      omega
    · rintro (hq | hne)
      · by_contra hin
        have heq : a.start / a.longStep = a.stop / a.longStep := by omega
        rw [heq, sub_self, mul_zero, hq] at hrows
        omega
      · omega

theorem inner_ge (a : ReduceCall) : -1 ≤ a.inner := by
  have hL : (0 : ℤ) < a.longStep := by exact_mod_cast a.longStep_pos
  have hmono : a.start / a.longStep ≤ a.stop / a.longStep := Int.ediv_le_ediv hL a.start_le
  rw [inner, lead]
  split_ifs
  · omega
  · omega

/-- The cells of the output. -/
def cellsOut (a : ReduceCall) : ℕ → RrdValue :=
  reducedCells a.cf a.factor a.dsCnt a.lead a.inner.toNat a.skip a.data

/-- The rows in between, as a product. -/
theorem inner_rows (h : 0 ≤ a.inner) :
    toUlong (a.factor * a.inner) = a.inner.toNat * a.factor ∧ a.inner.toNat * a.factor < 2 ^ 60 ∧
      a.skip + a.inner.toNat * a.factor + a.offset a.stop = a.rows := by
  have hcast : (a.factor : ℤ) * a.inner = (a.inner.toNat * a.factor : ℕ) := by
    push_cast
    rw [Int.toNat_of_nonneg h, mul_comm]
  have hrows := a.rows_eq
  rw [hcast] at hrows ⊢
  have hle := Nat.le_mul_of_pos_right a.rows a.dsCnt_pos
  have hroom : a.rows * a.dsCnt < 2 ^ 60 := a.room
  refine ⟨toUlong_of_lt ?_, ?_, ?_⟩
  · omega
  · omega
  · omega

theorem cellsOut_row (a : ReduceCall) {j col : ℕ} (hcol : col < a.dsCnt) :
    a.cellsOut (j * a.dsCnt + col) =
      if a.lead ≤ j ∧ j < a.lead + a.inner.toNat then
        reduceValue a.cf a.factor
          fun i => a.data ((a.skip + (j - a.lead) * a.factor + i) * a.dsCnt + col)
      else dnan := reducedCells_row a.dsCnt_pos hcol

/-- **The array behind the call.** -/
theorem tapeOut_lags (h : 0 ≤ a.inner) :
    Tape.Lags a.cellsOut a.data a.tapeOut ∧
      a.tapeOut.pos = (a.lead + a.inner.toNat + a.tail) * a.dsCnt := by
  obtain ⟨hcnt, hsmall, -⟩ := inner_rows h
  -- a row of unknown values in front
  have hlead : ∀ t, t = (if a.offset a.start = 0 then ⟨a.data, 0⟩ else nanRow a.dsCnt ⟨a.data, 0⟩) →
      Tape.Lags a.cellsOut a.data t ∧ t.pos = a.lead * a.dsCnt := by
    rintro t rfl
    by_cases hp : a.offset a.start = 0
    · rw [if_pos hp, lead, if_pos hp, Nat.zero_mul]
      exact ⟨Tape.lags_start _ _, rfl⟩
    · have hone : a.lead = 1 := if_neg hp
      rw [if_neg hp, hone, Nat.one_mul]
      obtain ⟨hl, hpos⟩ := @nanRow_lags a.dsCnt _ _ _ (Tape.lags_start a.cellsOut a.data)
        fun col hcol => by
          have hrow := a.cellsOut_row (j := 0) hcol
          rwa [if_neg (by omega), Nat.zero_mul] at hrow
      exact ⟨hl, hpos.trans (Nat.zero_add _)⟩
  obtain ⟨hfirst, hpos⟩ := hlead _ rfl
  -- the rows in between
  have hsrc : a.lead * a.dsCnt ≤ a.skip * a.dsCnt := by
    apply Nat.mul_le_mul_right
    have hlt := (a.offset_spec a.start_dvd).2
    rw [lead, skip]
    split_ifs
    · exact Nat.le_refl 0
    · omega
  obtain ⟨hrows, hend⟩ := @reduceRows_lags a.cf a.factor a.dsCnt (a.skip * a.dsCnt) _ _ _
    a.factor_pos a.inner.toNat (by omega) hfirst (hpos ▸ hsrc)
    fun d col hd hcol => by
      have hrow := a.cellsOut_row (j := a.lead + d) hcol
      rw [if_pos ⟨Nat.le_add_right _ _, by omega⟩, Nat.add_sub_cancel_left] at hrow
      have hcell : (a.lead + d) * a.dsCnt + col = a.lead * a.dsCnt + (d * a.dsCnt + col) := by ring
      have hread (i : ℕ) : (a.skip + d * a.factor + i) * a.dsCnt + col =
          a.skip * a.dsCnt + ((d * a.factor + i) * a.dsCnt + col) := by ring
      rw [hpos, ← hcell, hrow]
      simp only [hread]
  -- a row of unknown values behind
  have hsum : a.lead * a.dsCnt + a.inner.toNat * a.dsCnt = (a.lead + a.inner.toNat) * a.dsCnt :=
    (Nat.add_mul _ _ _).symm
  rw [hpos, hsum] at hend
  rw [tapeOut, hcnt]
  by_cases hq : a.offset a.stop = 0
  · have hnone : a.tail = 0 := if_pos hq
    rw [if_pos hq, hnone, Nat.add_zero]
    exact ⟨hrows, hend⟩
  · have hone : a.tail = 1 := if_neg hq
    rw [if_neg hq, hone, Nat.succ_mul]
    obtain ⟨hlast, hpos'⟩ := @nanRow_lags a.dsCnt _ _ _ hrows fun col hcol => by
      have hrow := a.cellsOut_row (j := a.lead + a.inner.toNat) hcol
      rwa [if_neg (by omega), ← hend] at hrow
    exact ⟨hlast, by rw [hpos', hend]⟩

/-- A multiple of the longer step that is not after a time. -/
theorem floor_isGreatest (a : ReduceCall) (t : ℤ) :
    IsGreatest {u : ℤ | (a.longStep : ℤ) ∣ u ∧ u ≤ t} (a.longStep * (t / a.longStep)) := by
  have hL : (0 : ℤ) < a.longStep := by exact_mod_cast a.longStep_pos
  refine ⟨⟨Dvd.intro _ rfl, Int.mul_ediv_self_le hL.ne'⟩, ?_⟩
  rintro u ⟨⟨k, rfl⟩, hk⟩
  exact mul_le_mul_of_nonneg_left ((Int.le_ediv_iff_mul_le hL).mpr (by rwa [mul_comm])) hL.le

/-- A multiple that is not before it. -/
theorem ceil_isLeast (a : ReduceCall) :
    IsLeast {u : ℤ | (a.longStep : ℤ) ∣ u ∧ a.stop ≤ u}
      (a.longStep * (a.stop / a.longStep + a.tail)) := by
  have hL : (0 : ℤ) < a.longStep := by exact_mod_cast a.longStep_pos
  have hdm := Int.mul_ediv_add_emod a.stop a.longStep
  have hlt := Int.emod_lt_of_pos a.stop hL
  have htail : a.tail = if a.stop % a.longStep = 0 then 0 else 1 := by
    rw [tail]
    exact if_congr (a.offset_eq_zero_iff a.stop_dvd) rfl rfl
  constructor
  · refine ⟨Dvd.intro _ rfl, ?_⟩
    rw [htail, mul_add]
    split_ifs
    · push_cast
      omega
    · push_cast
      omega
  · rintro u ⟨⟨k, rfl⟩, hk⟩
    apply mul_le_mul_of_nonneg_left _ hL.le
    have hle : a.stop / a.longStep ≤ k := by
      have := Int.ediv_le_ediv hL hk
      rwa [Int.mul_ediv_cancel_left _ hL.ne'] at this
    rw [htail]
    split_ifs with h
    · simpa using hle
    · have hne : a.stop / a.longStep ≠ k := by
        rintro rfl
        have hnonneg := Int.emod_nonneg a.stop hL.ne'
        omega
      push_cast
      omega

theorem stop_ceil (a : ReduceCall) :
    a.stop + -a.stop % a.longStep = a.longStep * (a.stop / a.longStep + a.tail) := by
  have hL : (0 : ℤ) < a.longStep := by exact_mod_cast a.longStep_pos
  have heq : a.stop + -a.stop % a.longStep = a.longStep * -(-a.stop / a.longStep) := by
    rw [Int.emod_def]
    ring
  refine IsLeast.unique (s := {u : ℤ | (a.longStep : ℤ) ∣ u ∧ a.stop ≤ u}) ⟨⟨?_, ?_⟩, ?_⟩ a.ceil_isLeast
  · exact heq ▸ Dvd.intro _ rfl
  · have := Int.emod_nonneg (-a.stop) hL.ne'
    omega
  · rintro u ⟨⟨k, rfl⟩, hk⟩
    have hle : -k ≤ -a.stop / a.longStep := by
      rw [Int.le_ediv_iff_mul_le hL]
      linarith
    rw [heq]
    exact mul_le_mul_of_nonneg_left (by omega) hL.le

/-- The rows that are in the window. -/
theorem inside_iff (a : ReduceCall) (j : ℕ) :
    (a.start ≤ a.longStep * (a.start / a.longStep) + j * a.longStep ∧
      a.longStep * (a.start / a.longStep) + (j + 1) * a.longStep ≤ a.stop) ↔
      a.lead ≤ j ∧ (j : ℤ) < a.lead + a.inner := by
  have hL : (0 : ℤ) < a.longStep := by exact_mod_cast a.longStep_pos
  have hzero := a.offset_eq_zero_iff a.start_dvd
  have hdm := Int.mul_ediv_add_emod a.start a.longStep
  have hstart : a.start ≤ a.longStep * (a.start / a.longStep) + j * a.longStep ↔ a.lead ≤ j := by
    rw [lead]
    have hnonneg := Int.emod_nonneg a.start hL.ne'
    have hlt := Int.emod_lt_of_pos a.start hL
    split_ifs with h
    · rw [hzero] at h
      have hmul : 0 ≤ (j : ℤ) * a.longStep := mul_nonneg (Int.natCast_nonneg j) hL.le
      exact iff_of_true (by omega) (Nat.zero_le j)
    · rw [hzero] at h
      constructor
      · intro hle
        by_contra hj
        have hj0 : j = 0 := by omega
        rw [hj0, Nat.cast_zero, zero_mul] at hle
        omega
      · intro hj
        have hmul : 1 * (a.longStep : ℤ) ≤ j * a.longStep :=
          mul_le_mul_of_nonneg_right (by exact_mod_cast hj) hL.le
        omega
  have hstop : a.longStep * (a.start / a.longStep) + (j + 1) * a.longStep ≤ a.stop ↔
      (j : ℤ) < a.lead + a.inner := by
    have hmul : a.longStep * (a.start / a.longStep) + (j + 1) * a.longStep =
        (a.start / a.longStep + j + 1) * a.longStep := by ring
    rw [hmul, ← Int.le_ediv_iff_mul_le hL, inner]
    omega
  rw [hstart, hstop]

/-- Consecutive indices are a range. -/
theorem filter_range_eq {n lo len : ℕ} {p : ℕ → Bool} (h : lo + len ≤ n)
    (hp : ∀ k, k < n → (p k = true ↔ lo ≤ k ∧ k < lo + len)) :
    (List.range n).filter p = (List.range len).map (lo + ·) := by
  obtain ⟨rest, rfl⟩ := Nat.exists_eq_add_of_le h
  have hfront : (List.range lo).filter p = [] := by
    rw [List.filter_eq_nil_iff]
    intro k hk
    have hlt := List.mem_range.mp hk
    rw [hp k (by omega)]
    omega
  have hmid : ((List.range len).map (lo + ·)).filter p = (List.range len).map (lo + ·) := by
    rw [List.filter_eq_self]
    intro k hk
    obtain ⟨i, hi, rfl⟩ := List.mem_map.mp hk
    have hlt := List.mem_range.mp hi
    rw [hp _ (by omega)]
    omega
  have hback : ((List.range rest).map (lo + len + ·)).filter p = [] := by
    rw [List.filter_eq_nil_iff]
    intro k hk
    obtain ⟨i, hi, rfl⟩ := List.mem_map.mp hk
    have hlt := List.mem_range.mp hi
    rw [hp _ (by omega)]
    omega
  rw [List.range_add, List.filter_append, hback, List.append_nil, List.range_add, List.filter_append,
    hfront, hmid, List.nil_append]

/-- **The source of a row in between.** -/
theorem knownIn_row (h : 0 ≤ a.inner) {j col : ℕ} (hlead : a.lead ≤ j) (hj : j < a.lead + a.inner.toNat) :
    a.knownIn (a.longStep * (a.start / a.longStep) + j * a.longStep)
        (a.longStep * (a.start / a.longStep) + (j + 1) * a.longStep) col =
      knownOf ((List.range a.factor).map
        fun i => a.data ((a.skip + (j - a.lead) * a.factor + i) * a.dsCnt + col)) := by
  obtain ⟨-, -, hrows⟩ := inner_rows h
  have hpos : (0 : ℤ) < a.curStep := by exact_mod_cast a.curStep_pos
  have hlt := (a.offset_spec a.start_dvd).2
  have hstart := a.eq_curStep_mul a.start_dvd
  -- the first of these rows starts where the interval does
  have hfirst : a.longStep * (a.start / a.longStep) + j * a.longStep =
      a.start + (a.skip + (j - a.lead) * a.factor : ℕ) * a.curStep := by
    have hskip : (a.skip : ℤ) + (j - a.lead) * a.factor = j * a.factor - a.offset a.start := by
      rw [skip, lead]
      split_ifs with hp
      · rw [hp]
        push_cast
        ring
      · rw [Nat.cast_sub hlt.le]
        push_cast
        ring
    rw [Nat.cast_add, Nat.cast_mul, Nat.cast_sub hlead, hskip]
    have hcast := a.longStep_cast
    linear_combination (-1 : ℤ) * hstart + (a.start / a.longStep + j) * hcast
  have hrange : a.skip + (j - a.lead) * a.factor + a.factor ≤ a.rows := by
    have hle : (j - a.lead + 1) * a.factor ≤ a.inner.toNat * a.factor :=
      Nat.mul_le_mul_right _ (by omega)
    rw [Nat.succ_mul] at hle
    omega
  have hlast : a.longStep * (a.start / a.longStep) + (j + 1) * a.longStep =
      a.start + (a.skip + (j - a.lead) * a.factor + a.factor : ℕ) * a.curStep := by
    rw [add_mul, one_mul, ← add_assoc, hfirst, longStep_cast]
    push_cast
    ring
  rw [knownIn, filter_range_eq hrange, List.map_map]
  · rfl
  · intro k _
    rw [decide_eq_true_iff, hfirst, hlast, add_le_add_iff_left, add_le_add_iff_left,
      mul_le_mul_iff_of_pos_right hpos, mul_le_mul_iff_of_pos_right hpos]
    omega

/-- A cell of the output, in or out of the window. -/
theorem tapeOut_row (h : 0 ≤ a.inner) {j col : ℕ} (hj : j < a.lead + a.inner.toNat + a.tail)
    (hcol : col < a.dsCnt) :
    a.tapeOut.cells (j * a.dsCnt + col) =
      if a.lead ≤ j ∧ j < a.lead + a.inner.toNat then
        reduceValue a.cf a.factor
          fun i => a.data ((a.skip + (j - a.lead) * a.factor + i) * a.dsCnt + col)
      else dnan := by
  obtain ⟨hlags, hpos⟩ := tapeOut_lags h
  have hlt : j * a.dsCnt + col < a.tapeOut.pos := by
    have hle : (j + 1) * a.dsCnt ≤ (a.lead + a.inner.toNat + a.tail) * a.dsCnt :=
      Nat.mul_le_mul_right _ hj
    rw [Nat.succ_mul] at hle
    rw [hpos]
    omega
  rw [hlags.written hlt, a.cellsOut_row hcol]

/-- **A row in the window** is the consolidation of its interval exactly if its sum comes out right. -/
theorem tapeOut_consolidates (h : 0 ≤ a.inner) {j col : ℕ} (hlead : a.lead ≤ j)
    (hj : j < a.lead + a.inner.toNat) (hcol : col < a.dsCnt) :
    a.cf.Consolidates
        (a.knownIn (a.longStep * (a.start / a.longStep) + j * a.longStep)
          (a.longStep * (a.start / a.longStep) + (j + 1) * a.longStep) col)
        (a.tapeOut.cells (j * a.dsCnt + col)) ↔
      a.cf.Settles (a.knownIn (a.longStep * (a.start / a.longStep) + j * a.longStep)
        (a.longStep * (a.start / a.longStep) + (j + 1) * a.longStep) col) := by
  rw [tapeOut_row h (by omega) hcol, if_pos ⟨hlead, hj⟩, knownIn_row h hlead hj]
  exact consolidates_reduceValue _ _ _

/-- The rows that are written are rows of the array. -/
theorem rowsOut_le (h : 0 ≤ a.inner) : a.lead + a.inner.toNat + a.tail ≤ a.rows := by
  obtain ⟨-, -, hrows⟩ := inner_rows h
  have hle := Nat.le_mul_of_pos_right a.inner.toNat a.factor_pos
  have hlt := (a.offset_spec a.start_dvd).2
  have hlead : a.lead ≤ a.skip := by
    rw [lead, skip]
    split_ifs
    · exact Nat.le_refl 0
    · omega
  have htail : a.tail ≤ a.offset a.stop := by
    rw [tail]
    split_ifs
    · exact Nat.zero_le _
    · omega
  omega

theorem long_of_time {t : ℤ} (hlo : -2 ^ 63 ≤ t) (hhi : t < 2 ^ 63) : long t = t :=
  Int.bmod_eq_of_le (by omega) (by omega)

/-- A time rounded down is a `time_t`. -/
theorem floor_time (hL : a.longStep < 2 ^ 64) (hsign : 0 ≤ a.start ∨ a.longStep ∣ 2 ^ 64) :
    -2 ^ 63 ≤ a.longStep * (a.start / a.longStep) := by
  have hpos : (0 : ℤ) < a.longStep := by exact_mod_cast a.longStep_pos
  rcases hsign with hsign | ⟨k, hk⟩
  · exact le_trans (by decide) (mul_nonneg hpos.le (Int.ediv_nonneg hsign hpos.le))
  · -- a smaller power of two divides the bound
    have hdvd : a.longStep ∣ 2 ^ 63 := by
      obtain ⟨e, he, heq⟩ := (Nat.dvd_prime_pow Nat.prime_two).mp (Dvd.intro k hk.symm)
      rw [heq] at hL ⊢
      exact Nat.pow_dvd_pow 2 (Nat.lt_succ_iff.mp ((Nat.pow_lt_pow_iff_right (by decide)).mp hL))
    have hmem : (-2 ^ 63 : ℤ) ∈ {u : ℤ | (a.longStep : ℤ) ∣ u ∧ u ≤ a.start} :=
      ⟨(dvd_neg).mpr (by exact_mod_cast Int.natCast_dvd_natCast.mpr hdvd), a.start_time⟩
    exact (a.floor_isGreatest a.start).2 hmem

theorem startOut_eq (hL : a.longStep < 2 ^ 64) (hsign : 0 ≤ a.start ∨ a.longStep ∣ 2 ^ 64) :
    a.startOut = a.longStep * (a.start / a.longStep) := by
  have hdm := Int.mul_ediv_add_emod a.start a.longStep
  have hle := (a.floor_isGreatest a.start).1.2
  have hlo := floor_time hL hsign
  have hhi := a.stop_time
  have hstart := a.start_le
  rw [startOut]
  split_ifs with h
  · rw [a.offset_eq_zero_iff a.start_dvd] at h
    omega
  · have hsub : a.start - a.start % a.longStep = a.longStep * (a.start / a.longStep) := by omega
    rw [hsub]
    exact long_of_time hlo (by omega)

theorem stopOut_eq (hstop : a.stop + -a.stop % a.longStep < 2 ^ 63) :
    a.stopOut = a.longStep * (a.stop / a.longStep + a.tail) := by
  have hdm := Int.mul_ediv_add_emod a.stop a.longStep
  have hle := a.ceil_isLeast.1.2
  have hlo := a.start_time
  have hstart := a.start_le
  rw [stop_ceil] at hstop
  rw [stopOut]
  split_ifs with h
  · have hnone : a.tail = 0 := if_pos h
    rw [a.offset_eq_zero_iff a.stop_dvd] at h
    rw [hnone, Nat.cast_zero, add_zero]
    omega
  · have hone : a.tail = 1 := if_neg h
    have hsub : a.stop - a.stop % a.longStep + a.longStep =
        a.longStep * (a.stop / a.longStep + a.tail) := by
      rw [hone, mul_add]
      push_cast
      omega
    rw [hsub]
    exact long_of_time (by omega) hstop

/-- The remainders, where times may be taken modulo the step as `unsigned long`s. -/
theorem umods_eq (hsign : 0 ≤ a.start ∨ a.longStep ∣ 2 ^ 64) :
    umod a.start a.longStep = a.start % a.longStep ∧ umod a.stop a.longStep = a.stop % a.longStep := by
  have hlo := a.start_time
  have hhi := a.stop_time
  have hle := a.start_le
  constructor
  · exact (umod_eq_iff hlo (by omega)).mpr hsign
  · exact (umod_eq_iff (by omega) hhi).mpr (hsign.imp_left fun h => by omega)

/-- **Enough**: the function is right where its arguments fit. -/
theorem reduced_of_fits (h : a.Fits) : ∃ r, a.run = .done r ∧ a.Reduced r := by
  obtain ⟨hustart, hustop⟩ := umods_eq h.sign
  have hinner : 0 ≤ a.inner := a.inner_nonneg_iff.mpr h.apart
  obtain ⟨hcnt, -, -⟩ := inner_rows hinner
  have hnone : ¬toUlong (a.factor * a.inner) % a.factor ≠ 0 := by
    rw [hcnt, Nat.mul_mod_left]
    exact fun hne => hne rfl
  have hL : (0 : ℤ) < a.longStep := by exact_mod_cast a.longStep_pos
  refine ⟨_, by rw [run_eq h.factor h.step hustart hustop, if_neg hnone], ?_⟩
  have hstart := startOut_eq h.step h.sign
  have hstop := stopOut_eq h.stop
  obtain ⟨-, hpos⟩ := tapeOut_lags hinner
  have hwindow : a.stopOut - a.startOut = (a.lead + a.inner.toNat + a.tail : ℕ) * a.longStep := by
    rw [hstart, hstop]
    push_cast
    rw [Int.toNat_of_nonneg hinner, inner]
    ring
  constructor
  · exact a.longStep_least
  · exact hstart ▸ a.floor_isGreatest a.start
  · exact hstop ▸ a.ceil_isLeast
  · change (a.tapeOut.pos : ℤ) = (a.stopOut - a.startOut) / a.longStep * a.dsCnt
    rw [hwindow, Int.mul_ediv_cancel _ hL.ne', hpos]
    push_cast
    rfl
  · change a.tapeOut.pos ≤ a.rows * a.dsCnt
    rw [hpos]
    exact Nat.mul_le_mul_right _ (rowsOut_le hinner)
  · intro j col hcol hlo hhi
    change a.start ≤ a.startOut + j * a.longStep at hlo
    change a.startOut + (j + 1) * a.longStep ≤ a.stop at hhi
    change a.cf.Consolidates (a.knownIn (a.startOut + j * a.longStep)
      (a.startOut + (j + 1) * a.longStep) col) (a.tapeOut.cells (j * a.dsCnt + col))
    rw [hstart] at hlo hhi ⊢
    obtain ⟨hlead, hj⟩ := (a.inside_iff j).mp ⟨hlo, hhi⟩
    rw [tapeOut_consolidates hinner hlead (by omega) hcol]
    have hend : a.longStep * (a.start / a.longStep) + (j + 1) * (a.longStep : ℤ) =
        a.longStep * (a.start / a.longStep) + j * a.longStep + a.longStep := by ring
    rw [hend] at hhi ⊢
    exact h.sums _ (Int.dvd_add (Dvd.intro _ rfl) (Dvd.intro_left _ rfl)) hlo hhi col hcol
  · intro j col hcol hin hout
    change a.startOut + (j + 1) * a.longStep ≤ a.stopOut at hin
    change ¬(a.start ≤ a.startOut + j * a.longStep ∧ a.startOut + (j + 1) * a.longStep ≤ a.stop) at hout
    change a.tapeOut.cells (j * a.dsCnt + col) = dnan
    have hj : j < a.lead + a.inner.toNat + a.tail := by
      have hle : ((j + 1 : ℕ) : ℤ) * a.longStep ≤ (a.lead + a.inner.toNat + a.tail : ℕ) * a.longStep := by
        rw [← hwindow]
        push_cast
        omega
      exact_mod_cast le_of_mul_le_mul_right hle hL
    rw [hstart, a.inside_iff j] at hout
    rw [tapeOut_row hinner hj hcol, if_neg]
    rintro ⟨hlead, hlt⟩
    exact hout ⟨hlead, by omega⟩

/-! ## The other direction -/

/-- What a normal return says about the numbers. -/
theorem done_inv (h : a.run = .done r) :
    a.factor < 2 ^ 31 ∧ r.step = toUlong a.longStep ∧
      r.start = (if (umod a.start r.step).toNat ≠ 0 then long (a.start - (umod a.start r.step).toNat)
        else a.start) ∧
      r.stop < 2 ^ 63 := by
  have hfactor : a.factor < 2 ^ 31 := by
    by_contra hge
    have hint : toInt32 ⌈(a.step : ℚ) / a.curStep⌉ = -2 ^ 31 := by
      rw [ceil_eq, toInt32, if_neg]
      rintro ⟨-, hlt⟩
      exact hge (by exact_mod_cast hlt)
    rw [run, reduceData, hint] at h
    dsimp only at h
    split_ifs at h <;> omega
  have hint : toInt32 ⌈(a.step : ℚ) / a.curStep⌉ = a.factor := by
    rw [ceil_eq, toInt32, if_pos ⟨by omega, by exact_mod_cast hfactor⟩]
  have hlong (t : ℤ) : long t < 2 ^ 63 := Int.bmod_lt (by decide)
  have htime := a.stop_time
  rw [run, reduceData, hint, ← longStep_cast] at h
  dsimp only at h
  split_ifs at h
  all_goals
    obtain rfl := ReduceOutcome.done.inj h
    refine ⟨hfactor, rfl, ?_, ?_⟩
    · simp_all
    · first
        | exact hlong _
        | exact htime

/-- The remainder of a time is one of the machine's numbers. -/
theorem umod_lt {t : ℤ} {s : ℕ} (hs : 0 < s) : 0 ≤ umod t s ∧ umod t s < s := by
  have hpos : (0 : ℤ) < s := by exact_mod_cast hs
  exact ⟨Int.emod_nonneg _ hpos.ne', Int.emod_lt_of_pos _ hpos⟩

/-- **Where the start comes out right**, times may be taken modulo the step. -/
theorem sign_of_start (hL : a.longStep < 2 ^ 64)
    (h : (if (umod a.start a.longStep).toNat ≠ 0 then
        long (a.start - (umod a.start a.longStep).toNat) else a.start) =
      a.longStep * (a.start / a.longStep)) : 0 ≤ a.start ∨ a.longStep ∣ 2 ^ 64 := by
  have hpos : (0 : ℤ) < a.longStep := by exact_mod_cast a.longStep_pos
  have hdm := Int.mul_ediv_add_emod a.start a.longStep
  have hlo := a.start_time
  have hhi := a.stop_time
  have hle := a.start_le
  obtain ⟨hnonneg, hlt⟩ := umod_lt (t := a.start) a.longStep_pos
  have hcast : ((umod a.start a.longStep).toNat : ℤ) = umod a.start a.longStep :=
    Int.toNat_of_nonneg hnonneg
  have hmod := Int.emod_nonneg a.start hpos.ne'
  have hmodlt := Int.emod_lt_of_pos a.start hpos
  rw [← umod_eq_iff hlo (by omega)]
  split_ifs at h with hzero
  · rw [hcast] at h
    -- both are between zero and `2 ^ 64`, and they are the same modulo `2 ^ 64`
    have hbmod : (a.start - umod a.start a.longStep).bmod (2 ^ 64) =
        (a.start - a.start % a.longStep).bmod (2 ^ 64) := by
      have hfloor : a.start - a.start % a.longStep = long (a.start - umod a.start a.longStep) := by
        rw [h]
        omega
      rw [hfloor, long, Int.bmod_bmod]
    obtain ⟨c, hc⟩ := Int.dvd_of_bmod_eq_zero (Int.bmod_eq_bmod_iff_bmod_sub_eq_zero.mp hbmod)
    push_cast at hc
    omega
  · rw [ne_eq, not_not] at hzero
    omega

theorem nanRow_pos (ds : ℕ) (t : Tape RrdValue) : (nanRow ds t).pos = t.pos + ds :=
  forLoop_invariant (fun (i : ℕ) (u : Tape RrdValue) => u.pos = t.pos + i) rfl fun i u _ hu => by
    rw [Tape.put_pos, hu, Nat.add_assoc]

/-- **Start and end inside of one interval**: a row too many is written, unless the sanity check stops it. -/
theorem tapeOut_apart (hf : a.factor < 2 ^ 31) (h : a.inner = -1) :
    a.tapeOut.pos = 2 * a.dsCnt := by
  have hfpos := a.factor_pos
  have hnot := mt a.inner_nonneg_iff.mpr (by omega)
  rw [not_or, not_or, ← a.offset_eq_zero_iff a.start_dvd, ← a.offset_eq_zero_iff a.stop_dvd] at hnot
  have hcnt : toUlong (a.factor * a.inner) = 2 ^ 64 - a.factor := by
    rw [h, toUlong]
    omega
  have hnone : ¬(2 ^ 64 - a.factor < 2 ^ 63 ∧ a.factor ≤ 2 ^ 64 - a.factor ∧ 0 < a.factor) := by omega
  rw [tapeOut, hcnt, if_neg hnot.1, if_neg hnot.2.1, reduceRows, dif_neg hnone, nanRow_pos, nanRow_pos]
  exact (Nat.two_mul _).symm ▸ congrArg (· + a.dsCnt) (Nat.zero_add _)

/-- **Necessary**: where the function is right, its arguments fit. -/
theorem fits_of_reduced (h : a.run = .done r) (hr : a.Reduced r) : a.Fits := by
  obtain ⟨hf, hstep, hstart, hstop⟩ := done_inv h
  have hpos : (0 : ℤ) < a.longStep := by exact_mod_cast a.longStep_pos
  have hlong : r.step = a.longStep := hr.step.unique a.longStep_least
  have hL : a.longStep < 2 ^ 64 := by
    rw [← hlong, hstep, toUlong]
    omega
  rw [hlong] at hstart
  have hfloor : r.start = a.longStep * (a.start / a.longStep) := by
    have := hr.start
    rw [hlong] at this
    exact this.unique (a.floor_isGreatest a.start)
  have hceil : r.stop = a.longStep * (a.stop / a.longStep + a.tail) := by
    have := hr.stop
    rw [hlong] at this
    exact this.unique a.ceil_isLeast
  have hsign := sign_of_start hL (hstart.symm.trans hfloor)
  obtain ⟨hustart, hustop⟩ := umods_eq hsign
  have htape : r.tape = a.tapeOut := by
    rw [run_eq hf hL hustart hustop] at h
    split_ifs at h
    exact congrArg Reduction.tape (ReduceOutcome.done.inj h).symm
  have hwindow : r.stop - r.start =
      (a.stop / a.longStep + a.tail - a.start / a.longStep) * a.longStep := by
    rw [hceil, hfloor]
    ring
  have hinner : 0 ≤ a.inner := by
    by_contra hneg
    have hone : a.inner = -1 := by
      have := a.inner_ge
      omega
    have hwritten := hr.written
    rw [hlong, hwindow, Int.mul_ediv_cancel _ hpos.ne', htape, tapeOut_apart hf hone] at hwritten
    have hmono : a.start / a.longStep ≤ a.stop / a.longStep := Int.ediv_le_ediv hpos a.start_le
    have htail : a.tail ≤ 1 := by
      rw [tail]
      split_ifs
      · exact Nat.zero_le 1
      · exact Nat.le_refl 1
    have hlead : a.lead ≤ 1 := by
      rw [lead]
      split_ifs
      · exact Nat.zero_le 1
      · exact Nat.le_refl 1
    have hone' : a.stop / a.longStep + a.tail - a.start / a.longStep ≤ 1 := by
      rw [inner] at hone
      omega
    have hds : (0 : ℤ) < a.dsCnt := by exact_mod_cast a.dsCnt_pos
    have hle := mul_le_mul_of_nonneg_right hone' hds.le
    push_cast at hwritten
    omega
  refine ⟨hf, hL, ?_, hsign, a.inner_nonneg_iff.mp hinner, ?_⟩
  · rw [stop_ceil, ← hceil]
    exact hstop
  · rintro t ⟨k, rfl⟩ hlo hhi col hcol
    obtain ⟨j, rfl⟩ : ∃ j : ℕ, k = a.start / a.longStep + j := by
      have hle : a.start / a.longStep ≤ k := by
        have := Int.ediv_le_ediv hpos hlo
        rwa [Int.mul_ediv_cancel_left _ hpos.ne'] at this
      exact ⟨(k - a.start / a.longStep).toNat, by omega⟩
    have hfirst : (a.longStep : ℤ) * (a.start / a.longStep + j) =
        a.longStep * (a.start / a.longStep) + j * a.longStep := by ring
    have hlast : a.longStep * (a.start / a.longStep) + j * (a.longStep : ℤ) + a.longStep =
        a.longStep * (a.start / a.longStep) + (j + 1) * a.longStep := by ring
    rw [hfirst] at hlo hhi ⊢
    rw [hlast] at hhi ⊢
    have hin := hr.inside j col hcol
    rw [hlong, hfloor, htape] at hin
    obtain ⟨hlead, hj⟩ := (a.inside_iff j).mp ⟨hlo, hhi⟩
    exact (tapeOut_consolidates hinner hlead (by omega) hcol).mp (hin hlo hhi)

/-- **`reduce_data` reduces the rows of a fetch** exactly where its arguments fit. -/
theorem reduceData_iff (a : ReduceCall) : (∃ r, a.run = .done r ∧ a.Reduced r) ↔ a.Fits :=
  ⟨fun ⟨_, h, hr⟩ => fits_of_reduced h hr, reduced_of_fits⟩

/-- **A window inside of one new interval**: three minutes in rows of one, for a step of five. The process
ends. -/
theorem shortWindow_exits : ∃ a : ReduceCall, a.cf = .average ∧ a.curStep = 60 ∧ a.start = 60 ∧
    a.stop = 240 ∧ a.step = 300 ∧ a.dsCnt = 1 ∧ a.data = (fun _ => .num 1) ∧ a.run = .sanityCheck ∧
    ¬∃ r, a.run = .done r ∧ a.Reduced r := by
  let a : ReduceCall := {
    cf := .average
    curStep := 60
    start := 60
    stop := 240
    step := 300
    dsCnt := 1
    data := fun _ => .num 1
    curStep_pos := by decide
    dsCnt_pos := by decide
    start_dvd := by decide
    stop_dvd := by decide
    start_le := by decide
    step_lt := by decide
    start_time := by decide
    stop_time := by decide
    step_ulong := by decide
    room := by decide }
  have hrun : a.run = .sanityCheck := by
    rw [run_eq (a := a) (by decide) (by decide) (by decide) (by decide)]
    exact if_pos (by decide)
  refine ⟨a, rfl, rfl, rfl, rfl, rfl, rfl, rfl, hrun, ?_⟩
  rintro ⟨r, hr, -⟩
  rw [hrun] at hr
  cases hr

end ReduceCall

end Rrdtool
