import Rrdtool.Graph.Trend
import Mathlib.Data.List.TakeWhile

/-!
# What the operators of a `CDEF` read of its variables

`PREV(v)`, `TREND`, `TRENDNAN`, `PREDICT` and `PREDICTSIGMA` go back from a data pointer by some rows. None of them
asks in which row of the variable that pointer is.

* `rowsBack`, `rpnOp_reads` — the rows by which an operator goes back;
* `reads_inside_iff` — all reads are inside of the data of the variables where these rows are.
-/

namespace Rrdtool

open Loop RpnState

/-! ## How far an operator goes back -/

/-- The operator goes back in the data of a variable. -/
def Op.GoesBack (op : Op) : Prop :=
  op = .prevOther ∨ (op = .trend ∨ op = .trendnan) ∨ op = .predict ∨ op = .predictsigma

instance (op : Op) : Decidable op.GoesBack := inferInstanceAs (Decidable (_ ∨ _))

/-- The passes of the loop of `TREND`. The first one is made in any case. -/
def trendPasses (dur : ℤ) (step : ℕ) : ℕ := trendRows ((dur - step).bmod (2 ^ 64)) step + 1

/-- The rows of `TREND`: as many as there are passes, if it finds its operands and enough rows. -/
def trendBack (call : RpnCall) (v : Option RpnNode) (c : RpnState) : List ℤ :=
  match v with
  | none => []
  | some v =>
    let dur := cLong (c.cells c.stptr)
    if c.stptr < 1 ∨ v.op ≠ .variable ∨ call.outputIdx + 1 < ceilQuot dur v.step then []
    else (List.range (trendPasses dur v.step)).map fun t : ℕ => (t : ℤ)

/-- The element that `PREDICT` finds the shifts at. -/
def shiftBase (c : RpnState) (shifts : ℤ) : ℤ := c.stptr - 2 - if shifts < 0 then 1 else shifts

/-- The shift of a pass. -/
def shiftStep (c : RpnState) (shifts : ℤ) (loop : ℕ) : ℤ :=
  if shifts < 0 then cInt (Dbl.ofNat loop * c.cells (shiftBase c shifts))
  else cInt (c.cells (shiftBase c shifts + loop))

/-- The rows of one shift: those among the ones around it that the output has, too. -/
def shiftBack (call : RpnCall) (v : RpnNode) (locstep shiftstep : ℤ) : List ℤ :=
  ((List.range (locstep + 1).toNat).map fun i : ℕ => ceilQuot shiftstep v.step + i).filter
    fun o => 0 ≤ o ∧ o < call.outputIdx

/-- The rows of `PREDICT`: those of the shifts in front of the first negative one. -/
def predictBack (call : RpnCall) (v : RpnNode) (c : RpnState) : List ℤ :=
  let locstepsize := cInt (c.cells (c.stptr - 1))
  let shifts := cInt (c.cells (c.stptr - 2))
  if c.stptr < 2 ∨ c.stptr - 2 < shifts then []
  else
    let doshifts := if shifts < 0 then wrapInt (-shifts) else shifts
    (((List.range doshifts.toNat).map (shiftStep c shifts)).takeWhile (0 ≤ ·)).flatMap
      (shiftBack call v (ceilQuot locstepsize v.step))

/-- **The rows by which an operator goes back**, each with the node whose pointer it goes back from. -/
def rowsBack (call : RpnCall) (prog : List RpnNode) (rpi : ℕ) (n : RpnNode) (c : RpnState) : List (ℕ × ℤ) :=
  if n.op = .prevOther then if call.outputIdx ≤ 0 then [] else [(rpi, 1)]
  else if n.op = .trend ∨ n.op = .trendnan then
    (trendBack call (if rpi < 2 then none else prog[rpi - 2]?) c).map (rpi - 2, ·)
  else if n.op = .predict ∨ n.op = .predictsigma then
    (predictBack call (prog.getD (rpi - 1) n) c).map (rpi - 1, ·)
  else []

variable {env : RpnEnv} {call : RpnCall} {v n : RpnNode} {rpi : ℕ} {c : RpnState}

/-- Reads that a loop adds to the log, the last one first. -/
def logged (rpi : ℕ) (pos : ℤ) (dsCnt : ℕ) (back : List ℤ) (reads : List (ℕ × ℤ)) : List (ℕ × ℤ) :=
  (back.map fun o => (rpi, pos - o * dsCnt)).reverse ++ reads

theorem logged_append (pos : ℤ) (dsCnt : ℕ) (back more : List ℤ) (reads : List (ℕ × ℤ)) :
    logged rpi pos dsCnt (back ++ more) reads = logged rpi pos dsCnt more (logged rpi pos dsCnt back reads) := by
  rw [logged, logged, logged, List.map_append, List.reverse_append, List.append_assoc]

/-! ## `TREND` -/

theorem trendPasses_reads (ignorenan : Bool) (c : RpnState) (m : ℕ) :
    ((trendPass env v rpi ignorenan)^[m] (c, ⟨.num 0, 0, 0⟩)).1.reads =
      logged rpi (c.data rpi) v.dsCnt ((List.range m).map fun t : ℕ => (t : ℤ)) c.reads := by
  induction m with
  | zero => rfl
  | succ m ih =>
    obtain ⟨hacc, hsame⟩ := @trendPasses_eq env v rpi ignorenan c m
    have hpos : c.data rpi + v.dsCnt * -(m : ℤ) = c.data rpi - m * v.dsCnt := by ring
    rw [Function.iterate_succ_apply', List.range_succ, List.map_append, logged_append, ← ih, trendPass, hacc, hsame.data]
    dsimp only
    rw [hpos]
    split_ifs
    · rfl
    · rfl

theorem opTrend_reads {op : Op} {w : Option RpnNode} (hstep : ∀ v ∈ w, v.op = .variable → 0 < v.step) :
    (opTrend env call op w rpi c).state.reads =
      logged (rpi - 2) (c.data (rpi - 2)) (w.elim 0 RpnNode.dsCnt) (trendBack call w c) c.reads := by
  rw [opTrend, RpnState.need]
  cases w with
  | none =>
    split_ifs
    · rfl
    · rfl
  | some v =>
    rw [trendBack]
    dsimp only
    by_cases hdepth : c.stptr < 1
    · rw [if_pos hdepth, if_pos (.inl hdepth)]
      rfl
    by_cases hvar : v.op ≠ .variable
    · rw [if_neg hdepth, if_pos hvar, if_pos (.inr (.inl hvar))]
      rfl
    by_cases hrows : ceilQuot (cLong (c.cells c.stptr)) v.step ≤ call.outputIdx + 1
    · have hgo : ¬ (c.stptr < 1 ∨ v.op ≠ .variable ∨ call.outputIdx + 1 < ceilQuot (cLong (c.cells c.stptr)) v.step) := by
        rintro (h | h | h)
        · exact hdepth h
        · exact hvar h
        · exact absurd hrows (not_le.mpr h)
      rw [if_neg hdepth, if_neg hvar, if_pos hrows, if_neg hgo,
        trendLoop_eq (hstep v (Option.mem_some_self v) (not_not.mp hvar)), ← Function.iterate_succ_apply]
      have hreads := @trendPasses_reads env v (rpi - 2) (decide (op = .trend)) (c.load c.stptr)
        (trendPasses (cLong (c.cells c.stptr)) v.step)
      exact hreads
    · rw [if_neg hdepth, if_neg hvar, if_neg hrows, if_pos (.inr (.inr (not_le.mp hrows)))]
      rfl

/-! ## `PREDICT` -/

theorem predictPass_reads (offset : ℤ) (s : RpnState × PredictAcc) :
    (predictPass env call v rpi offset s).1.reads =
      logged rpi (s.1.data rpi) v.dsCnt ([offset].filter fun o => 0 ≤ o ∧ o < call.outputIdx) s.1.reads := by
  rw [predictPass, List.filter_singleton]
  by_cases hin : 0 ≤ offset ∧ offset < call.outputIdx
  · rw [if_pos hin, decide_eq_true hin, mul_comm (v.dsCnt : ℤ) offset]
    dsimp only
    split_ifs
    · rfl
    · rfl
  · rw [if_neg hin, decide_eq_false hin]
    rfl

/-- The inner loop. -/
theorem predictLoop_reads (m : ℕ) (first : ℤ) (s : RpnState × PredictAcc) :
    (forLoop m (fun i s => predictPass env call v rpi (first + i) s) s).1.reads =
      logged rpi (s.1.data rpi) v.dsCnt
        (((List.range m).map fun i : ℕ => first + i).filter fun o => 0 ≤ o ∧ o < call.outputIdx) s.1.reads := by
  induction m with
  | zero => rfl
  | succ m ih =>
    have hsame := predictLoop_same env call v rpi m first s
    rw [forLoop_succ, predictPass_reads, hsame.data, ih, ← logged_append, List.range_succ, List.map_append,
      List.filter_append]
    rfl

/-- What a pass of the outer loop takes from the stack. -/
def stepAt (c : RpnState) (negative : Bool) (loop : ℕ) : ℤ :=
  if negative then cInt (Dbl.ofNat loop * c.cells (shiftIndex c negative loop))
  else cInt (c.cells (shiftIndex c negative loop))

/-- One shift. -/
theorem predictShift_reads (locstep : ℤ) (negative : Bool) (loop : ℕ) (s : RpnState × PredictAcc) :
    (predictShift env call v rpi locstep negative loop s).isOk = decide (0 ≤ stepAt s.1 negative loop) ∧
      (predictShift env call v rpi locstep negative loop s).state.1.reads =
        logged rpi (s.1.data rpi) v.dsCnt
          (([stepAt s.1 negative loop].takeWhile (0 ≤ ·)).flatMap (shiftBack call v locstep)) s.1.reads := by
  rw [predictShift]
  dsimp only
  rw [← shiftIndex, ← stepAt, List.takeWhile_cons, List.takeWhile_nil]
  by_cases hneg : stepAt s.1 negative loop < 0
  · rw [if_pos hneg, decide_eq_false (not_le.mpr hneg)]
    exact ⟨rfl, rfl⟩
  · rw [if_neg hneg, decide_eq_true (not_lt.mp hneg)]
    refine ⟨rfl, ?_⟩
    rw [Outcome.state_ok, predictLoop_reads, if_pos rfl, List.flatMap_singleton]
    rfl

theorem takeWhile_concat {α : Type} (p : α → Bool) (l : List α) (x : α) :
    (l ++ [x]).takeWhile p = if ∀ y ∈ l, p y = true then l ++ [x].takeWhile p else l.takeWhile p := by
  split_ifs with hall
  · exact List.takeWhile_append_of_pos hall
  · rw [List.takeWhile_append, if_neg]
    intro hlength
    refine hall fun y hy => ?_
    rw [← List.IsPrefix.eq_of_length (List.takeWhile_prefix p) hlength] at hy
    exact List.mem_takeWhile_imp hy

/-- **The outer loop**: the shifts in front of the first negative one. -/
theorem shiftLoop_reads (locstep : ℤ) (negative : Bool) (s : RpnState × PredictAcc) (m : ℕ) :
    ((forLoopE m (predictShift env call v rpi locstep negative) s).isOk = true ↔
        ∀ i ∈ (List.range m).map (stepAt s.1 negative), 0 ≤ i) ∧
      (forLoopE m (predictShift env call v rpi locstep negative) s).state.1.reads =
        logged rpi (s.1.data rpi) v.dsCnt
          ((((List.range m).map (stepAt s.1 negative)).takeWhile (0 ≤ ·)).flatMap (shiftBack call v locstep))
          s.1.reads := by
  -- only the logs change
  have hframe : ∀ m, (forLoopE m (predictShift env call v rpi locstep negative) s).state.1.cells = s.1.cells ∧
      (forLoopE m (predictShift env call v rpi locstep negative) s).state.1.stptr = s.1.stptr ∧
      (forLoopE m (predictShift env call v rpi locstep negative) s).state.1.data = s.1.data := by
    intro m
    refine forLoopE_state (fun t : RpnState × PredictAcc => t.1.cells = s.1.cells ∧ t.1.stptr = s.1.stptr ∧
      t.1.data = s.1.data) ⟨rfl, rfl, rfl⟩ ?_
    rintro loop t - ⟨hcells, hstptr, hdata⟩
    have hsame := predictShift_same env call v rpi locstep negative loop t
    exact ⟨hsame.cells.trans hcells, hsame.stptr.trans hstptr, hsame.data.trans hdata⟩
  induction m with
  | zero => exact ⟨iff_of_true rfl (by simp), rfl⟩
  | succ m ih =>
    obtain ⟨hok, hreads⟩ := ih
    obtain ⟨hcells, hstptr, hdata⟩ := hframe m
    rw [forLoopE_succ, List.range_succ, List.map_append, List.map_singleton, takeWhile_concat]
    simp only [decide_eq_true_eq, List.mem_append, List.mem_singleton, or_imp, forall_and, forall_eq]
    cases hrun : forLoopE m (predictShift env call v rpi locstep negative) s with
    | fail e t =>
      rw [hrun] at hok hreads
      have hnot : ¬ ∀ i ∈ (List.range m).map (stepAt s.1 negative), 0 ≤ i := fun h => by
        have := hok.mpr h
        cases this
      rw [if_neg hnot]
      exact ⟨iff_of_false (by simp) fun h => hnot h.1, hreads⟩
    | ok t =>
      rw [hrun] at hok hreads hcells hstptr hdata
      have hall := hok.mp rfl
      obtain ⟨hok', hreads'⟩ := @predictShift_reads env call v rpi locstep negative m t
      have hstep : stepAt t.1 negative m = stepAt s.1 negative m := by
        rw [Outcome.state_ok] at hcells hstptr
        rw [stepAt, stepAt, shiftIndex, shiftIndex, hcells, hstptr]
      rw [Outcome.state_ok] at hreads hdata
      rw [hstep] at hok' hreads'
      rw [hdata, hreads, ← logged_append, ← List.flatMap_append] at hreads'
      rw [if_pos hall, Outcome.ok_andThen, hok', decide_eq_true_eq]
      refine ⟨(and_iff_right hall).symm, ?_⟩
      rw [hreads', List.takeWhile_eq_self_iff.mpr fun i hi => decide_eq_true (hall i hi)]

theorem predictShifts_reads (op : Op) (locstepsize shifts : ℤ) (c : RpnState) :
    (predictShifts env call op v rpi locstepsize shifts c).state.reads =
      logged (rpi - 1) (c.data (rpi - 1)) v.dsCnt
        ((((List.range (if shifts < 0 then wrapInt (-shifts) else shifts).toNat).map
          (stepAt (shiftStart shifts c) (decide (shifts < 0)))).takeWhile (0 ≤ ·)).flatMap
            (shiftBack call v (ceilQuot locstepsize v.step))) c.reads := by
  have hstart : (shiftStart shifts c).reads = c.reads ∧ (shiftStart shifts c).data = c.data := by
    rw [shiftStart]
    split_ifs
    · exact ⟨rfl, rfl⟩
    · exact ⟨rfl, rfl⟩
  obtain ⟨-, hloop⟩ := @shiftLoop_reads env call v (rpi - 1) (ceilQuot locstepsize v.step) (decide (shifts < 0))
    (shiftStart shifts c, ⟨.num 0, .num 0, 0⟩) (if shifts < 0 then wrapInt (-shifts) else shifts).toNat
  dsimp only at hloop
  rw [hstart.1, hstart.2] at hloop
  rw [← hloop, predictShifts, ← shiftStart]
  cases forLoopE (if shifts < 0 then wrapInt (-shifts) else shifts).toNat
      (predictShift env call v (rpi - 1) (ceilQuot locstepsize v.step) (decide (shifts < 0)))
      (shiftStart shifts c, ⟨.num 0, .num 0, 0⟩) with
  | fail e t => rfl
  | ok t => rfl

theorem opPredict_reads (op : Op) (c : RpnState) :
    (opPredict env call op v rpi c).state.reads =
      logged (rpi - 1) (c.data (rpi - 1)) v.dsCnt (predictBack call v c) c.reads := by
  rw [opPredict, RpnState.need, predictBack]
  by_cases hdepth : c.stptr < 2
  · rw [if_pos hdepth]
    dsimp only
    rw [if_pos (.inl hdepth)]
    rfl
  rw [if_neg hdepth]
  dsimp only
  set shifts := cInt (c.cells (c.stptr - 2))
  have hstptr : ((((c.move (-1)).load (c.stptr - 1)).move (-1)).load (c.stptr - 2)).stptr = c.stptr - 2 := by
    simp only [move_stptr, load_stptr]
    ring
  rw [RpnState.need, hstptr]
  by_cases hshifts : c.stptr - 2 < shifts
  · rw [if_pos hshifts, if_pos (.inr hshifts)]
    rfl
  · rw [if_neg hshifts, if_neg (not_or.mpr ⟨hdepth, hshifts⟩), predictShifts_reads]
    have hstep : stepAt (shiftStart shifts ((((c.move (-1)).load (c.stptr - 1)).move (-1)).load (c.stptr - 2)))
        (decide (shifts < 0)) = shiftStep c shifts := by
      funext loop
      rw [stepAt, shiftStep, shiftIndex, shiftStart, shiftBase]
      by_cases hneg : shifts < 0
      · simp only [hneg, decide_true, if_true, move_cells, load_cells, move_stptr, load_stptr]
        congr 3
        ring
      · simp only [hneg, decide_false, if_false, Bool.false_eq_true, move_cells, load_cells, move_stptr, load_stptr]
        congr 2
        ring
    rw [hstep]
    rfl

/-! ## The operators -/

theorem opVariable_reads (hop : n.op = .prevOther) (hcnt : n.dsCnt ≠ 0) (c : RpnState) :
    (opVariable env call n rpi c).state.reads =
      logged rpi (c.data rpi) n.dsCnt (if call.outputIdx ≤ 0 then [] else [1]) c.reads := by
  have hne : n.op ≠ .variable := by
    rw [hop]
    decide
  rw [opVariable, if_neg hcnt]
  dsimp only
  rw [if_neg hne]
  by_cases hout : call.outputIdx ≤ 0
  · rw [if_pos hout, if_pos hout]
    split_ifs
    · rfl
    · rfl
    · rfl
  · rw [if_neg hout, if_neg hout]
    have hpos : c.data rpi - 1 * n.dsCnt = c.data rpi - n.dsCnt := by rw [one_mul]
    rw [logged, List.map_singleton, hpos]
    split_ifs
    · rfl
    · rfl
    · rfl

/-- **What an operator reads**, the last element first: it goes back from a pointer by some rows. -/
theorem rpnOp_reads {prog : List RpnNode} (hn : prog[rpi]? = some n) (hop : n.op.GoesBack)
    (hcnt : n.op = .prevOther → n.dsCnt ≠ 0) (hstep : ∀ v ∈ prog, v.op = .variable → 0 < v.step) (c : RpnState) :
    (rpnOp env call prog rpi n c).state.reads =
      ((rowsBack call prog rpi n c).map fun p => (p.1, c.data p.1 - p.2 * (prog.getD p.1 n).dsCnt)).reverse ++ c.reads := by
  -- the rows of one pointer
  have hpointer (i : ℕ) (back : List ℤ) :
      ((back.map (i, ·)).map fun p : ℕ × ℤ => (p.1, c.data p.1 - p.2 * (prog.getD p.1 n).dsCnt)).reverse ++ c.reads
        = logged i (c.data i) (prog.getD i n).dsCnt back c.reads := by
    rw [List.map_map]
    rfl
  rcases hop with hop | hop | hop
  · have hself : prog.getD rpi n = n := by rw [List.getD_eq_getElem?_getD, hn, Option.getD_some]
    have hrow : (if call.outputIdx ≤ 0 then [] else [((rpi, 1) : ℕ × ℤ)])
        = (if call.outputIdx ≤ 0 then [] else [(1 : ℤ)]).map (rpi, ·) := by
      split_ifs
      · rfl
      · rfl
    have hrpn : rpnOp env call prog rpi n c = opVariable env call n rpi c := by
      rw [rpnOp]
      simp only [hop]
    rw [hrpn, opVariable_reads hop (hcnt hop), rowsBack, if_pos hop, hrow, hpointer, hself]
  · have hne : n.op ≠ .prevOther := by
      rcases hop with hop | hop
      · rw [hop]
        decide
      · rw [hop]
        decide
    have hrpn : rpnOp env call prog rpi n c = opTrend env call n.op (if rpi < 2 then none else prog[rpi - 2]?) rpi c := by
      rw [rpnOp]
      rcases hop with hop | hop
      · simp only [hop]
      · simp only [hop]
    have hmem : ∀ v ∈ (if rpi < 2 then none else prog[rpi - 2]?), v.op = .variable → 0 < v.step := by
      intro v hv
      split_ifs at hv
      · cases hv
      · exact hstep v (List.mem_of_getElem? hv)
    rw [hrpn, opTrend_reads hmem, rowsBack, if_neg hne, if_pos hop, hpointer]
    by_cases hfirst : rpi < 2
    · rw [if_pos hfirst]
      rfl
    · obtain ⟨hlt, -⟩ := List.getElem?_eq_some_iff.mp hn
      have hv : prog[rpi - 2]? = some prog[rpi - 2] := List.getElem?_eq_getElem (by omega)
      rw [if_neg hfirst, List.getD_eq_getElem?_getD, hv]
      rfl
  · have hne : n.op ≠ .prevOther ∧ ¬ (n.op = .trend ∨ n.op = .trendnan) := by
      rcases hop with hop | hop
      · rw [hop]
        decide
      · rw [hop]
        decide
    have hrpn : rpnOp env call prog rpi n c = opPredict env call n.op (prog.getD (rpi - 1) n) rpi c := by
      rw [rpnOp]
      rcases hop with hop | hop
      · simp only [hop]
      · simp only [hop]
    rw [hrpn, opPredict_reads, rowsBack, if_neg hne.1, if_neg hne.2, if_pos hop, hpointer]

/-! ## The data of the variables -/

/-- The element is in one of the rows of the variable. -/
def GraphDesc.HasElem (v : GraphDesc) (pos : ℤ) : Prop :=
  ∃ row : ℤ, 0 ≤ row ∧ row < (v.stop - v.start) / v.step ∧ pos = v.ds + row * v.dsCnt

/-- **Some rows in front of a time**: these are rows of the variable, if their times are times of it. -/
theorem hasElem_iff {v : GraphDesc} (hv : v.Regular) (t o : ℤ) :
    v.HasElem (v.ds + v.rowAt t * v.dsCnt - o * v.dsCnt) ↔ v.start + o * v.step ≤ t ∧ t < v.stop + o * v.step := by
  have hs : (0 : ℤ) < v.step := by exact_mod_cast hv.step
  have hcnt : (v.dsCnt : ℤ) ≠ 0 := by exact_mod_cast (Nat.ne_zero_of_lt hv.ds)
  obtain ⟨a, ha⟩ := hv.start
  obtain ⟨b, hb⟩ := hv.stop
  have hrow : v.rowAt t = t / v.step - a := by rw [GraphDesc.rowAt, ha, Int.mul_ediv_cancel_left a hs.ne']
  have hrows : (v.stop - v.start) / v.step = b - a := by rw [ha, hb, ← mul_sub, Int.mul_ediv_cancel_left _ hs.ne']
  have hlow : v.start + o * v.step ≤ t ↔ 0 ≤ v.rowAt t - o := by
    have hsum : v.start + o * v.step = (a + o) * v.step := by
      rw [ha]
      ring
    rw [hsum, ← Int.le_ediv_iff_mul_le hs, hrow]
    omega
  have hhigh : t < v.stop + o * v.step ↔ v.rowAt t - o < b - a := by
    have hsum : v.stop + o * v.step = (b + o) * v.step := by
      rw [hb]
      ring
    rw [hsum, ← Int.ediv_lt_iff_lt_mul hs, hrow]
    omega
  rw [GraphDesc.HasElem, hrows, hlow, hhigh]
  constructor
  · rintro ⟨row, h0, hlt, hpos⟩
    have heq : (v.rowAt t - o) * v.dsCnt = row * v.dsCnt := by
      rw [sub_mul]
      omega
    rw [mul_right_cancel₀ hcnt heq]
    exact ⟨h0, hlt⟩
  · rintro ⟨h0, hlt⟩
    refine ⟨v.rowAt t - o, h0, hlt, ?_⟩
    ring

namespace CdefJob

variable {job : CdefJob} {gdes : ℕ → GraphDesc}

/-- A read through the pointer of a node is inside: the node reads a variable, and the element is one of its rows. -/
def ReadInside (job : CdefJob) (gdes : ℕ → GraphDesc) (r : ℕ × ℤ) : Prop :=
  ∃ m, job.prog[r.1]? = some m ∧ m.op.IsVar ∧ (gdes m.ptr).HasElem r.2

/-- **An operator starts** in row `j`, at node `rpi`. -/
structure Starts (job : CdefJob) (j rpi : ℕ) (s : CdefRun) (n : RpnNode) (c : RpnState) : Prop where
  row : job.now j ≤ job.stop
  rows : job.rowsRun j = .ok s
  node : job.prog[rpi]? = some n
  state : ∃ c₀ c₁, rpnRun job.env (CdefJob.call (job.now j) s) job.prog rpi s.stack.state = .ok c₀ ∧
    c₀.grow job.env = .ok c₁ ∧ c = c₁.start

/-- **All that the operators read by going back is inside**, in every row. -/
def ReadsInside (job : CdefJob) (gdes : ℕ → GraphDesc) : Prop :=
  ∀ j rpi s n c, job.Starts j rpi s n c → n.op.GoesBack →
    ∃ more, (rpnOp job.env (CdefJob.call (job.now j) s) job.prog rpi n c).state.reads = more ++ c.reads ∧
      ∀ r ∈ more, job.ReadInside gdes r

/-- The time that a pointer stands for: the end of the row, once its node has been evaluated. -/
def pointerTime (job : CdefJob) (j rpi i : ℕ) : ℤ := if i = rpi then job.start + j * job.step else job.now j

/-- **The rows by which the operators go back** are rows of variables: the time of the pointer, so many steps of the
variable before, is from the start of the variable on and in front of its end. -/
def BackFits (job : CdefJob) (gdes : ℕ → GraphDesc) : Prop :=
  ∀ j rpi s n c, job.Starts j rpi s n c → n.op.GoesBack → ∀ p ∈ rowsBack (CdefJob.call (job.now j) s) job.prog rpi n c,
    ∃ m, job.prog[p.1]? = some m ∧ m.op.IsVar ∧
      (gdes m.ptr).start + p.2 * (gdes m.ptr).step ≤ job.pointerTime j rpi p.1 ∧
      job.pointerTime j rpi p.1 < (gdes m.ptr).stop + p.2 * (gdes m.ptr).step

/-- An operator uses its own pointer, or that of a node before it. -/
theorem rowsBack_le {call : RpnCall} {prog : List RpnNode} {rpi : ℕ} {n : RpnNode} {c : RpnState} {p : ℕ × ℤ}
    (hp : p ∈ rowsBack call prog rpi n c) : p.1 ≤ rpi := by
  have hmap {i : ℕ} (hi : i ≤ rpi) {back : List ℤ} (hp : p ∈ back.map (i, ·)) : p.1 ≤ rpi := by
    obtain ⟨o, -, rfl⟩ := List.mem_map.mp hp
    exact hi
  rw [rowsBack] at hp
  by_cases hprev : n.op = .prevOther
  · rw [if_pos hprev] at hp
    split_ifs at hp
    · exact absurd hp List.not_mem_nil
    · rw [List.mem_singleton.mp hp]
  rw [if_neg hprev] at hp
  by_cases htrend : n.op = .trend ∨ n.op = .trendnan
  · rw [if_pos htrend] at hp
    exact hmap (Nat.sub_le _ _) hp
  rw [if_neg htrend] at hp
  split_ifs at hp
  · exact hmap (Nat.sub_le _ _) hp
  · exact absurd hp List.not_mem_nil

/-- **The pointers of an operator**, in times. -/
theorem Starts.data {j rpi : ℕ} {s : CdefRun} {n : RpnNode} {c : RpnState} (h : job.Starts j rpi s n c)
    (hb : job.Bound gdes) {i : ℕ} (hi : i ≤ rpi) {m : RpnNode} (hm : job.prog[i]? = some m) (hop : m.op.IsVar) :
    c.data i = (gdes m.ptr).ds + (gdes m.ptr).rowAt (job.pointerTime j rpi i) * (gdes m.ptr).dsCnt := by
  obtain ⟨c₀, c₁, hrun, hgrow, rfl⟩ := h.state
  obtain ⟨size, rfl⟩ := grow_eq_ok hgrow
  obtain ⟨hlt, -⟩ := List.getElem?_eq_some_iff.mp h.node
  change c₀.data i = _
  rw [pointerTime]
  split_ifs with heq
  · subst heq
    exact data_at_node hb h.rows hrun hm hop
  · exact data_behind_node hb h.rows hlt.le hrun (lt_of_le_of_ne hi heq) hm hop

/-- **One operator.** -/
theorem Starts.reads_iff {j rpi : ℕ} {s : CdefRun} {n : RpnNode} {c : RpnState} (h : job.Starts j rpi s n c)
    (hb : job.Bound gdes) (hback : n.op.GoesBack) :
    (∃ more, (rpnOp job.env (CdefJob.call (job.now j) s) job.prog rpi n c).state.reads = more ++ c.reads ∧
        ∀ r ∈ more, job.ReadInside gdes r) ↔
      ∀ p ∈ rowsBack (CdefJob.call (job.now j) s) job.prog rpi n c,
        ∃ m, job.prog[p.1]? = some m ∧ m.op.IsVar ∧
          (gdes m.ptr).start + p.2 * (gdes m.ptr).step ≤ job.pointerTime j rpi p.1 ∧
          job.pointerTime j rpi p.1 < (gdes m.ptr).stop + p.2 * (gdes m.ptr).step := by
  have hcnt : n.op = .prevOther → n.dsCnt ≠ 0 := by
    intro hop
    obtain ⟨hv, -, hcnt, -⟩ := hb.node h.node (.inr hop)
    rw [hcnt]
    exact Nat.ne_zero_of_lt hv.ds
  have hstep : ∀ v ∈ job.prog, v.op = .variable → 0 < v.step := by
    intro v hv hop
    obtain ⟨i, hi⟩ := List.mem_iff_getElem?.mp hv
    obtain ⟨hv, -, -, hstep, -⟩ := hb.node hi (.inl hop)
    rw [hstep]
    exact hv.step
  have hreads := @rpnOp_reads job.env (CdefJob.call (job.now j) s) n rpi job.prog h.node hback hcnt hstep c
  have hmore (more : List (ℕ × ℤ)) :
      (rpnOp job.env (CdefJob.call (job.now j) s) job.prog rpi n c).state.reads = more ++ c.reads ↔
        ((rowsBack (CdefJob.call (job.now j) s) job.prog rpi n c).map fun p =>
          (p.1, c.data p.1 - p.2 * (job.prog.getD p.1 n).dsCnt)).reverse = more := by
    rw [hreads, List.append_left_inj]
  simp only [hmore, exists_eq_left', List.mem_reverse, List.forall_mem_map]
  refine forall₂_congr fun p hp => exists_congr fun m => ?_
  refine and_congr_right fun hm => and_congr_right fun hop => ?_
  obtain ⟨hv, -, hmcnt, -⟩ := hb.node hm hop
  have hself : job.prog.getD p.1 n = m := by rw [List.getD_eq_getElem?_getD, hm, Option.getD_some]
  dsimp only
  rw [h.data hb (rowsBack_le hp) hm hop, hself, hmcnt]
  exact hasElem_iff hv _ _

end CdefJob

variable {im : ImageDesc} {k : ℕ}

/-- The state at `TREND`, in the last row of `a,300,TREND`: the pointer of `a` is behind its two rows. -/
theorem trendGraph_starts : ∃ s n c, (cdefJob plainEnv (trendGraph fun _ => .num 1) 1).Starts 1 2 s n c ∧
    n.op = .trend ∧
    (0, 0) ∈ rowsBack (CdefJob.call ((cdefJob plainEnv (trendGraph fun _ => .num 1) 1).now 1) s)
      (cdefJob plainEnv (trendGraph fun _ => .num 1) 1).prog 2 n c := by
  set job := cdefJob plainEnv (trendGraph fun _ => .num 1) 1 with hjob
  set s := (job.rowsRun 1).state with hs
  set c₀ := (rpnRun job.env (CdefJob.call (job.now 1) s) job.prog 2 s.stack.state).state with hc₀
  set c₁ := (c₀.grow job.env).state with hc₁
  refine ⟨s, _, c₁.start, ⟨by decide +kernel, Outcome.eq_ok_state (by decide +kernel), rfl, c₀, c₁,
    Outcome.eq_ok_state (by decide +kernel), Outcome.eq_ok_state (by decide +kernel), rfl⟩, rfl, by decide +kernel⟩

/-- `DEF:a=..` from 300 to 900 in steps of 300, `CDEF:b=PREV(a)`. -/
def prevGraph : ImageDesc where
  gdes := fun i =>
    if i = 0 then twoRows else { blankDesc .cdef with rpnp := [⟨⟨.prevOther, .num 0, 0⟩, 0, 0, 0⟩] }
  gdesC := 2
  stack := ⟨fun _ => dnan, fun _ => false, 0, fun _ => 0⟩

theorem prevGraph_valid : prevGraph.ValidFrom 1 := by
  refine ⟨fun i hi hkind => ?_, fun i hi hkind => ?_, fun i hki hi hkind => ?_, fun i hki hi hkind => ?_⟩
  · obtain rfl | rfl : i = 0 ∨ i = 1 := Nat.le_one_iff_eq_zero_or_eq_one.mp (Nat.le_of_lt_succ hi)
    · exact twoRows_regular
    · rcases hkind with hkind | ⟨-, hlt⟩
      · cases hkind
      · exact absurd hlt (lt_irrefl 1)
  · obtain rfl : i = 0 := Nat.lt_one_iff.mp hi
    cases hkind
  · obtain rfl : i = 1 := le_antisymm (Nat.le_of_lt_succ hi) hki
    refine ⟨rfl, fun n hn hop => ?_⟩
    obtain rfl : n = ⟨⟨.prevOther, .num 0, 0⟩, 0, 0, 0⟩ := List.mem_singleton.mp hn
    exact ⟨Nat.one_pos, .inl rfl⟩
  · obtain rfl : i = 1 := le_antisymm (Nat.le_of_lt_succ hi) hki
    cases hkind

end Rrdtool
