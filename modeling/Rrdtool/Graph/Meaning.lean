import Rrdtool.Graph.Reads
import Rrdtool.Rpn.Expression
import Rrdtool.Rpn.Refine

/-!
# What a `CDEF` means

Every row of a `CDEF` is the value of one expression, in which a variable stands for its value in the row that
the time is in. Nothing of how `rpn_calc` gets there is left: no stack, no data pointers, and no state from
earlier rows but for the output that `PREV` names.

* `cellMeaning` — what a node stands for, in a row;
* `pass_meaning` — one node;
* `cdef_expression` — all rows of a `CDEF`.
-/

namespace Rrdtool

open Loop Polish RpnState

/-! ## The meaning of a node -/

/-- A node and its place in the program, where `TREND` looks for the node two before it. -/
abbrev PlacedNode : Type := RpnNode × ℕ

/-- The operator of a node. -/
abbrev PlacedNode.op (p : PlacedNode) : Op := p.1.op

/-- The mean over the window of a `TREND`. It begins with the row behind the one that the time is in. -/
def trendMeaning (job : CdefJob) (gdes : ℕ → GraphDesc) (j : ℕ) (op : Op) (w : Option RpnNode) (dur : ℤ) : RrdValue :=
  match w with
  | none => dnan
  | some w =>
    let v := gdes w.ptr
    if ceilQuot dur v.step ≤ j + 1 then trendMean op (v.window (v.rowAt (job.now j)) (trendPasses dur v.step)) else dnan

/-- **What a node stands for** in row `j`, where the rows before it are `output`. -/
def cellMeaning (job : CdefJob) (gdes : ℕ → GraphDesc) (output : ℕ → RrdValue) (j : ℕ) (p : PlacedNode)
    (args : Fin p.op.operands → RrdValue) : RrdValue :=
  let v := gdes p.1.ptr
  match p.op, List.ofFn args with
  | .number, _ => p.1.val
  | .variable, _ => v.rowValue (v.rowAt (job.start + j * job.step))
  | .prevOther, _ => if j = 0 then dnan else v.rowValue (v.rowAt (job.start + j * job.step) - 1)
  | .count, _ => Dbl.ofNat (j + 1)
  | .prev, _ => if j = 0 then dnan else output (j - 1)
  | .unkn, _ => dnan
  | .inf, _ => .inf
  | .neginf, _ => .neginf
  | .now, _ => job.env.libm.now
  | .time, _ => .num (job.now j : ℤ)
  | .ltime, _ => .num (job.env.tzoffset (job.now j) : ℤ) + .num (job.now j : ℤ)
  | .trend, [_, dur] => trendMeaning job gdes j .trend job.prog[p.2 - 2]? (cLong dur)
  | .trendnan, [_, dur] => trendMeaning job gdes j .trendnan job.prog[p.2 - 2]? (cLong dur)
  | op, args => op.value job.env.libm args

variable {env : RpnEnv} {call : RpnCall} {n : RpnNode} {rpi : ℕ} {c c' : RpnState} {s : List RrdValue}

/-! ## Operators -/

/-- A variable leaves what its pointer points to, or the row before it. -/
theorem opVariable_shows (h : Shows c s) (hok : opVariable env call n rpi c = .ok c') :
    Shows c' ((if n.op = .variable then env.mem n.arr (c.data rpi)
      else if call.outputIdx ≤ 0 then dnan else env.mem n.arr (c.data rpi - n.dsCnt)) :: s) := by
  rw [opVariable] at hok
  by_cases hcnt : n.dsCnt = 0
  · rw [if_pos hcnt] at hok
    exact absurd hok (by simp)
  rw [if_neg hcnt] at hok
  dsimp only at hok
  by_cases hstep : n.step = 0
  · rw [if_pos hstep] at hok
    exact absurd hok (by simp)
  rw [if_neg hstep] at hok
  have hpushed : Shows (if n.op = .variable then (c.readData rpi (c.data rpi)).push (env.mem n.arr (c.data rpi))
      else if call.outputIdx ≤ 0 then c.push dnan
      else (c.readData rpi (c.data rpi - n.dsCnt)).push (env.mem n.arr (c.data rpi - n.dsCnt)))
      ((if n.op = .variable then env.mem n.arr (c.data rpi)
        else if call.outputIdx ≤ 0 then dnan else env.mem n.arr (c.data rpi - n.dsCnt)) :: s) := by
    have hread (pos : ℤ) : Shows (c.readData rpi pos) s := h.of_agree rfl fun _ _ => rfl
    split_ifs
    · exact (hread _).push _
    · exact h.push _
    · exact (hread _).push _
  generalize (if n.op = .variable then (c.readData rpi (c.data rpi)).push (env.mem n.arr (c.data rpi))
      else if call.outputIdx ≤ 0 then c.push dnan
      else (c.readData rpi (c.data rpi - n.dsCnt)).push (env.mem n.arr (c.data rpi - n.dsCnt))) = c₁ at hok hpushed
  split_ifs at hok
  · obtain rfl := Outcome.ok.inj hok
    exact hpushed.of_agree rfl fun _ _ => rfl
  · obtain rfl := Outcome.ok.inj hok
    exact hpushed

/-- A window leaves the mean of what it reads. -/
theorem opTrend_shows {op : Op} {w : Option RpnNode} (hstep : ∀ v ∈ w, v.op = .variable → 0 < v.step)
    (h : Shows c s) (hok : opTrend env call op w rpi c = .ok c') :
    ∃ v dur first t, w = some v ∧ v.op = .variable ∧ s = dur :: first :: t ∧
      Shows c' ((if ceilQuot (cLong dur) v.step ≤ call.outputIdx + 1 then
        trendMean op (trendReads env v (c.data (rpi - 2)) (trendPasses (cLong dur) v.step)) else dnan) :: t) := by
  have hdepth := h.depth
  rw [opTrend] at hok
  by_cases hshort : c.stptr < 1
  · rw [RpnState.need, if_pos hshort] at hok
    exact absurd hok (by simp)
  rw [need_of_le (not_lt.mp hshort)] at hok
  rcases w with _ | v
  · exact absurd hok (by simp)
  dsimp only at hok
  by_cases hvar : v.op ≠ .variable
  · rw [if_pos hvar] at hok
    exact absurd hok (by simp)
  rw [if_neg hvar] at hok
  have hstep := hstep v rfl (not_not.mp hvar)
  rcases s with _ | ⟨dur, _ | ⟨first, t⟩⟩
  · simp at hdepth
    omega
  · simp at hdepth
    omega
  rw [h.top] at hok
  refine ⟨v, dur, first, t, rfl, not_not.mp hvar, rfl, ?_⟩
  have hreplace {c₁ : RpnState} {val : RrdValue} (hstptr : c₁.stptr = c.stptr) (hcells : c₁.cells = c.cells) :
      Shows ((c₁.move (-1)).store (c.stptr - 1) val) (val :: t) := by
    have htop : c₁.stptr + -1 = c.stptr - 1 := by rw [hstptr]; rfl
    refine h.replace (n := 2) (by simp) ?_ ?_ fun i hi => ?_
    · change c₁.stptr + -1 = _
      rw [htop]
      push_cast
      ring
    · change Function.update c₁.cells (c.stptr - 1) val (c₁.stptr + -1) = val
      rw [htop, Function.update_self]
    · change i < c₁.stptr + -1 at hi
      change Function.update c₁.cells (c.stptr - 1) val i = c.cells i
      rw [Function.update_of_ne (by omega), hcells]
  by_cases hrows : ceilQuot (cLong dur) v.step ≤ call.outputIdx + 1
  · rw [if_pos hrows] at hok ⊢
    rw [trendLoop_eq hstep, ← Function.iterate_succ_apply, Nat.succ_eq_add_one, ← trendPasses] at hok
    obtain ⟨hacc, hsame⟩ := @trendPasses_eq env v (rpi - 2) (decide (op = .trend)) (c.load c.stptr)
      (trendPasses (cLong dur) v.step)
    have hmean : (if (counted (decide (op = .trend)) (trendReads env v ((c.load c.stptr).data (rpi - 2))
          (trendPasses (cLong dur) v.step))).length = 0 then dnan
        else Dbl.sum (counted (decide (op = .trend)) (trendReads env v ((c.load c.stptr).data (rpi - 2))
          (trendPasses (cLong dur) v.step))) / Dbl.ofNat (counted (decide (op = .trend))
            (trendReads env v ((c.load c.stptr).data (rpi - 2)) (trendPasses (cLong dur) v.step))).length) =
        trendMean op (trendReads env v (c.data (rpi - 2)) (trendPasses (cLong dur) v.step)) := by
      rw [← mean_counted, Dbl.mean]
      simp only [List.length_eq_zero_iff]
      rfl
    rw [hacc] at hok
    obtain rfl := Outcome.ok.inj hok
    rw [← hmean]
    exact hreplace hsame.stptr hsame.cells
  · rw [if_neg hrows] at hok ⊢
    obtain rfl := Outcome.ok.inj hok
    exact hreplace rfl rfl

/-- An operator that neither counts nor looks at a variable. -/
theorem isPlain_of {op : Op} (hfixed : op.fixedArity = true) (hvar : ¬ op.IsVar)
    (htrend : ¬ (op = .trend ∨ op = .trendnan)) : op.isPlain = true ∧ op.looksBack = false := by
  cases op with
  | «variable» => exact absurd (.inl rfl) hvar
  | prevOther => exact absurd (.inr rfl) hvar
  | trend => exact absurd (.inl rfl) htrend
  | trendnan => exact absurd (.inr rfl) htrend
  | sort | rev | avg | predict | predictsigma => exact (Bool.false_ne_true hfixed).elim
  | _ => exact ⟨rfl, rfl⟩

/-- What an outcome that returned refines. -/
theorem Refines.of_ok {o : Except RpnError (List RrdValue)} (h : Refines (.ok c) o) : ∃ t, o = .ok t ∧ Shows c t := by
  cases h with
  | ok h => exact ⟨_, rfl, h⟩

namespace CdefJob

variable {job : CdefJob} {gdes : ℕ → GraphDesc} {j i : ℕ} {r : CdefRun}

/-- The nodes, with their places. -/
abbrev placed (job : CdefJob) : List PlacedNode := job.prog.zipIdx

/-- What an operator of a fixed number of operands makes of them. -/
theorem step_of_plain {t : List RrdValue} (hoperands : n.op.operands ≠ 0) (hplain : n.op.isPlain = true)
    (h : rpnStep job.env.libm r.output j n.toRpnp s = .ok t) :
    Polish.step (cellMeaning job gdes r.output j) (instrOf PlacedNode.op (n, rpi)) s = some t := by
  rw [rpnStep_eq_ok_iff hplain] at h
  obtain ⟨⟨op, val, ptr⟩, arr, dsCnt, step⟩ := n
  cases op with
  | number | count | prev | unkn | inf | neginf | now | time | ltime => exact absurd rfl hoperands
  | sin | cos | log | exp | sqrt | atan | rad2deg | deg2rad | floor | ceil | abs | un | isinf => exact h
  | add | addnan | sub | mul | div | mod | atan2 | lt | le | gt | ge | ne | eq | min | max => exact h
  | cond | limit => exact h
  | dup | pop =>
    cases s with
    | nil => exact h
    | cons a s => exact h
  | exc =>
    rcases s with _ | ⟨b, _ | ⟨a, s⟩⟩
    · exact h
    · exact h
    · exact h
  | «variable» | prevOther | trend | trendnan => exact (Bool.false_ne_true hplain).elim
  | sort | rev | avg | predict | predictsigma => exact (Bool.false_ne_true hplain).elim

/-- A variable stands for its value in a row. -/
theorem variable_meaning (hb : job.Bound gdes) (hr : job.rowsRun j = .ok r) (hn : job.prog[i]? = some n)
    (hvar : n.op.IsVar)
    (hrun : rpnRun job.env (CdefJob.call (job.now j) r) job.prog i r.stack.state = .ok c) {c₁ : RpnState}
    (hdata : c₁.data = c.data) (hop : rpnOp job.env (CdefJob.call (job.now j) r) job.prog i n c₁ = .ok c')
    (h : Shows c₁ s) :
    ∃ t, Polish.step (cellMeaning job gdes r.output j) (instrOf PlacedNode.op (n, i)) s = some t ∧ Shows c' t := by
  have hidx : (CdefJob.call (job.now j) r).outputIdx = j := congrArg Nat.cast (rowsRun_data hb hr).1
  have hpos := data_at_node hb hr hrun hn hvar
  obtain ⟨-, harr, hcnt, -⟩ := hb.node hn hvar
  have hopVar : rpnOp job.env (CdefJob.call (job.now j) r) job.prog i n c₁ =
      opVariable job.env (CdefJob.call (job.now j) r) n i c₁ := by
    rw [rpnOp]
    rcases hvar with hvar | hvar
    · simp only [hvar]
    · simp only [hvar]
  have hshows := opVariable_shows h (hopVar ▸ hop)
  rw [hdata, hpos, hb.mem, hb.mem, harr, hcnt, hidx] at hshows
  obtain ⟨⟨op, val, ptr⟩, arr, dsCnt, step⟩ := n
  rcases hvar with hvar | hvar
  · dsimp only at hvar
    subst hvar
    exact ⟨_, rfl, hshows⟩
  · dsimp only at hvar
    subst hvar
    refine ⟨_, rfl, ?_⟩
    have hvalue : (if (j : ℤ) ≤ 0 then dnan else (gdes ptr).data ((gdes ptr).ds +
          (gdes ptr).rowAt (job.start + j * job.step) * (gdes ptr).dsCnt - (gdes ptr).dsCnt)) =
        if j = 0 then dnan else (gdes ptr).rowValue ((gdes ptr).rowAt (job.start + j * job.step) - 1) := by
      have hrow : (gdes ptr).ds + (gdes ptr).rowAt (job.start + j * job.step) * (gdes ptr).dsCnt - (gdes ptr).dsCnt =
          (gdes ptr).ds + ((gdes ptr).rowAt (job.start + j * job.step) - 1) * (gdes ptr).dsCnt := by ring
      rw [GraphDesc.rowValue, hrow]
      simp
    rw [if_neg (by simp)] at hshows
    dsimp only at hshows
    rw [hvalue] at hshows
    exact hshows

/-- A window stands for the mean of what it reads. -/
theorem trend_meaning (hb : job.Bound gdes) (hr : job.rowsRun j = .ok r) (hn : job.prog[i]? = some n)
    (htrend : n.op = .trend ∨ n.op = .trendnan)
    (hrun : rpnRun job.env (CdefJob.call (job.now j) r) job.prog i r.stack.state = .ok c) {c₁ : RpnState}
    (hdata : c₁.data = c.data) (hop : rpnOp job.env (CdefJob.call (job.now j) r) job.prog i n c₁ = .ok c')
    (h : Shows c₁ s) :
    ∃ t, Polish.step (cellMeaning job gdes r.output j) (instrOf PlacedNode.op (n, i)) s = some t ∧ Shows c' t := by
  have hidx : (CdefJob.call (job.now j) r).outputIdx = j := congrArg Nat.cast (rowsRun_data hb hr).1
  obtain ⟨hlt, -⟩ := List.getElem?_eq_some_iff.mp hn
  have hopTrend : rpnOp job.env (CdefJob.call (job.now j) r) job.prog i n c₁ =
      opTrend job.env (CdefJob.call (job.now j) r) n.op (if i < 2 then none else job.prog[i - 2]?) i c₁ := by
    rw [rpnOp]
    rcases htrend with htrend | htrend
    · simp only [htrend]
    · simp only [htrend]
  have hsteps : ∀ v ∈ (if i < 2 then none else job.prog[i - 2]?), v.op = .variable → 0 < v.step := by
    intro v hv hvar
    split_ifs at hv
    · cases hv
    · obtain ⟨hregular, -, -, hstep, -⟩ := hb.node hv (.inl hvar)
      exact hstep ▸ hregular.step
  obtain ⟨v, dur, first, t, hv, hvar, rfl, hshows⟩ := opTrend_shows hsteps h (hopTrend ▸ hop)
  by_cases hi : i < 2
  · rw [if_pos hi] at hv
    cases hv
  rw [if_neg hi] at hv
  obtain ⟨-, harr, hcnt, hstep, -⟩ := hb.node hv (.inl hvar)
  -- the variable has been evaluated
  have hpos := data_behind_node hb hr hlt.le hrun (show i - 2 < i by omega) hv (.inl hvar)
  have hreads (m : ℕ) : trendReads job.env v (c₁.data (i - 2)) m = (gdes v.ptr).window ((gdes v.ptr).rowAt (job.now j)) m := by
    rw [trendReads, GraphDesc.window]
    refine List.map_congr_left fun k _ => ?_
    rw [hb.mem, harr, hcnt, hdata, hpos, GraphDesc.rowValue]
    congr 1
    ring
  rw [hreads, hidx, hstep] at hshows
  obtain ⟨⟨op, val, ptr⟩, arr, dsCnt, step⟩ := n
  rcases htrend with htrend | htrend
  · dsimp only at htrend
    subst htrend
    refine ⟨_, rfl, ?_⟩
    change Shows c' (trendMeaning job gdes j .trend job.prog[i - 2]? (cLong dur) :: t)
    rw [hv]
    exact hshows
  · dsimp only at htrend
    subst htrend
    refine ⟨_, rfl, ?_⟩
    change Shows c' (trendMeaning job gdes j .trendnan job.prog[i - 2]? (cLong dur) :: t)
    rw [hv]
    exact hshows

/-- A node without operands stands for one value. -/
theorem leaf_meaning (hb : job.Bound gdes) (hr : job.rowsRun j = .ok r) (hn : job.prog[i]? = some n)
    (hoperands : n.op.operands = 0) (hvar : ¬ n.op.IsVar)
    (hop : rpnOp job.env (CdefJob.call (job.now j) r) job.prog i n c = .ok c') (h : Shows c s) :
    ∃ t, Polish.step (cellMeaning job gdes r.output j) (instrOf PlacedNode.op (n, i)) s = some t ∧ Shows c' t := by
  have hidx : (CdefJob.call (job.now j) r).outputIdx = j := congrArg Nat.cast (rowsRun_data hb hr).1
  obtain ⟨⟨op, val, ptr⟩, arr, dsCnt, step⟩ := n
  cases op with
  | number | unkn | inf | neginf | now | time | ltime =>
    obtain rfl := Outcome.ok.inj hop
    exact ⟨_, rfl, h.push _⟩
  | count =>
    obtain rfl := Outcome.ok.inj hop
    refine ⟨_, rfl, ?_⟩
    rw [hidx]
    exact h.push _
  | prev =>
    obtain rfl := Outcome.ok.inj hop
    refine ⟨_, rfl, ?_⟩
    have hvalue : (if (CdefJob.call (job.now j) r).outputIdx ≤ 0 then dnan
          else (CdefJob.call (job.now j) r).output ((CdefJob.call (job.now j) r).outputIdx - 1).toNat) =
        if j = 0 then dnan else r.output (j - 1) := by
      rw [hidx, show ((j : ℤ) - 1).toNat = j - 1 by omega]
      simp [CdefJob.call]
    rw [hvalue]
    exact h.push _
  | «variable» => exact absurd (.inl rfl) hvar
  | prevOther => exact absurd (.inr rfl) hvar
  | _ => exact absurd hoperands (Nat.succ_ne_zero _)

/-- **One node** leaves what it stands for. -/
theorem pass_meaning (hb : job.Bound gdes) (hr : job.rowsRun j = .ok r) (hn : job.prog[i]? = some n)
    (hfixed : n.op.fixedArity = true)
    (hrun : rpnRun job.env (CdefJob.call (job.now j) r) job.prog i r.stack.state = .ok c)
    (hpass : rpnPass job.env (CdefJob.call (job.now j) r) job.prog i c = .ok c') (h : Shows c s) :
    ∃ t, Polish.step (cellMeaning job gdes r.output j) (instrOf PlacedNode.op (n, i)) s = some t ∧ Shows c' t := by
  obtain ⟨hlt, -⟩ := List.getElem?_eq_some_iff.mp hn
  obtain ⟨size, hop⟩ := rpnPass_eq_ok hn hpass
  obtain ⟨hidx, -⟩ := rowsRun_data hb hr
  have hstart : Shows { c with size := size, top := c.stptr } s := h.of_agree rfl fun _ _ => rfl
  have hdata : ({ c with size := size, top := c.stptr } : RpnState).data = c.data := rfl
  generalize ({ c with size := size, top := c.stptr } : RpnState) = c₁ at hop hstart hdata
  by_cases hvar : n.op.IsVar
  · exact variable_meaning hb hr hn hvar hrun hdata hop hstart
  by_cases htrend : n.op = .trend ∨ n.op = .trendnan
  · exact trend_meaning hb hr hn htrend hrun hdata hop hstart
  by_cases hoperands : n.op.operands = 0
  · exact leaf_meaning hb hr hn hoperands hvar hop hstart
  · obtain ⟨hplain, hback⟩ := isPlain_of hfixed hvar htrend
    have href : Refines (.ok c') (rpnStep job.env.libm r.output j n.toRpnp s) := hop ▸ refines_plain hoperands hfixed hback hstart
    obtain ⟨t, ht, hshows⟩ := href.of_ok
    exact ⟨t, step_of_plain hoperands hplain ht, hshows⟩

/-- **The first nodes** leave what they stand for. -/
theorem run_meaning (hb : job.Bound gdes) (hr : job.rowsRun j = .ok r)
    (hfixed : ∀ n ∈ job.prog, n.op.fixedArity = true) (hle : i ≤ job.prog.length)
    (hrun : rpnRun job.env (CdefJob.call (job.now j) r) job.prog i r.stack.state = .ok c) :
    ∃ t, Polish.run (cellMeaning job gdes r.output j) ((job.placed.take i).map (instrOf PlacedNode.op)) [] = some t ∧
      Shows c t := by
  induction i generalizing c with
  | zero =>
    obtain rfl := Outcome.ok.inj hrun
    exact ⟨[], rfl, rfl, fun k hk => absurd hk (Nat.not_lt_zero k)⟩
  | succ i ih =>
    rw [rpnRun_succ] at hrun
    obtain ⟨c₀, hrun₀, hpass⟩ := Outcome.andThen_eq_ok.mp hrun
    obtain ⟨s, hs, hshows⟩ := ih (by omega) hrun₀
    have hn : job.prog[i]? = some job.prog[i] := List.getElem?_eq_getElem hle
    have hplaced : job.placed[i]? = some (job.prog[i], i) := by
      rw [List.getElem?_zipIdx, hn]
      simp
    obtain ⟨t, ht, hshows'⟩ :=
      pass_meaning hb hr hn (hfixed _ (List.getElem_mem hle)) hrun₀ hpass hshows
    refine ⟨t, ?_, hshows'⟩
    rw [List.take_add_one, hplaced, Option.toList_some, List.map_append, List.map_singleton, run_concat, hs]
    exact ht

/-- Rows that have been calculated stay as they are. -/
theorem rowsRun_output_eq (hb : job.Bound gdes) {m : ℕ} {s : CdefRun} (h : job.rowsRun m = .ok s)
    (hr : job.rowsRun j = .ok r) (hj : j ≤ m) {i : ℕ} (hi : i < j) : r.output i = s.output i := by
  obtain ⟨t, c, ht, hrun, -, hout⟩ := rowsRun_output hb hr hi
  obtain ⟨t', c', ht', hrun', -, hout'⟩ := rowsRun_output hb h (hi.trans_le hj)
  obtain rfl := Outcome.ok.inj (ht.symm.trans ht')
  obtain rfl := Outcome.ok.inj (hrun.symm.trans hrun')
  rw [hout, hout']

/-- The meaning of a row depends on the rows before it only. -/
theorem cellMeaning_congr {output output' : ℕ → RrdValue} (h : ∀ i < j, output i = output' i) (p : PlacedNode) :
    cellMeaning job gdes output j p = cellMeaning job gdes output' j p := by
  funext args
  obtain ⟨⟨⟨op, val, ptr⟩, arr, dsCnt, step⟩, i⟩ := p
  cases op with
  | prev =>
    change (if j = 0 then dnan else output (j - 1)) = if j = 0 then dnan else output' (j - 1)
    split_ifs with hj
    · rfl
    · exact h _ (Nat.sub_one_lt hj)
  | _ => rfl

/-- **The rows of a run** have the values of one expression. -/
theorem rowsRun_meaning (hb : job.Bound gdes) (hfixed : ∀ n ∈ job.prog, n.op.fixedArity = true) {m : ℕ}
    {s : CdefRun} (h : job.rowsRun m = .ok s) (hj : j < m) :
    ∃ t, symbolic PlacedNode.op job.placed = some [t] ∧ s.output j = t.eval (cellMeaning job gdes s.output j) := by
  obtain ⟨r, c, hr, hrun, hstptr, hout⟩ := rowsRun_output hb h hj
  obtain ⟨l, hl, hshows⟩ := run_meaning hb hr hfixed le_rfl hrun
  rw [List.take_of_length_le (by simp)] at hl
  have hagree : cellMeaning job gdes r.output j = cellMeaning job gdes s.output j :=
    funext (cellMeaning_congr fun i hi => rowsRun_output_eq hb h hr hj.le hi)
  rw [hagree, run_symbolic] at hl
  obtain ⟨ts, hts, rfl⟩ := Option.map_eq_some_iff.mp hl
  rcases hshows.finish with ⟨v, hv, -, hcell⟩ | ⟨-, hne⟩
  · obtain ⟨t, rfl, ht⟩ := List.map_eq_singleton_iff.mp hv
    exact ⟨t, hts, by rw [hout, hcell, ht]⟩
  · exact absurd hstptr hne

end CdefJob

variable {env : GraphEnv} {im im' : ImageDesc} {k : ℕ}

end Rrdtool
