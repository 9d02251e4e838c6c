import Rrdtool.Rpn.Safety

/-!
# What an evaluation does to the data pointers

Every node of `rpn_calc` has a data pointer, and only its own evaluation moves it: an `OP_VARIABLE` or
`OP_PREV_OTHER` goes on by one row when `data_idx` is a multiple of its step.

* `rpnOp_data` — one operator;
* `rpnRun_data` — the pointers before each node of a program.
-/

namespace Rrdtool

open Loop RpnState

variable {env : RpnEnv} {call : RpnCall} {prog : List RpnNode} {n : RpnNode} {rpi : ℕ} {c c' : RpnState}

/-- The node reads the data of a variable. -/
def Op.IsVar (op : Op) : Prop := op = .variable ∨ op = .prevOther

instance (op : Op) : Decidable op.IsVar := inferInstanceAs (Decidable (_ ∨ _))

/-- How far the evaluation of a node moves its data pointer. -/
def RpnNode.advance (n : RpnNode) (dataIdx : ℤ) : ℤ :=
  if n.op.IsVar ∧ dataIdx.tmod n.step = 0 then n.dsCnt else 0

theorem need_data {minsize : ℤ} {k : RpnState → CalcOutcome} (hk : (k c).state.data = c.data) :
    (c.need minsize k).state.data = c.data := by
  rw [RpnState.need]
  split_ifs
  · rfl
  · exact hk

theorem revLoop_data (fuel : ℕ) (p q : ℤ) (c : RpnState) : (revLoop fuel p q c).data = c.data := by
  induction fuel generalizing p q c with
  | zero => rfl
  | succ fuel ih =>
    rw [revLoop]
    split_ifs
    · exact ih ..
    · rfl

theorem avgPass_data (s : RpnState × RrdValue × ℕ) : (avgPass s).1.data = s.1.data := by
  rw [avgPass]
  split_ifs
  · rfl
  · rfl

theorem opSort_data (c : RpnState) : (opSort c).state.data = c.data := need_data (need_data rfl)

theorem opRev_data (c : RpnState) : (opRev c).state.data = c.data :=
  need_data (need_data (revLoop_data _ _ _ ((c.load c.stptr).move (-1))))

theorem opAvg_data (c : RpnState) : (opAvg c).state.data = c.data := by
  refine need_data (need_data ?_)
  exact forLoop_invariant (fun _ (s : RpnState × RrdValue × ℕ) => s.1.data = c.data) rfl
    fun _ s _ hs => (avgPass_data s).trans hs

theorem opTrend_data (c : RpnState) (op : Op) (v : Option RpnNode) (rpi : ℕ) :
    (opTrend env call op v rpi c).state.data = c.data := by
  refine need_data ?_
  cases v with
  | none => rfl
  | some v =>
    by_cases hvar : v.op ≠ .variable
    · simp only [if_pos hvar, Outcome.state_fail]
    simp only [if_neg hvar]
    by_cases hrows : ceilQuot (cLong (c.cells c.stptr)) v.step ≤ call.outputIdx + 1
    · rw [if_pos hrows]
      exact ((trendPass_same env v (rpi - 2) _ (c.load c.stptr, ⟨.num 0, 0, 0⟩)).trans
        (trendLoop_same env v (rpi - 2) _ _ _)).data
    · rw [if_neg hrows]
      rfl

theorem predictShifts_data (c : RpnState) (op : Op) (v : RpnNode) (rpi : ℕ) (locstepsize shifts : ℤ) :
    (predictShifts env call op v rpi locstepsize shifts c).state.data = c.data := by
  have hloop (k : ℕ) : (forLoopE k
      (predictShift env call v (rpi - 1) (ceilQuot locstepsize v.step) (decide (shifts < 0)))
      (shiftStart shifts c, ⟨.num 0, .num 0, 0⟩)).state.1.data = c.data := by
    refine forLoopE_state (fun s : RpnState × PredictAcc => s.1.data = c.data) ?_ ?_
    · rw [shiftStart]
      split_ifs
      · rfl
      · rfl
    · exact fun loop s _ hs => (predictShift_same env call v (rpi - 1) _ _ loop s).data.trans hs
  have h := hloop (if shifts < 0 then wrapInt (-shifts) else shifts).toNat
  rw [shiftStart] at h
  rw [predictShifts]
  cases hrun : forLoopE (if shifts < 0 then wrapInt (-shifts) else shifts).toNat
      (predictShift env call v (rpi - 1) (ceilQuot locstepsize v.step) (decide (shifts < 0)))
      (if shifts < 0 then c.move (-1) else c.move (-shifts), ⟨.num 0, .num 0, 0⟩) with
  | fail e s =>
    rw [hrun] at h
    exact h
  | ok s =>
    rw [hrun] at h
    exact h

/-- Operators other than the variables leave all pointers alone. -/
theorem rpnOp_data_of_not_isVar (hop : ¬ n.op.IsVar) (c : RpnState) :
    (rpnOp env call prog rpi n c).state.data = c.data := by
  rw [rpnOp]
  cases h : n.op with
  | number | count | prev | unkn | inf | neginf | now | time | ltime => rfl
  | «variable» => exact absurd (.inl h) hop
  | prevOther => exact absurd (.inr h) hop
  | add | addnan | sub | mul | div | mod | atan2 | lt | le | gt | ge | ne | eq | min | max => exact need_data rfl
  | sin | atan | rad2deg | deg2rad | cos | ceil | floor | log | exp | un | isinf | sqrt | abs =>
    exact need_data rfl
  | cond | limit => exact need_data rfl
  | dup | pop | exc => exact need_data rfl
  | sort => exact opSort_data c
  | rev => exact opRev_data c
  | predict | predictsigma => exact need_data (need_data (predictShifts_data _ _ _ _ _ _))
  | trend | trendnan => exact opTrend_data c _ _ _
  | avg => exact opAvg_data c

/-- A variable moves its own pointer. -/
theorem opVariable_data (hop : n.op.IsVar) (h : opVariable env call n rpi c = .ok c') :
    c'.data = Function.update c.data rpi (c.data rpi + n.advance call.dataIdx) := by
  rw [opVariable] at h
  by_cases hcnt : n.dsCnt = 0
  · rw [if_pos hcnt] at h
    exact absurd h (by simp)
  rw [if_neg hcnt] at h
  dsimp only at h
  generalize hpushed : (if n.op = .variable then (c.readData rpi (c.data rpi)).push (env.mem n.arr (c.data rpi))
    else if call.outputIdx ≤ 0 then c.push dnan
    else (c.readData rpi (c.data rpi - n.dsCnt)).push (env.mem n.arr (c.data rpi - n.dsCnt))) = c₁ at h
  have hdata : c₁.data = c.data := by
    rw [← hpushed]
    split_ifs
    · rfl
    · rfl
    · rfl
  rw [RpnNode.advance]
  by_cases hstep : n.step = 0
  · rw [if_pos hstep] at h
    exact absurd h (by simp)
  rw [if_neg hstep] at h
  split_ifs at h with hmul
  · obtain rfl := Outcome.ok.inj h
    rw [if_pos ⟨hop, hmul⟩, hdata]
  · obtain rfl := Outcome.ok.inj h
    rw [if_neg fun hboth => hmul hboth.2, add_zero, Function.update_eq_self]
    exact hdata

/-- **One operator** moves the pointer of its node, if it is a variable, and no other. -/
theorem rpnOp_data (h : rpnOp env call prog rpi n c = .ok c') :
    c'.data = Function.update c.data rpi (c.data rpi + n.advance call.dataIdx) := by
  by_cases hop : n.op.IsVar
  · have hvar : rpnOp env call prog rpi n c = opVariable env call n rpi c := by
      rw [rpnOp]
      rcases hop with hop | hop
      · rw [hop]
      · rw [hop]
    exact opVariable_data hop (hvar ▸ h)
  · have hdata := @rpnOp_data_of_not_isVar env call prog n rpi hop c
    rw [h, Outcome.state_ok] at hdata
    rw [hdata, RpnNode.advance, if_neg fun hboth => hop hboth.1, add_zero, Function.update_eq_self]

/-- The stack grows, and nothing else does. -/
theorem grow_eq_ok (h : c.grow env = .ok c') : ∃ size, c' = { c with size := size } := by
  rw [RpnState.grow] at h
  dsimp only at h
  split_ifs at h
  · obtain rfl := Outcome.ok.inj h
    exact ⟨_, rfl⟩
  · obtain rfl := Outcome.ok.inj h
    exact ⟨c.size, rfl⟩

/-- One pass is the operator on a stack that has grown. -/
theorem rpnPass_eq_ok (hn : prog[rpi]? = some n) (h : rpnPass env call prog rpi c = .ok c') :
    ∃ size, rpnOp env call prog rpi n { c with size := size, top := c.stptr } = .ok c' := by
  rw [rpnPass, hn] at h
  obtain ⟨c₁, hgrow, hop⟩ := Outcome.andThen_eq_ok.mp h
  obtain ⟨size, rfl⟩ := grow_eq_ok hgrow
  exact ⟨size, hop⟩

theorem rpnPass_data (hn : prog[rpi]? = some n) (h : rpnPass env call prog rpi c = .ok c') :
    c'.data = Function.update c.data rpi (c.data rpi + n.advance call.dataIdx) := by
  obtain ⟨size, hop⟩ := rpnPass_eq_ok hn h
  have hdata := rpnOp_data hop
  exact hdata

/-- **The pointers in a run**: those of the nodes that have been evaluated have moved on. -/
theorem rpnRun_data {k : ℕ} (hk : k ≤ prog.length) (h : rpnRun env call prog k c = .ok c') {i : ℕ} {n : RpnNode}
    (hn : prog[i]? = some n) : c'.data i = c.data i + if i < k then n.advance call.dataIdx else 0 := by
  induction k generalizing c' with
  | zero =>
    obtain rfl := Outcome.ok.inj h
    rw [if_neg (Nat.not_lt_zero i), add_zero]
  | succ k ih =>
    rw [rpnRun_succ] at h
    obtain ⟨c₁, hrun, hpass⟩ := Outcome.andThen_eq_ok.mp h
    have hlt : k < prog.length := hk
    rw [rpnPass_data (List.getElem?_eq_getElem hlt) hpass]
    by_cases hik : i = k
    · subst hik
      obtain rfl : prog[i] = n := by
        rw [List.getElem?_eq_getElem hlt] at hn
        exact Option.some.inj hn
      rw [Function.update_self, ih hlt.le hrun, if_neg (lt_irrefl i), if_pos (Nat.lt_succ_self i), add_zero]
    · have hiff : i < k + 1 ↔ i < k := by omega
      rw [Function.update_of_ne hik, ih hlt.le hrun]
      simp only [hiff]

end Rrdtool
