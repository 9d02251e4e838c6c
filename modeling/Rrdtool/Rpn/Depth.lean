import Rrdtool.Rpn.Safety

/-!
# The depth of the RPN stack

Without the operators that take a count from the stack, the depth of the stack is known before the
program runs: every operator takes a fixed number of operands, and leaves a fixed number of results.

* `Op.operands`, `Op.results` — the table;
* `depthRun` — a program on depths alone;
* `rpnRun_depth` — the calculator follows it, whatever the data;
* `evaluations_agree` — so two evaluations of one program succeed together, or fail together.
-/

namespace Rrdtool

open Loop RpnState

/-! ## The table -/

/-- Does the operator take a fixed number of operands? -/
def Op.fixedArity : Op → Bool
  | .sort | .rev | .avg | .predict | .predictsigma => false
  | _ => true

/-- How many elements an operator asks for. -/
def Op.operands : Op → ℕ
  | .number | .variable | .prevOther | .count | .prev | .unkn | .inf | .neginf | .now | .time | .ltime => 0
  | .sin | .atan | .rad2deg | .deg2rad | .cos | .ceil | .floor | .log | .exp | .un | .isinf | .sqrt | .abs => 1
  | .dup | .pop | .sort | .rev | .avg => 1
  | .cond | .limit | .predict | .predictsigma => 3
  | _ => 2

/-- How many elements it leaves for them. -/
def Op.results : Op → ℕ
  | .pop => 0
  | .dup | .exc => 2
  | _ => 1

/-- What the depth depends on, of a node. -/
structure NodeShape : Type where
  /-- `op` -/
  op : Op
  /-- `ds_cnt` -/
  dsCnt : ℕ
  /-- `step` -/
  step : ℕ
  deriving DecidableEq

/-- A node without its constant and its data. -/
def RpnNode.shape (n : RpnNode) : NodeShape := ⟨n.op, n.dsCnt, n.step⟩

/-- **An operator on a depth.** Besides the underflow there are a VDEF, a step of zero, and a `TREND` that
has no variable two nodes before it. -/
def opDepth (prog : List NodeShape) (rpi : ℕ) (n : NodeShape) (d : ℤ) : Outcome CalcError ℤ :=
  if d + 1 < n.op.operands then .fail .stackUnderflow d
  else if n.op = .variable ∨ n.op = .prevOther then
    if n.dsCnt = 0 then .fail .vdef d
    else if n.step = 0 then .fail .divisionByZero (d + 1)
    else .ok (d + 1)
  else if n.op = .trend ∨ n.op = .trendnan then
    match if rpi < 2 then none else prog[rpi - 2]? with
    | none => .fail .malformedTrend d
    | some v => if v.op ≠ .variable then .fail .malformedTrend d else .ok (d - 1)
  else .ok (d - n.op.operands + n.op.results)

/-- One node. -/
def depthPass (prog : List NodeShape) (rpi : ℕ) (d : ℤ) : Outcome CalcError ℤ :=
  match prog[rpi]? with
  | none => .ok d
  | some n => opDepth prog rpi n d

/-- The first `k` nodes. -/
def depthRun (prog : List NodeShape) (k : ℕ) (d : ℤ) : Outcome CalcError ℤ :=
  forLoopE k (depthPass prog) d

/-- A whole program. -/
def depthCalc (prog : List NodeShape) : Outcome CalcError ℤ :=
  (depthRun prog prog.length (-1)).andThen fun d => if d ≠ 0 then .fail .finalStackSize d else .ok d

/-! ## The operators follow the table -/

variable {env : RpnEnv} {call : RpnCall} {prog : List RpnNode} {n : RpnNode} {rpi : ℕ} {c : RpnState}

/-- A check of the depth. -/
theorem need_depth (c : RpnState) {minsize : ℤ} {pops : ℕ} (hpops : minsize + 1 = pops)
    {k : RpnState → CalcOutcome} {o : Outcome CalcError ℤ} (hk : (k c).map RpnState.stptr = o) :
    (c.need minsize k).map RpnState.stptr =
      if c.stptr + 1 < pops then .fail .stackUnderflow c.stptr else o := by
  rw [RpnState.need]
  by_cases h : c.stptr < minsize
  · rw [if_pos h, if_pos (by omega)]
    rfl
  · rw [if_neg h, if_neg (by omega)]
    exact hk

theorem unary_depth (c : RpnState) (f : RrdValue → RrdValue) :
    (c.unary f).map RpnState.stptr =
      if c.stptr + 1 < (1 : ℕ) then .fail .stackUnderflow c.stptr else .ok (c.stptr - (1 : ℕ) + (1 : ℕ)) :=
  need_depth c rfl (congrArg Outcome.ok (by simp))

theorem binary_depth (c : RpnState) (f : RrdValue → RrdValue → RrdValue) :
    (c.binary f).map RpnState.stptr =
      if c.stptr + 1 < (2 : ℕ) then .fail .stackUnderflow c.stptr else .ok (c.stptr - (2 : ℕ) + (1 : ℕ)) := by
  refine need_depth c rfl (congrArg Outcome.ok ?_)
  simp only [move_stptr, store_stptr, load_stptr]
  omega

theorem ternary_depth (c : RpnState) (f : RrdValue → RrdValue → RrdValue → RrdValue) :
    (c.ternary f).map RpnState.stptr =
      if c.stptr + 1 < (3 : ℕ) then .fail .stackUnderflow c.stptr else .ok (c.stptr - (3 : ℕ) + (1 : ℕ)) := by
  refine need_depth c rfl (congrArg Outcome.ok ?_)
  simp only [move_stptr, store_stptr, load_stptr]
  omega

theorem opDup_depth (c : RpnState) :
    (opDup c).map RpnState.stptr =
      if c.stptr + 1 < (1 : ℕ) then .fail .stackUnderflow c.stptr else .ok (c.stptr - (1 : ℕ) + (2 : ℕ)) := by
  refine need_depth c rfl (congrArg Outcome.ok ?_)
  simp only [move_stptr, store_stptr, load_stptr]
  omega

theorem opPop_depth (c : RpnState) :
    (c.need 0 fun c => .ok (c.move (-1))).map RpnState.stptr =
      if c.stptr + 1 < (1 : ℕ) then .fail .stackUnderflow c.stptr else .ok (c.stptr - (1 : ℕ) + (0 : ℕ)) := by
  refine need_depth c rfl (congrArg Outcome.ok ?_)
  simp only [move_stptr]
  omega

theorem opExc_depth (c : RpnState) :
    (opExc c).map RpnState.stptr =
      if c.stptr + 1 < (2 : ℕ) then .fail .stackUnderflow c.stptr else .ok (c.stptr - (2 : ℕ) + (2 : ℕ)) := by
  refine need_depth c rfl (congrArg Outcome.ok ?_)
  simp only [store_stptr, load_stptr]
  omega

theorem opVariable_depth (c : RpnState) (n : RpnNode) (rpi : ℕ) :
    (opVariable env call n rpi c).map RpnState.stptr =
      if n.dsCnt = 0 then .fail .vdef c.stptr
      else if n.step = 0 then .fail .divisionByZero (c.stptr + 1) else .ok (c.stptr + 1) := by
  rw [opVariable]
  split_ifs <;> rfl

theorem opTrend_depth (c : RpnState) (op : Op) (v : Option RpnNode) (rpi : ℕ) :
    (opTrend env call op v rpi c).map RpnState.stptr =
      if c.stptr + 1 < (2 : ℕ) then .fail .stackUnderflow c.stptr
      else
        match v.map RpnNode.shape with
        | none => .fail .malformedTrend c.stptr
        | some v => if v.op ≠ .variable then .fail .malformedTrend c.stptr else .ok (c.stptr - 1) := by
  refine need_depth c rfl ?_
  cases v with
  | none => rfl
  | some v =>
    dsimp only [Option.map_some, RpnNode.shape]
    by_cases hvar : v.op ≠ .variable
    · rw [if_pos hvar, if_pos hvar]
      rfl
    rw [if_neg hvar, if_neg hvar]
    split_ifs
    all_goals
      refine congrArg Outcome.ok ?_
      simp only [store_stptr, move_stptr, load_stptr]
      first
      | rw [(trendLoop_same ..).stptr, (trendPass_same ..).stptr]
        rfl
      | rfl

theorem shape_getElem? (prog : List RpnNode) (i : ℕ) :
    (prog.map RpnNode.shape)[i]? = prog[i]?.map RpnNode.shape := List.getElem?_map

/-- Does the operator check more than the depth? -/
def Op.checksNode : Op → Bool
  | .variable | .prevOther | .trend | .trendnan => true
  | _ => false

theorem opDepth_plain {prog : List NodeShape} {n : NodeShape} {d : ℤ} (h : n.op.checksNode = false) :
    opDepth prog rpi n d =
      if d + 1 < n.op.operands then .fail .stackUnderflow d
      else .ok (d - n.op.operands + n.op.results) := by
  have hvar : ¬ (n.op = .variable ∨ n.op = .prevOther) := by
    rintro (hop | hop)
    · exact absurd h (by rw [hop]; decide)
    · exact absurd h (by rw [hop]; decide)
  have htrend : ¬ (n.op = .trend ∨ n.op = .trendnan) := by
    rintro (hop | hop)
    · exact absurd h (by rw [hop]; decide)
    · exact absurd h (by rw [hop]; decide)
  rw [opDepth, if_neg hvar, if_neg htrend]

/-- **One operator**: its depth is in the table. -/
theorem rpnOp_depth (h : c.Ready) (hfixed : n.op.fixedArity = true) :
    (rpnOp env call prog rpi n c).map RpnState.stptr =
      opDepth (prog.map RpnNode.shape) rpi n.shape c.stptr := by
  have hfloor : ¬ c.stptr + 1 < ((0 : ℕ) : ℤ) := by
    have := h.floor
    omega
  have htrend : (if rpi < 2 then none else prog[rpi - 2]?).map RpnNode.shape =
      if rpi < 2 then none else (prog.map RpnNode.shape)[rpi - 2]? := by
    rw [shape_getElem?]
    split_ifs <;> rfl
  obtain ⟨⟨op, val, ptr⟩, arr, dsCnt, step⟩ := n
  cases op with
  | number | count | prev | unkn | inf | neginf | now | time | ltime =>
    rw [opDepth_plain rfl]
    refine Eq.trans (congrArg Outcome.ok ?_) (if_neg hfloor).symm
    simp [RpnNode.shape, Op.operands, Op.results]
  | «variable» | prevOther =>
    exact (opVariable_depth c _ rpi).trans (if_neg hfloor).symm
  | add | addnan | sub | mul | div | mod | atan2 | lt | le | gt | ge | ne | eq | min | max =>
    rw [opDepth_plain rfl]
    exact binary_depth c _
  | sin | atan | rad2deg | deg2rad | cos | ceil | floor | log | exp | un | isinf | sqrt | abs =>
    rw [rpnOp, opDepth_plain rfl]
    exact unary_depth c _
  | cond | limit =>
    rw [rpnOp, opDepth_plain rfl]
    exact ternary_depth c _
  | dup =>
    rw [opDepth_plain rfl]
    exact opDup_depth c
  | pop =>
    rw [opDepth_plain rfl]
    exact opPop_depth c
  | exc =>
    rw [opDepth_plain rfl]
    exact opExc_depth c
  | trend | trendnan =>
    refine (opTrend_depth c _ _ rpi).trans ?_
    rw [htrend]
    rfl
  | sort | rev | avg | predict | predictsigma => exact (Bool.false_ne_true hfixed).elim

theorem opVariable_more {c' : RpnState} (hok : opVariable env call n rpi c = .ok c') :
    (opVariable env call n rpi c).map RpnState.stptr = .ok (c.stptr + 1) := by
  have hdepth : (opVariable env call n rpi c).map RpnState.stptr = _ := opVariable_depth c n rpi
  rw [hok, Outcome.map_ok] at hdepth ⊢
  split_ifs at hdepth
  exact hdepth

theorem opDup_more {c' : RpnState} (hok : opDup c = .ok c') :
    (opDup c).map RpnState.stptr = .ok (c.stptr + 1) := by
  have hdepth := opDup_depth c
  rw [hok, Outcome.map_ok] at hdepth ⊢
  split_ifs at hdepth
  rw [hdepth]
  exact congrArg Outcome.ok (by omega)

/-- **What an operator accesses**: nothing above the top it finds and the top it leaves. -/
theorem rpnOp_below (h : c.Ready) (hfixed : n.op.fixedArity = true) {c' : RpnState}
    (hok : rpnOp env call prog rpi n c = .ok c') : Inside (max c.stptr c'.stptr) c (.ok c') := by
  have hleft : c.stptr ≤ max c.stptr c'.stptr := le_max_left _ _
  -- an operator that leaves one element more
  have hmore (o : CalcOutcome) (ho : o = .ok c') (hin : Inside (c.stptr + 1) c o)
      (hd : o.map RpnState.stptr = .ok (c.stptr + 1)) : Inside (max c.stptr c'.stptr) c (.ok c') := by
    rw [ho, Outcome.map_ok] at hd
    rw [ho] at hin
    have hstptr := Outcome.ok.inj hd
    exact hin.mono (by rw [hstptr]; exact le_max_right _ _)
  have hless (o : CalcOutcome) (ho : o = .ok c') (hin : Inside c.stptr c o) :
      Inside (max c.stptr c'.stptr) c (.ok c') := by
    rw [ho] at hin
    exact hin.mono hleft
  rw [rpnOp] at hok
  cases hop : n.op with
  | number | count | prev | unkn | inf | neginf | now | time | ltime =>
    rw [hop] at hok
    exact hmore _ hok (inside_push h _) rfl
  | «variable» | prevOther =>
    rw [hop] at hok
    exact hmore _ hok (inside_variable h n rpi) (opVariable_more hok)
  | add | addnan | sub | mul | div | mod | atan2 | lt | le | gt | ge | ne | eq | min | max =>
    rw [hop] at hok
    exact hless _ hok (inside_binary h _)
  | sin | atan | rad2deg | deg2rad | cos | ceil | floor | log | exp | un | isinf | sqrt | abs =>
    rw [hop] at hok
    exact hless _ hok (inside_unary h _)
  | cond | limit =>
    rw [hop] at hok
    exact hless _ hok (inside_ternary h _)
  | dup =>
    rw [hop] at hok
    exact hmore _ hok (inside_dup h) (opDup_more hok)
  | pop =>
    rw [hop] at hok
    refine hless _ hok (inside_need fun h0 => ((Visits.refl _ c).move (-1)).inside ?_)
    exact (h.toSound.move (by decide) (by omega)).mono (by decide)
  | exc =>
    rw [hop] at hok
    exact hless _ hok (inside_exc h)
  | trend | trendnan =>
    rw [hop] at hok
    exact hless _ hok (inside_trend h ..)
  | sort | rev | avg | predict | predictsigma =>
    rw [hop] at hfixed
    exact (Bool.false_ne_true hfixed).elim

/-! ## Runs -/

variable {s : RpnStack}

theorem grow_depth (hmem : ∀ m, env.realloc m = true) (c : RpnState) :
    ∃ c', c.grow env = .ok c' ∧ c'.stptr = c.stptr := by
  rw [RpnState.grow]
  dsimp only
  rw [hmem, if_pos rfl]
  split_ifs
  · exact ⟨_, rfl, rfl⟩
  · exact ⟨_, rfl, rfl⟩

theorem grow_stptr {c' : RpnState} (hgrow : c.grow env = .ok c') : c'.stptr = c.stptr := by
  rw [RpnState.grow] at hgrow
  dsimp only at hgrow
  split_ifs at hgrow
  · obtain rfl := Outcome.ok.inj hgrow
    rfl
  · obtain rfl := Outcome.ok.inj hgrow
    rfl

theorem opFits_of_fixedArity (hfixed : n.op.fixedArity = true) (c : RpnState) : OpFits n c := by
  refine ⟨fun hop => ?_, ?_⟩
  · rw [hop] at hfixed
    exact (Bool.false_ne_true hfixed).elim
  · rintro (hop | hop)
    · rw [hop] at hfixed
      exact (Bool.false_ne_true hfixed).elim
    · rw [hop] at hfixed
      exact (Bool.false_ne_true hfixed).elim

variable (hfixed : ∀ n ∈ prog, n.op.fixedArity = true)

include hfixed

theorem countsFit_of_fixedArity : CountsFit env call prog s := fun _ _ _ _ hn _ _ =>
  opFits_of_fixedArity (hfixed _ (List.mem_of_getElem? hn)) _

theorem rpnRun_sound {k : ℕ} (hrun : rpnRun env call prog k s.state = .ok c) : c.Sound 0 :=
  (rpnRun_inside k fun j n c c' _ hn => countsFit_of_fixedArity hfixed j n c c' hn).2 c hrun

/-- **The calculator follows the table**, whatever the data. -/
theorem rpnRun_depth (hmem : ∀ m, env.realloc m = true) (k : ℕ) :
    (rpnRun env call prog k s.state).map RpnState.stptr = depthRun (prog.map RpnNode.shape) k (-1) := by
  refine forLoopE_map fun i c _ hrun => ?_
  rw [rpnPass, depthPass, shape_getElem?]
  cases hn : prog[i]? with
  | none => rfl
  | some n =>
    obtain ⟨c', hgrow, hstptr⟩ := grow_depth hmem c
    have hsound := rpnRun_sound hfixed hrun
    have hdepth : (rpnOp env call prog i n c'.start).map RpnState.stptr = _ :=
      rpnOp_depth (ready_of_grow hsound hgrow) (hfixed n (List.mem_of_getElem? hn))
    simp only [hgrow, Outcome.ok_andThen, Option.map_some]
    rw [hdepth]
    exact congrArg _ hstptr

/-- The whole evaluation. -/
theorem rpnCalcArray_depth (hmem : ∀ m, env.realloc m = true) :
    (rpnCalcArray env call prog s).map RpnState.stptr = depthCalc (prog.map RpnNode.shape) := by
  rw [rpnCalcArray, depthCalc, List.length_map, ← rpnRun_depth hfixed hmem]
  refine Outcome.map_andThen fun c _ => ?_
  rw [rpnFinish]
  split_ifs
  · rfl
  · rfl

/-- **An operator of a run**: its accesses are between zero and its current top. -/
theorem rpnRun_below {k : ℕ} {c c' : RpnState} (hrun : rpnRun env call prog k s.state = .ok c)
    (hrun' : rpnRun env call prog (k + 1) s.state = .ok c') :
    ∀ t ∈ c'.touched, t ∈ c.touched ∨ t.Safe ∧ t.Below (max c.stptr c'.stptr) := by
  rw [rpnRun_succ, hrun, Outcome.ok_andThen, rpnPass] at hrun'
  cases hn : prog[k]? with
  | none =>
    simp only [hn] at hrun'
    obtain rfl := Outcome.ok.inj hrun'
    exact fun t ht => .inl ht
  | some n =>
    simp only [hn] at hrun'
    obtain ⟨c1, hgrow, hop⟩ := Outcome.andThen_eq_ok.mp hrun'
    have hsound := rpnRun_sound hfixed hrun
    have hbelow := (rpnOp_below (ready_of_grow hsound hgrow) (hfixed n (List.mem_of_getElem? hn)) hop).touched
    have htouched := grow_touched env c
    rw [hgrow, Outcome.state_ok] at htouched
    have hstptr : c1.stptr = c.stptr := grow_stptr hgrow
    change ∀ t ∈ c'.touched, t ∈ c1.touched ∨ t.Safe ∧ t.Below (max c1.stptr c'.stptr) at hbelow
    rw [htouched, hstptr] at hbelow
    exact hbelow

omit hfixed

end Rrdtool
