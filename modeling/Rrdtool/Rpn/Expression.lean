import Rrdtool.Lib.Polish
import Rrdtool.Rpn.Compact
import Rrdtool.Rpn.Depth
import Rrdtool.Rpn.Grammar

/-!
# What an RPN program means

A program in reverse Polish notation lists an expression. Here is what its operators mean, as functions of
their operands, and that the calculator computes the value of the expression that a program lists.

* `Op.value` — the operators that have a value, by their operands;
* `rpnCalc_eq_ok_iff` — the calculator on such programs is the stack machine of `Polish`;
* `compute_expression` — a `COMPUTE` data source, from its text to its value.
-/

namespace Rrdtool

open Polish

/-! ## Operators -/

/-- What an operator makes of its operands, the deepest one first. -/
def Op.value (lib : Libm) : Op → List RrdValue → RrdValue
  | .add, [a, b] => a + b
  | .addnan, [a, b] => rpnAddnan a b
  | .sub, [a, b] => a - b
  | .mul, [a, b] => a * b
  | .div, [a, b] => a / b
  | .mod, [a, b] => fmod a b
  | .atan2, [a, b] => lib.atan2 a b
  | .lt, [a, b] => rpnCompare (fun a b => a.lt b) a b
  | .le, [a, b] => rpnCompare (fun a b => a.le b) a b
  | .gt, [a, b] => rpnCompare (fun a b => b.lt a) a b
  | .ge, [a, b] => rpnCompare (fun a b => b.le a) a b
  | .ne, [a, b] => rpnCompare (fun a b => !a.eq b) a b
  | .eq, [a, b] => rpnCompare (fun a b => a.eq b) a b
  | .min, [a, b] => rpnPick (fun a b => b.lt a) a b
  | .max, [a, b] => rpnPick (fun a b => a.lt b) a b
  | .sin, [a] => lib.sin a
  | .cos, [a] => lib.cos a
  | .log, [a] => lib.log a
  | .exp, [a] => lib.exp a
  | .sqrt, [a] => lib.sqrt a
  | .atan, [a] => lib.atan a
  | .rad2deg, [a] => .num (5729577951 / 100000000) * a
  | .deg2rad, [a] => .num (174532952 / 10000000000) * a
  | .floor, [a] => a.floor
  | .ceil, [a] => a.ceil
  | .abs, [a] => a.fabs
  | .un, [a] => if a.isnan then .num 1 else .num 0
  | .isinf, [a] => if a.isinf then .num 1 else .num 0
  | .cond, [x, a, b] => if x.isnan || x.eq (.num 0) then b else a
  | .limit, [a, lo, hi] => rpnLimit a lo hi
  | _, _ => dnan

/-- The operator takes no count from the stack, and does not look at the data of a variable. -/
def Op.isPlain (op : Op) : Bool := op.fixedArity && !op.checksNode

/-- The operators that only move what is on the stack. -/
def Op.moves : Op → Bool
  | .dup | .exc | .pop => true
  | _ => false

/-- A node as an instruction of the stack machine. -/
def instrOf {ι : Type} (op : ι → Op) (n : ι) : Instr ι :=
  match op n with
  | .dup => .dup
  | .exc => .exc
  | .pop => .pop
  | _ => .sym n

/-- An expression: every node has as many operands as its operator takes. -/
abbrev Expression {ι : Type} (op : ι → Op) : Type := Term fun n => (op n).operands

/-- **The expression that a program computes**, if it leaves one: the stack machine with the expressions
themselves on its stack. -/
def symbolic {ι : Type} (op : ι → Op) (prog : List ι) : Option (List (Expression op)) :=
  run Term.app (prog.map (instrOf op)) []

theorem instrOf_of_not_moves {ι : Type} {op : ι → Op} {n : ι} (h : (op n).moves = false) :
    instrOf op n = .sym n := by
  rw [instrOf]
  cases hop : op n with
  | dup => rw [hop] at h; exact absurd h (by decide)
  | exc => rw [hop] at h; exact absurd h (by decide)
  | pop => rw [hop] at h; exact absurd h (by decide)
  | _ => rfl

theorem eq_of_instrOf {ι : Type} {op : ι → Op} {n f : ι} (h : instrOf op n = .sym f) : f = n := by
  rw [instrOf] at h
  cases hop : op n with
  | dup => rw [hop] at h; exact absurd h (by simp)
  | exc => rw [hop] at h; exact absurd h (by simp)
  | pop => rw [hop] at h; exact absurd h (by simp)
  | _ =>
    rw [hop] at h
    exact (Instr.sym.inj h).symm

theorem map_instrOf {ι : Type} {op : ι → Op} {prog : List ι} (h : ∀ n ∈ prog, (op n).moves = false) :
    prog.map (instrOf op) = symbols prog :=
  List.map_congr_left fun n hn => instrOf_of_not_moves (h n hn)

/-- **A program that does not move the stack about** lists the expression that it computes. -/
theorem symbolic_eq_iff {ι : Type} {op : ι → Op} {prog : List ι} (h : ∀ n ∈ prog, (op n).moves = false)
    {t : Expression op} : symbolic op prog = some [t] ↔ t.code = prog := by
  rw [symbolic, map_instrOf h, run_eq_some_iff]
  constructor
  · rintro ⟨u, hu, rfl⟩
    rwa [Term.eval_app]
  · exact fun ht => ⟨t, ht, Term.eval_app t⟩

/-! ## The list calculator -/

/-- What a node of a `COMPUTE` program stands for. -/
def computeValue (lib : Libm) (output : ℕ → RrdValue) (outputIdx : ℕ) (n : Rpnp)
    (args : Fin n.op.operands → RrdValue) : RrdValue :=
  match n.op, List.ofFn args with
  | .number, _ => n.val
  | .count, _ => Dbl.ofNat (outputIdx + 1)
  | .prev, _ => if outputIdx = 0 then dnan else output (outputIdx - 1)
  | .unkn, _ => dnan
  | .inf, _ => .inf
  | .neginf, _ => .neginf
  | .now, _ => lib.now
  | .time, _ => .num 0
  | .ltime, _ => lib.tzoffset + .num 0
  | op, args => op.value lib args

section List

variable {lib : Libm} {output : ℕ → RrdValue} {outputIdx : ℕ} {n : Rpnp} {s t : List RrdValue}

/-- The stack machine on the node. -/
abbrev computeStep (lib : Libm) (output : ℕ → RrdValue) (outputIdx : ℕ) (n : Rpnp) (s : List RrdValue) :
    Option (List RrdValue) :=
  step (computeValue lib output outputIdx) (instrOf Rpnp.op n) s

theorem ok_iff_some {a : List RrdValue} : (.ok a : Except RpnError (List RrdValue)) = .ok t ↔ some a = some t := by
  simp

theorem error_iff_none {e : RpnError} :
    (.error e : Except RpnError (List RrdValue)) = .ok t ↔ (none : Option (List RrdValue)) = some t := by
  simp

theorem rpnUnary_eq_ok_iff (f : RrdValue → RrdValue)
    (h : ∀ a s, computeStep lib output outputIdx n (a :: s) = some (f a :: s))
    (hnone : computeStep lib output outputIdx n [] = none) :
    rpnUnary f s = .ok t ↔ computeStep lib output outputIdx n s = some t := by
  cases s with
  | nil => simp [hnone, rpnUnary]
  | cons a s => simp [h, rpnUnary]

theorem rpnBinary_eq_ok_iff (f : RrdValue → RrdValue → RrdValue)
    (h : ∀ a b s, computeStep lib output outputIdx n (b :: a :: s) = some (f a b :: s))
    (hnone : computeStep lib output outputIdx n [] = none)
    (hone : ∀ a, computeStep lib output outputIdx n [a] = none) :
    rpnBinary f s = .ok t ↔ computeStep lib output outputIdx n s = some t := by
  cases s with
  | nil => simp [hnone, rpnBinary]
  | cons b s =>
    cases s with
    | nil => simp [hone, rpnBinary]
    | cons a s => simp [h, rpnBinary]

/-- **One operator**: the calculator does what the stack machine does. -/
theorem rpnStep_eq_ok_iff (hplain : n.op.isPlain = true) :
    rpnStep lib output outputIdx n s = .ok t ↔ computeStep lib output outputIdx n s = some t := by
  obtain ⟨op, val, ptr⟩ := n
  cases op with
  | number | count | prev | unkn | inf | neginf | now | time | ltime =>
    exact ok_iff_some
  | sin | cos | log | exp | sqrt | atan | rad2deg | deg2rad | floor | ceil | abs | un | isinf =>
    exact rpnUnary_eq_ok_iff _ (fun _ _ => rfl) rfl
  | add | addnan | sub | mul | div | mod | atan2 | lt | le | gt | ge | ne | eq | min | max =>
    exact rpnBinary_eq_ok_iff _ (fun _ _ _ => rfl) rfl fun _ => rfl
  | cond | limit =>
    rcases s with _ | ⟨b, _ | ⟨a, _ | ⟨x, s⟩⟩⟩
    · exact error_iff_none
    · exact error_iff_none
    · exact error_iff_none
    · exact ok_iff_some
  | dup | pop =>
    cases s with
    | nil => exact error_iff_none
    | cons a s => exact ok_iff_some
  | exc =>
    rcases s with _ | ⟨b, _ | ⟨a, s⟩⟩
    · exact error_iff_none
    · exact error_iff_none
    · exact ok_iff_some
  | «variable» | prevOther | trend | trendnan => exact (Bool.false_ne_true hplain).elim
  | sort | rev | avg | predict | predictsigma => exact (Bool.false_ne_true hplain).elim

/-- A constant matters for `OP_NUMBER` only. -/
theorem computeStep_congr {op : Op} {val val' : RrdValue} (hval : op = .number → val = val') (ptr ptr' : ℕ) :
    computeStep lib output outputIdx ⟨op, val, ptr⟩ s = computeStep lib output outputIdx ⟨op, val', ptr'⟩ s := by
  cases op with
  | number =>
    obtain rfl := hval rfl
    rfl
  | _ => rfl

/-- **The calculator is the stack machine**, on a program whose nodes it takes for others. -/
theorem rpnCalc_eq_ok_iff {apply : (n : Rpnp) → (Fin n.op.operands → RrdValue) → RrdValue} {g : Rpnp → Rpnp}
    {prog : List Rpnp} {v : RrdValue}
    (hstep : ∀ n ∈ prog, ∀ s t, rpnStep lib output outputIdx (g n) s = .ok t ↔
      step apply (instrOf Rpnp.op n) s = some t) (s : List RrdValue) :
    rpnCalc lib output outputIdx (prog.map g) s = .ok v ↔
      run apply (prog.map (instrOf Rpnp.op)) s = some [v] := by
  induction prog generalizing s with
  | nil =>
    rw [List.map_nil, List.map_nil, run, Option.some_inj]
    rcases s with _ | ⟨a, _ | ⟨b, s⟩⟩
    · simp [rpnCalc]
    · simp [rpnCalc]
    · simp [rpnCalc]
  | cons n prog ih =>
    rw [List.map_cons, List.map_cons, run, rpnCalc, Option.bind_eq_some_iff]
    have hn := hstep n List.mem_cons_self s
    have ih := ih fun m hm => hstep m (List.mem_cons_of_mem _ hm)
    cases hout : rpnStep lib output outputIdx (g n) s with
    | ok t =>
      dsimp only
      rw [ih, (hn t).mp hout]
      simp
    | error e =>
      have hnone : step apply (instrOf Rpnp.op n) s = none := by
        refine Option.eq_none_iff_forall_ne_some.mpr fun t ht => ?_
        rw [(hn t).mpr ht] at hout
        exact absurd hout (by simp)
      simp [hnone]

end List

/-! ## `COMPUTE` data sources -/

/-- What a node of the text of a `COMPUTE` DS stands for: a variable is the PDP of its DS. -/
def dsValue (lib : Libm) (pdpTemp : ℕ → RrdValue) (dsIdx : ℕ) (n : Rpnp)
    (args : Fin n.op.operands → RrdValue) : RrdValue :=
  if n.op = .variable then pdpTemp n.ptr else computeValue lib pdpTemp dsIdx n args

/-- A node that has been packed, unpacked, and bound. -/
def recalledNode (pdpTemp : ℕ → RrdValue) (n : Rpnp) : Rpnp := substVariable pdpTemp (rpnExpand n.packed)

variable {lookup : Text → Option ℕ} {lib : Libm} {pdpTemp : ℕ → RrdValue} {dsIdx : ℕ} {n : Rpnp}

/-- What is left of a node that fits. -/
theorem recalledNode_eq (hfits : NodeFits n) (hrange : n.op = .number → InShort n.val)
    (hplain : n.op.isPlain = true) : ∃ val ptr, recalledNode pdpTemp n = ⟨n.op, val, ptr⟩ ∧
      (n.op = .number → val = n.val) := by
  obtain ⟨op, val, ptr⟩ := n
  cases op with
  | number => exact ⟨_, _, rfl, fun _ => (floor_toInt_iff (hrange rfl)).mpr (hfits.constant rfl)⟩
  | «variable» | prevOther | trend | trendnan => exact (Bool.false_ne_true hplain).elim
  | sort | rev | avg | predict | predictsigma => exact (Bool.false_ne_true hplain).elim
  | _ => exact ⟨_, _, rfl, fun h => Op.noConfusion h⟩

/-- An index that fits is stored as it is. -/
theorem packed_variable (hfits : NodeFits n) (hvar : n.op = .variable) : n.packed = ⟨.variable, n.ptr⟩ := by
  have hptr := (bmod_short_iff n.ptr).mpr (hfits.index (.inl hvar))
  rw [Rpnp.packed, if_neg (by rw [hvar]; decide), if_pos (.inl hvar), hptr, hvar]

theorem recalledNode_variable (hfits : NodeFits n) (hvar : n.op = .variable) :
    recalledNode pdpTemp n = ⟨.number, pdpTemp n.ptr, n.ptr⟩ := by
  rw [recalledNode, packed_variable hfits hvar]
  rfl

theorem rpnStep_recalledNode (hfits : NodeFits n) (hrange : n.op = .number → InShort n.val)
    (hplain : n.op = .variable ∨ n.op.isPlain = true) (s t : List RrdValue) :
    rpnStep lib pdpTemp dsIdx (recalledNode pdpTemp n) s = .ok t ↔
      step (dsValue lib pdpTemp dsIdx) (instrOf Rpnp.op n) s = some t := by
  by_cases hvar : n.op = .variable
  · rw [recalledNode_variable hfits hvar]
    obtain ⟨op, val, ptr⟩ := n
    dsimp only at hvar
    subst hvar
    exact ok_iff_some
  · have hplain := hplain.resolve_left hvar
    obtain ⟨val, ptr, hstored, hval⟩ := @recalledNode_eq pdpTemp n hfits hrange hplain
    have hvalue : step (dsValue lib pdpTemp dsIdx) (instrOf Rpnp.op n) s = computeStep lib pdpTemp dsIdx n s := by
      refine step_congr (fun f hf => ?_) s
      obtain rfl := eq_of_instrOf hf
      exact funext fun args => if_neg hvar
    rw [hstored, rpnStep_eq_ok_iff (n := ⟨n.op, val, ptr⟩) hplain, hvalue, computeStep_congr hval ptr n.ptr]

/-- A stored program whose nodes fit names no DS in front of `pdp_temp`. -/
theorem computeDs_eq {nodes : List Rpnp} (hfits : ∀ n ∈ nodes, NodeFits n) :
    computeDs lib (nodes.map Rpnp.packed) pdpTemp dsIdx =
      rpnCalc lib pdpTemp dsIdx (nodes.map (recalledNode pdpTemp)) [] := by
  rw [computeDs, if_neg, List.map_map]
  · rfl
  · intro hany
    obtain ⟨c, hc, hneg⟩ := List.any_eq_true.mp hany
    obtain ⟨n, hn, rfl⟩ := List.mem_map.mp hc
    rw [Bool.and_eq_true, decide_eq_true_eq, decide_eq_true_eq] at hneg
    obtain ⟨hop, hneg⟩ := hneg
    rw [packed_variable (hfits n hn) hop] at hneg
    exact absurd hneg (not_lt.mpr (Int.natCast_nonneg n.ptr))

/-- **A `COMPUTE` data source has the value of an expression**, the same one in every update. Where the text
does not move the stack about, its tokens list that expression, and no other. -/
theorem compute_expression {expr : Text} {prog : List RpnCdefds} {nodes : List Rpnp}
    (hstored : parseCdefDs lookup expr = .ok prog) (hparse : rpnParse lookup expr = some nodes)
    (hfits : ∀ n ∈ nodes, NodeFits n) (hplain : ∀ n ∈ nodes, n.op = .variable ∨ n.op.isPlain = true) :
    (∀ lib pdpTemp dsIdx v, computeDs lib prog pdpTemp dsIdx = .ok v ↔
      ∃ t : Expression Rpnp.op, symbolic Rpnp.op nodes = some [t] ∧ t.eval (dsValue lib pdpTemp dsIdx) = v) ∧
    ((∀ n ∈ nodes, n.op.moves = false) → ∀ t : Expression Rpnp.op, symbolic Rpnp.op nodes = some [t] ↔
      readPieces lookup (CStr.splitOn ',' expr) = .program t.code) := by
  obtain ⟨m, hm, hstorable, rfl⟩ := parseCdefDs_eq_ok.mp hstored
  obtain rfl : m = nodes := Option.some.inj (hm.symm.trans hparse)
  refine ⟨fun lib pdpTemp dsIdx v => ?_, fun hmoves t => ?_⟩
  · rw [computeDs_eq hfits, rpnCalc_eq_ok_iff fun n hn =>
      rpnStep_recalledNode (hfits n hn) (hstorable.constant n hn) (hplain n hn), run_symbolic, symbolic]
    constructor
    · intro h
      obtain ⟨ts, hts, hmap⟩ := Option.map_eq_some_iff.mp h
      obtain ⟨t, rfl, ht⟩ := List.map_eq_singleton_iff.mp hmap
      exact ⟨t, hts, ht⟩
    · rintro ⟨t, ht, rfl⟩
      rw [ht]
      rfl
  · rw [symbolic_eq_iff hmoves, (rpnParse_eq_some.mp hparse).2, Parsed.program.injEq]
    exact eq_comm

/-- `a,2,*`, where `a` is 3. -/
theorem compute_expression_double : ∃ t : Expression Rpnp.op,
    symbolic Rpnp.op [⟨.variable, .num 0, 0⟩, ⟨.number, .num 2, 0⟩, ⟨.mul, .num 0, 0⟩] = some [t] ∧
      t.eval (dsValue ⟨id, id, id, id, id, id, fun a _ => a, .num 0, .num 0⟩ (fun _ => .num 3) 1) = .num 6 := by
  refine ((@compute_expression (fun v => if v = ['a'] then some 0 else none) "a,2,*".toList
    [⟨.variable, 0⟩, ⟨.number, 2⟩, ⟨.mul, 0⟩] _ ?_ ?_ ?_ ?_).1 _ _ 1 _).mp ?_
  · decide +kernel
  · decide +kernel
  · simp only [List.forall_mem_cons, List.not_mem_nil, false_imp_iff, implies_true, and_true]
    exact ⟨⟨by simp, by simp⟩, ⟨fun _ => ⟨2, by simp⟩, by simp⟩, ⟨by simp, by simp⟩⟩
  · simp only [List.forall_mem_cons, List.not_mem_nil, false_imp_iff, implies_true, and_true, true_or, true_and]
    exact ⟨.inr rfl, .inr rfl⟩
  · decide +kernel

end Rrdtool
