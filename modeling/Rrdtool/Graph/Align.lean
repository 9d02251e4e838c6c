import Rrdtool.Graph.DataCalc

/-!
# The rows of a `CDEF`

What `data_calc` makes of the times of the variables that a `CDEF` names, and which rows of theirs it reads.
The start is the latest one unless all are negative, since the loop begins with zero; and an end of zero,
which a `SHIFT` can make, counts as none. The pointers are in the right rows in every case, as far as there are
such rows.

* `lcd_isGreatest` — the step;
* `scanNodes_eq` — what the loop over the nodes finds;
* `Bound`, `rowsRun_data` — a `CDEF` that has been set up, and its pointers before every row;
* `validFrom_calcEntry` — the elements stay regular;
* `aligned_iff` — when the rows are those of the variables.
-/

namespace Rrdtool

open Loop

/-! ## The step -/

theorem lcdPair_eq {b : ℕ} (hb : 0 < b) (a : ℕ) : lcdPair a b = Nat.gcd a b := by
  fun_induction lcdPair a b with
  | case1 a b h ih =>
    rw [ih h.2, Nat.gcd_comm a b, Nat.gcd_rec b a, Nat.gcd_comm]
  | case2 a b h =>
    have hmod : a % b = 0 := by
      by_contra hne
      exact h ⟨hb, Nat.pos_of_ne_zero hne⟩
    exact (Nat.gcd_eq_right (Nat.dvd_of_mod_eq_zero hmod)).symm

theorem lcdFrom_isGreatest {num : List ℕ} (hpos : ∀ s ∈ num, 0 < s) {a : ℕ} (ha : 0 < a) :
    0 < lcdFrom a num ∧ IsGreatest {m : ℕ | ∀ s ∈ a :: num, m ∣ s} (lcdFrom a num) := by
  induction num generalizing a with
  | nil =>
    refine ⟨ha, by simp [lcdFrom], fun m hm => ?_⟩
    exact Nat.le_of_dvd ha (hm a (List.mem_singleton_self a))
  | cons b num ih =>
    rw [List.forall_mem_cons] at hpos
    obtain ⟨hb, hnum⟩ := hpos
    rw [lcdFrom, if_neg hb.ne', lcdPair_eq hb]
    obtain ⟨hfrom, hgreatest⟩ := ih hnum (Nat.gcd_pos_of_pos_left b ha)
    refine ⟨hfrom, ?_⟩
    -- to divide both is to divide their greatest common divisor
    have hset : {m : ℕ | ∀ s ∈ Nat.gcd a b :: num, m ∣ s} = {m : ℕ | ∀ s ∈ a :: b :: num, m ∣ s} := by
      ext m
      simp only [Set.mem_setOf_eq, List.forall_mem_cons, Nat.dvd_gcd_iff, and_assoc]
    rw [← hset]
    exact hgreatest

/-- **`lcd`** is the greatest common divisor. -/
theorem lcd_isGreatest {num : List ℕ} (hne : num ≠ []) (hpos : ∀ s ∈ num, 0 < s) :
    0 < lcd num ∧ IsGreatest {m : ℕ | ∀ s ∈ num, m ∣ s} (lcd num) := by
  cases num with
  | nil => exact absurd rfl hne
  | cons a num =>
    rw [List.forall_mem_cons] at hpos
    exact lcdFrom_isGreatest hpos.2 hpos.1

/-! ## The nodes -/

variable {gdes : ℕ → GraphDesc} {n : RpnNode}

/-- The node takes data from a `DEF` or a `CDEF`. -/
def RpnNode.TakesData (gdes : ℕ → GraphDesc) (n : RpnNode) : Prop := n.op.IsVar ∧ (gdes n.ptr).dsCnt ≠ 0

instance (gdes : ℕ → GraphDesc) (n : RpnNode) : Decidable (n.TakesData gdes) := inferInstanceAs (Decidable (_ ∧ _))

/-- The variables that the nodes take data from. -/
def dataVars (gdes : ℕ → GraphDesc) (rpnp : List RpnNode) : List ℕ :=
  (rpnp.filter fun n => n.TakesData gdes).map fun n => n.ptr

/-- A node, bound to what it names. -/
def bindNode (gdes : ℕ → GraphDesc) (n : RpnNode) : RpnNode :=
  if n.op.IsVar then
    if (gdes n.ptr).dsCnt = 0 then { n with op := .number, val := (gdes n.ptr).vfVal }
    else { n with arr := n.ptr, dsCnt := (gdes n.ptr).dsCnt, step := (gdes n.ptr).step }
  else n

theorem scanNode_takesData {s : VarScan} (h : n.TakesData gdes) :
    scanNode gdes s n =
      { prog := s.prog ++ [bindNode gdes n]
        steps := s.steps ++ [(gdes n.ptr).step]
        start := Extent.later s.start (gdes n.ptr).start
        stop := Extent.earlier s.stop (gdes n.ptr).stop } := by
  rw [scanNode, if_pos h.1, if_neg h.2, bindNode, if_pos h.1, if_neg h.2]

theorem scanNode_other {s : VarScan} (h : ¬ n.TakesData gdes) :
    scanNode gdes s n = { s with prog := s.prog ++ [bindNode gdes n] } := by
  rw [scanNode, bindNode]
  by_cases hvar : n.op.IsVar
  · have hcnt : (gdes n.ptr).dsCnt = 0 := not_not.mp fun hne => h ⟨hvar, hne⟩
    rw [if_pos hvar, if_pos hvar, if_pos hcnt, if_pos hcnt]
  · rw [if_neg hvar, if_neg hvar]

theorem dataVars_append (l : List RpnNode) (n : RpnNode) :
    dataVars gdes (l ++ [n]) = dataVars gdes l ++ if n.TakesData gdes then [n.ptr] else [] := by
  rw [dataVars, List.filter_append, List.map_append]
  by_cases h : n.TakesData gdes
  · simp [dataVars, h]
  · simp [dataVars, h]

/-- **What the loop over the nodes finds.** -/
theorem scanNodes_eq (gdes : ℕ → GraphDesc) (rpnp : List RpnNode) :
    scanNodes gdes rpnp =
      { prog := rpnp.map (bindNode gdes)
        steps := (dataVars gdes rpnp).map fun i => (gdes i).step
        start := Extent.latest ((dataVars gdes rpnp).map fun i => (gdes i).start)
        stop := Extent.earliest ((dataVars gdes rpnp).map fun i => (gdes i).stop) } := by
  induction rpnp using List.reverseRecOn with
  | nil => rfl
  | append_singleton rpnp n ih =>
    rw [scanNodes, List.foldl_append, ← scanNodes, ih, List.foldl_cons, List.foldl_nil, dataVars_append]
    by_cases h : n.TakesData gdes
    · rw [scanNode_takesData h, if_pos h]
      simp only [List.map_append, List.map_cons, List.map_nil, Extent.latest_append, Extent.earliest_append]
    · rw [scanNode_other h, if_neg h]
      simp only [List.map_append, List.map_cons, List.map_nil, List.append_nil]

/-! ## The loop over the rows -/

namespace CdefJob

variable {job : CdefJob}

/-- The time of a row. -/
def now (job : CdefJob) (j : ℕ) : ℤ := job.start + (j + 1) * job.step

/-- The first `k` rows. -/
def rowsRun (job : CdefJob) (k : ℕ) : Outcome CalcError CdefRun :=
  forLoopE k (fun j => job.pass (job.now j)) job.init

/-- The rows there are. -/
def rows (job : CdefJob) : ℕ := ((job.stop - job.start) / job.step).toNat

theorem now_le_iff (hstep : 0 < job.step) (j : ℕ) : job.now j ≤ job.stop ↔ j < job.rows := by
  have hpos : (0 : ℤ) < job.step := by exact_mod_cast hstep
  rw [now, rows, Int.lt_toNat, ← Int.add_one_le_iff, Int.le_ediv_iff_mul_le hpos]
  constructor
  · intro h
    linarith
  · intro h
    linarith

/-- The loop from row `j` on, where `k` rows are left. -/
theorem loop_eq (hstep : 0 < job.step) {j k : ℕ} (hk : j + k = job.rows) (s : CdefRun)
    (hs : job.rowsRun j = .ok s) : job.loop (job.now j) s = job.rowsRun job.rows := by
  induction k generalizing j s with
  | zero =>
    have hstop : ¬ job.now j ≤ job.stop := by
      rw [now_le_iff hstep]
      omega
    rw [loop, dif_neg fun h => hstop h.1, ← hk, add_zero, hs]
  | succ k ih =>
    have hgo : job.now j ≤ job.stop := by
      rw [now_le_iff hstep]
      omega
    have hnext : job.now j + job.step = job.now (j + 1) := by
      rw [now, now]
      push_cast
      ring
    have hsucc : job.rowsRun (j + 1) = job.pass (job.now j) s := by
      rw [rowsRun, forLoopE_succ, ← rowsRun, hs]
      rfl
    rw [loop, dif_pos ⟨hgo, hstep⟩, hnext]
    cases hpass : job.pass (job.now j) s with
    | ok s' =>
      rw [hpass] at hsucc
      exact ih (by omega) s' hsucc
    | fail e s' =>
      rw [hpass] at hsucc
      -- a row that failed is the end of both
      have hfail : forLoopE job.rows (fun j => job.pass (job.now j)) job.init = .fail e s' :=
        forLoopE_eq_fail.mpr ⟨j, s, by omega, hs, hpass⟩
      exact hfail.symm

/-- **The loop** is a counted one. -/
theorem run_eq (hstep : 0 < job.step) : job.run = job.rowsRun job.rows := by
  have hnow : job.start + job.step = job.now 0 := by
    rw [now]
    push_cast
    ring
  rw [run, hnow]
  exact loop_eq hstep (Nat.zero_add _) _ rfl

end CdefJob

/-! ## A `CDEF` that has been set up -/

/-- **A variable with data**: its times are multiples of its step, and its rows are those between them. -/
structure GraphDesc.Regular (v : GraphDesc) : Prop where
  step : 0 < v.step
  start : (v.step : ℤ) ∣ v.start
  stop : (v.step : ℤ) ∣ v.stop
  shift : (v.step : ℤ) ∣ v.shift
  ds : v.ds < v.dsCnt
  rows : v.start ≤ v.stop → (v.rows : ℤ) = (v.stop - v.start) / v.step

/-- The row that begins at or before a time. -/
def GraphDesc.rowAt (v : GraphDesc) (t : ℤ) : ℤ := t / v.step - v.start / v.step

/-- **A `CDEF`, set up over the elements `gdes`**: its steps fit into those of its variables, and the pointers are
where the data of the variables begin, or later. -/
structure CdefJob.Bound (job : CdefJob) (gdes : ℕ → GraphDesc) : Prop where
  step : 0 < job.step
  start : (job.step : ℤ) ∣ job.start
  mem : ∀ arr i, job.env.mem arr i = (gdes arr).data i
  idx : job.init.idx = 0
  node : ∀ {rpi n}, job.prog[rpi]? = some n → n.op.IsVar →
    (gdes n.ptr).Regular ∧ n.arr = n.ptr ∧ n.dsCnt = (gdes n.ptr).dsCnt ∧ n.step = (gdes n.ptr).step ∧
      (job.step : ℤ) ∣ (gdes n.ptr).step ∧ (gdes n.ptr).start ≤ job.start ∧
      job.init.stack.data rpi = startPos gdes job.start n

namespace CdefJob

variable {job : CdefJob}

/-- Where the pointers start. -/
theorem startPos_eq (hv : (gdes n.ptr).Regular) {start : ℤ} (hle : (gdes n.ptr).start ≤ start) :
    startPos gdes start n = (gdes n.ptr).ds + (gdes n.ptr).rowAt start * (gdes n.ptr).dsCnt := by
  have hs : (0 : ℤ) < (gdes n.ptr).step := by exact_mod_cast hv.step
  rw [startPos, GraphDesc.rowAt, ← Grid.ediv_sub_start hs hv.start]
  split_ifs with hdiff
  · rfl
  · have hzero : start - (gdes n.ptr).start = 0 := by omega
    rw [hzero, Int.zero_ediv, zero_mul, add_zero]

theorem pass_eq_ok {now : ℤ} {s s' : CdefRun} :
    job.pass now s = .ok s' ↔
      ∃ c, rpnRun job.env (call now s) job.prog job.prog.length s.stack.state = .ok c ∧ c.stptr = 0 ∧ s' = next s c := by
  rw [pass, rpnCalcArray]
  cases rpnRun job.env (call now s) job.prog job.prog.length s.stack.state with
  | fail e c => simp
  | ok c =>
    rw [Outcome.ok_andThen, rpnFinish]
    by_cases hstptr : c.stptr = 0
    · rw [if_neg (not_not.mpr hstptr)]
      simp only [Outcome.ok.injEq, exists_eq_left', hstptr, true_and]
      exact eq_comm
    · rw [if_pos hstptr]
      simp [hstptr]

theorem rowsRun_succ (j : ℕ) : job.rowsRun (j + 1) = (job.rowsRun j).andThen (job.pass (job.now j)) :=
  forLoopE_succ ..

theorem now_eq (j : ℕ) : job.now j = (job.start + j * job.step) + job.step := by
  rw [now]
  ring

/-- **A variable moves its pointer** to the row that begins at or before the end of the row. -/
theorem rowAt_advance (hb : job.Bound gdes) {rpi : ℕ} (hn : job.prog[rpi]? = some n) (hop : n.op.IsVar) (j : ℕ) :
    (gdes n.ptr).rowAt (job.start + j * job.step) * (gdes n.ptr).dsCnt + n.advance (job.now j) =
      (gdes n.ptr).rowAt (job.now j) * (gdes n.ptr).dsCnt := by
  obtain ⟨hv, -, hcnt, hnstep, hdvd, -, -⟩ := hb.node hn hop
  have hg : (0 : ℤ) < job.step := by exact_mod_cast hb.step
  have hs : (0 : ℤ) < (gdes n.ptr).step := by exact_mod_cast hv.step
  have hgt : (job.step : ℤ) ∣ job.start + j * job.step := Int.dvd_add hb.start (Dvd.intro_left _ rfl)
  have hadvance : n.advance (job.now j) =
      (if ((gdes n.ptr).step : ℤ) ∣ job.now j then 1 else 0) * (gdes n.ptr).dsCnt := by
    rw [RpnNode.advance, hnstep, hcnt]
    by_cases hmul : ((gdes n.ptr).step : ℤ) ∣ job.now j
    · rw [if_pos ⟨hop, Int.dvd_iff_tmod_eq_zero.mp hmul⟩, if_pos hmul, one_mul]
    · rw [if_neg fun hboth => hmul (Int.dvd_iff_tmod_eq_zero.mpr hboth.2), if_neg hmul, zero_mul]
  have hrow : (gdes n.ptr).rowAt (job.now j) =
      (gdes n.ptr).rowAt (job.start + j * job.step) + if ((gdes n.ptr).step : ℤ) ∣ job.now j then 1 else 0 := by
    rw [GraphDesc.rowAt, GraphDesc.rowAt, now_eq, Grid.ediv_step hg hs hdvd hgt]
    ring
  rw [hadvance, hrow]
  ring

/-- **The pointers before a row** are at the row that begins at or before the row's start. -/
theorem rowsRun_data (hb : job.Bound gdes) {j : ℕ} {s : CdefRun} (h : job.rowsRun j = .ok s) :
    s.idx = j ∧ ∀ {rpi n}, job.prog[rpi]? = some n → n.op.IsVar → s.stack.data rpi =
      (gdes n.ptr).ds + (gdes n.ptr).rowAt (job.start + j * job.step) * (gdes n.ptr).dsCnt := by
  induction j generalizing s with
  | zero =>
    obtain rfl := Outcome.ok.inj h
    refine ⟨hb.idx, fun hn hop => ?_⟩
    obtain ⟨hv, -, -, -, -, hle, hdata⟩ := hb.node hn hop
    rw [hdata, startPos_eq hv hle, Nat.cast_zero, zero_mul, add_zero]
  | succ j ih =>
    rw [rowsRun_succ] at h
    obtain ⟨s₀, hs₀, hpass⟩ := Outcome.andThen_eq_ok.mp h
    obtain ⟨c, hrun, -, rfl⟩ := pass_eq_ok.mp hpass
    obtain ⟨hidx, hpos⟩ := ih hs₀
    refine ⟨congrArg (· + 1) hidx, fun {rpi n} hn hop => ?_⟩
    obtain ⟨hlt, -⟩ := List.getElem?_eq_some_iff.mp hn
    have hdata : c.data rpi = s₀.stack.data rpi + n.advance (job.now j) := by
      rw [rpnRun_data le_rfl hrun hn, if_pos hlt]
      rfl
    have hsum : job.start + (j + 1 : ℕ) * job.step = job.now j := by
      rw [now]
      push_cast
      ring
    change c.data rpi = _
    rw [hdata, hpos hn hop, add_assoc, rowAt_advance hb hn hop, hsum]

/-- **The pointer of a node when it is evaluated.** -/
theorem data_at_node (hb : job.Bound gdes) {j : ℕ} {s : CdefRun} (hs : job.rowsRun j = .ok s) {rpi : ℕ}
    {c : RpnState} (hrun : rpnRun job.env (call (job.now j) s) job.prog rpi s.stack.state = .ok c)
    (hn : job.prog[rpi]? = some n) (hop : n.op.IsVar) : c.data rpi =
      (gdes n.ptr).ds + (gdes n.ptr).rowAt (job.start + j * job.step) * (gdes n.ptr).dsCnt := by
  obtain ⟨hlt, -⟩ := List.getElem?_eq_some_iff.mp hn
  rw [rpnRun_data hlt.le hrun hn, if_neg (lt_irrefl rpi), add_zero]
  exact (rowsRun_data hb hs).2 hn hop

/-- **The pointer of a node that has been evaluated.** -/
theorem data_behind_node (hb : job.Bound gdes) {j : ℕ} {s : CdefRun} (hs : job.rowsRun j = .ok s) {rpi i : ℕ}
    (hle : rpi ≤ job.prog.length) {c : RpnState}
    (hrun : rpnRun job.env (call (job.now j) s) job.prog rpi s.stack.state = .ok c) (hi : i < rpi)
    (hn : job.prog[i]? = some n) (hop : n.op.IsVar) : c.data i =
      (gdes n.ptr).ds + (gdes n.ptr).rowAt (job.now j) * (gdes n.ptr).dsCnt := by
  have hdata : c.data i = s.stack.data i + n.advance (job.now j) := by
    rw [rpnRun_data hle hrun hn, if_pos hi]
    rfl
  rw [hdata, (rowsRun_data hb hs).2 hn hop, add_assoc, rowAt_advance hb hn hop]

end CdefJob

/-! ## The elements -/

/-- An element with a name that a `CDEF` can use. -/
def GraphDesc.IsNamed (g : GraphDesc) : Prop := g.gf = .gfDef ∨ g.gf = .vdef ∨ (g.gf = .cdef)

/-- **The elements before the first `k` have been calculated, and the others can be**: variables name elements in
front of their own. -/
structure ImageDesc.ValidFrom (im : ImageDesc) (k : ℕ) : Prop where
  regular : ∀ i, i < im.gdesC → (im.gdes i).gf = .gfDef ∨ (im.gdes i).gf = .cdef ∧ i < k → (im.gdes i).Regular
  vdef : ∀ i, i < k → (im.gdes i).gf = .vdef → (im.gdes i).dsCnt = 0
  cdef : ∀ i, k ≤ i → i < im.gdesC → (im.gdes i).gf = .cdef →
    (im.gdes i).shift = 0 ∧ ∀ n ∈ (im.gdes i).rpnp, n.op.IsVar → n.ptr < i ∧ (im.gdes n.ptr).IsNamed
  shifted : ∀ i, k ≤ i → i < im.gdesC → (im.gdes i).gf = .shift →
    (im.gdes i).vidx < i ∧ ((im.gdes (im.gdes i).vidx).gf = .gfDef ∨ (im.gdes (im.gdes i).vidx).gf = .cdef)

/-- **A graph** as it is before `data_calc`: its `DEF`s have positive times. -/
structure ImageDesc.Valid (im : ImageDesc) : Prop extends im.ValidFrom 0 where
  times : ∀ i, i < im.gdesC → (im.gdes i).gf = .gfDef → 0 < (im.gdes i).start ∧ 0 < (im.gdes i).stop

variable {env : GraphEnv} {im im' : ImageDesc} {k : ℕ}

/-- A variable that data is taken from is regular. -/
theorem ImageDesc.ValidFrom.dataVar (h : im.ValidFrom k) (hk : k < im.gdesC) (hcdef : (im.gdes k).gf = .cdef)
    (hn : n ∈ (im.gdes k).rpnp) (hdata : n.TakesData im.gdes) : (im.gdes n.ptr).Regular := by
  obtain ⟨hlt, hnamed⟩ := (h.cdef k le_rfl hk hcdef).2 n hn hdata.1
  rcases hnamed with hgf | hgf | hgf
  · exact h.regular n.ptr (hlt.trans hk) (.inl hgf)
  · exact absurd (h.vdef n.ptr hlt hgf) hdata.2
  · exact h.regular n.ptr (hlt.trans hk) (.inr ⟨hgf, hlt⟩)

theorem regular_of_mem_dataVars (h : im.ValidFrom k) (hk : k < im.gdesC) (hcdef : (im.gdes k).gf = .cdef) {i : ℕ}
    (hi : i ∈ dataVars im.gdes (im.gdes k).rpnp) : (im.gdes i).Regular := by
  obtain ⟨n, hn, rfl⟩ := List.mem_map.mp hi
  obtain ⟨hmem, hdata⟩ := List.mem_filter.mp hn
  exact h.dataVar hk hcdef hmem (of_decide_eq_true hdata)

/-- What a bound node that reads data was made of. -/
theorem bindNode_isVar {gdes : ℕ → GraphDesc} (h : (bindNode gdes n).op.IsVar) :
    n.TakesData gdes ∧
      bindNode gdes n = { n with arr := n.ptr, dsCnt := (gdes n.ptr).dsCnt, step := (gdes n.ptr).step } := by
  rw [bindNode] at h
  by_cases hvar : n.op.IsVar
  · by_cases hcnt : (gdes n.ptr).dsCnt = 0
    · rw [if_pos hvar, if_pos hcnt] at h
      exact absurd h (show ¬ Op.IsVar .number by decide)
    · refine ⟨⟨hvar, hcnt⟩, ?_⟩
      rw [bindNode, if_pos hvar, if_neg hcnt]
  · rw [if_neg hvar] at h
    exact absurd h hvar

theorem mem_dataVars {gdes : ℕ → GraphDesc} {rpnp : List RpnNode} (hn : n ∈ rpnp) (h : n.TakesData gdes) :
    n.ptr ∈ dataVars gdes rpnp :=
  List.mem_map_of_mem (List.mem_filter.mpr ⟨hn, decide_eq_true h⟩)

/-- Where a node of a `CDEF` that reads data comes from. -/
theorem cdefJob_node {rpi : ℕ} (hn : (cdefJob env im k).prog[rpi]? = some n) (hop : n.op.IsVar) :
    ∃ m ∈ (im.gdes k).rpnp, m.TakesData im.gdes ∧
      n = { m with arr := m.ptr, dsCnt := (im.gdes m.ptr).dsCnt, step := (im.gdes m.ptr).step } := by
  have hprog : (cdefJob env im k).prog = (im.gdes k).rpnp.map (bindNode im.gdes) := by
    rw [cdefJob, scanNodes_eq]
  rw [hprog, List.getElem?_map] at hn
  obtain ⟨m, hm, rfl⟩ := Option.map_eq_some_iff.mp hn
  obtain ⟨hdata, hbind⟩ := bindNode_isVar hop
  exact ⟨m, List.mem_of_getElem? hm, hdata, hbind⟩

section Job

variable (h : im.ValidFrom k) (hk : k < im.gdesC) (hcdef : (im.gdes k).gf = .cdef)
  (hvars : dataVars im.gdes (im.gdes k).rpnp ≠ [])

include h hk hcdef hvars

theorem cdefJob_step (env : GraphEnv) : 0 < (cdefJob env im k).step ∧
    IsGreatest {m : ℕ | ∀ i ∈ dataVars im.gdes (im.gdes k).rpnp, m ∣ (im.gdes i).step} (cdefJob env im k).step := by
  have hstep : (cdefJob env im k).step = lcd ((dataVars im.gdes (im.gdes k).rpnp).map fun i => (im.gdes i).step) := by
    rw [cdefJob, scanNodes_eq]
  have hlcd := @lcd_isGreatest ((dataVars im.gdes (im.gdes k).rpnp).map fun i => (im.gdes i).step)
    (fun hnil => hvars (List.map_eq_nil_iff.mp hnil)) (by
      rw [List.forall_mem_map]
      exact fun i hi => (regular_of_mem_dataVars h hk hcdef hi).step)
  simp only [List.forall_mem_map] at hlcd
  rw [hstep]
  exact hlcd

/-- The start is that of a variable, or zero. -/
theorem cdefJob_start_dvd (env : GraphEnv) : ((cdefJob env im k).step : ℤ) ∣ (cdefJob env im k).start := by
  obtain ⟨-, hdvd, -⟩ := cdefJob_step h hk hcdef hvars env
  have hstart : (cdefJob env im k).start =
      Extent.latest ((dataVars im.gdes (im.gdes k).rpnp).map fun i => (im.gdes i).start) := by
    rw [cdefJob, scanNodes_eq]
  rw [hstart]
  rcases (Extent.latest_spec ((dataVars im.gdes (im.gdes k).rpnp).map fun i => (im.gdes i).start)).1 with hzero | hmem
  · rw [hzero]
    exact dvd_zero _
  · obtain ⟨i, hi, heq⟩ := List.mem_map.mp hmem
    rw [← heq]
    exact (Int.natCast_dvd_natCast.mpr (hdvd i hi)).trans (regular_of_mem_dataVars h hk hcdef hi).start

/-- The end is that of a variable. -/
theorem cdefJob_stop_dvd (env : GraphEnv) : ((cdefJob env im k).step : ℤ) ∣ (cdefJob env im k).stop := by
  obtain ⟨-, hdvd, -⟩ := cdefJob_step h hk hcdef hvars env
  have hstop : (cdefJob env im k).stop =
      Extent.earliest ((dataVars im.gdes (im.gdes k).rpnp).map fun i => (im.gdes i).stop) := by
    rw [cdefJob, scanNodes_eq]
  have hmem := Extent.earliest_mem (l := (dataVars im.gdes (im.gdes k).rpnp).map fun i => (im.gdes i).stop)
    fun hnil => hvars (List.map_eq_nil_iff.mp hnil)
  obtain ⟨i, hi, heq⟩ := List.mem_map.mp hmem
  rw [hstop, ← heq]
  exact (Int.natCast_dvd_natCast.mpr (hdvd i hi)).trans (regular_of_mem_dataVars h hk hcdef hi).stop

/-- **A `CDEF` of a graph is set up** as its rows need it. -/
theorem cdefJob_bound (env : GraphEnv) : (cdefJob env im k).Bound im.gdes := by
  obtain ⟨hstep, hdvd, -⟩ := cdefJob_step h hk hcdef hvars env
  refine ⟨hstep, cdefJob_start_dvd h hk hcdef hvars env, fun arr i => rfl, rfl, ?_⟩
  intro rpi n hn hop
  have hstart : (cdefJob env im k).start =
      Extent.latest ((dataVars im.gdes (im.gdes k).rpnp).map fun i => (im.gdes i).start) := by
    rw [cdefJob, scanNodes_eq]
  have hinit : (cdefJob env im k).init.stack.data rpi = startPos im.gdes (cdefJob env im k).start n := by
    have hn' : (scanNodes im.gdes (im.gdes k).rpnp).prog[rpi]? = some n := hn
    simp only [cdefJob, hn', if_pos hop]
  obtain ⟨m, hmem, hdata, rfl⟩ := cdefJob_node hn hop
  have hvar := mem_dataVars hmem hdata
  have hregular := h.dataVar hk hcdef hmem hdata
  refine ⟨hregular, rfl, rfl, rfl, Int.natCast_dvd_natCast.mpr (hdvd _ hvar), ?_, hinit⟩
  rw [hstart]
  exact Extent.le_latest (List.mem_map_of_mem hvar)

end Job

/-- **One element changes**, which may be the next one, and stays regular. -/
theorem ImageDesc.ValidFrom.update (h : im.ValidFrom k) (hk : k < im.gdesC) {m : ℕ} (hm : m ≤ k) {g : GraphDesc}
    (hgf : g.gf = (im.gdes m).gf) (hregular : g.gf = .gfDef ∨ g.gf = .cdef → g.Regular)
    (hvdef : g.gf = .vdef → g.dsCnt = 0) (hnext : (im.gdes k).gf = .cdef ∨ (im.gdes k).gf = .vdef → m = k)
    {stack : RpnStack} : ImageDesc.ValidFrom ⟨Function.update im.gdes m g, im.gdesC, stack⟩ (k + 1) := by
  have hsame : ∀ i, (Function.update im.gdes m g i).gf = (im.gdes i).gf := by
    intro i
    by_cases hi : i = m
    · rw [hi, Function.update_self, hgf]
    · rw [Function.update_of_ne hi]
  have hbehind : ∀ i, k + 1 ≤ i → Function.update im.gdes m g i = im.gdes i := fun i hi =>
    Function.update_of_ne (by omega) ..
  refine ⟨fun i hi hkind => ?_, fun i hi hkind => ?_, fun i hki hi hkind => ?_, fun i hki hi hkind => ?_⟩
  · rw [hsame] at hkind
    by_cases him : i = m
    · subst him
      dsimp only
      rw [Function.update_self]
      exact hregular (by rw [hgf]; exact hkind.imp_right And.left)
    · dsimp only
      rw [Function.update_of_ne him]
      refine h.regular i hi (hkind.imp_right fun ⟨hc, hlt⟩ => ⟨hc, ?_⟩)
      have hne : i ≠ k := by
        rintro rfl
        exact him (hnext (.inl hc)).symm
      omega
  · rw [hsame] at hkind
    dsimp only
    by_cases him : i = m
    · rw [him, Function.update_self]
      exact hvdef (by rw [hgf, ← him, hkind])
    · rw [Function.update_of_ne him]
      refine h.vdef i ?_ hkind
      have hne : i ≠ k := by
        rintro rfl
        exact him (hnext (.inr hkind)).symm
      omega
  · rw [hsame] at hkind
    dsimp only
    rw [hbehind i hki]
    obtain ⟨hshift, hnodes⟩ := h.cdef i (by omega) hi hkind
    refine ⟨hshift, fun n hn hop => ?_⟩
    obtain ⟨hlt, hnamed⟩ := hnodes n hn hop
    refine ⟨hlt, ?_⟩
    rw [GraphDesc.IsNamed, hsame]
    exact hnamed
  · rw [hsame] at hkind
    dsimp only
    rw [hbehind i hki, hsame]
    exact h.shifted i (by omega) hi hkind

/-- A `SHIFT` moves by whole rows. -/
theorem regular_shift {v : GraphDesc} (hv : v.Regular) (z : ℤ) :
    GraphDesc.Regular { v with
      start := v.start - v.shift + z.tdiv v.step * v.step
      stop := v.stop - v.shift + z.tdiv v.step * v.step
      shift := z.tdiv v.step * v.step } := by
  have hmul : (v.step : ℤ) ∣ z.tdiv v.step * v.step := Dvd.intro_left _ rfl
  refine ⟨hv.step, (hv.start.sub hv.shift).add hmul, (hv.stop.sub hv.shift).add hmul, hmul, hv.ds, fun hle => ?_⟩
  dsimp only at hle ⊢
  rw [hv.rows (by omega)]
  congr 1
  ring

theorem validFrom_applyShift (h : im.ValidFrom k) (hk : k < im.gdesC) (hshift : (im.gdes k).gf = .shift) :
    (applyShift im k).ValidFrom (k + 1) := by
  obtain ⟨hlt, hkind⟩ := h.shifted k le_rfl hk hshift
  have hregular : (im.gdes (im.gdes k).vidx).Regular :=
    h.regular _ (hlt.trans hk) (hkind.imp_right fun hc => ⟨hc, hlt⟩)
  rw [applyShift]
  refine h.update hk hlt.le ?_ (fun _ => ?_) (fun hv => ?_) (fun hnext => ?_)
  · rfl
  · exact regular_shift hregular _
  · change (im.gdes (im.gdes k).vidx).gf = .vdef at hv
    rw [hv] at hkind
    exact absurd hkind (by decide)
  · rw [hshift] at hnext
    exact absurd hnext (by decide)

theorem validFrom_calcVdef (h : im.ValidFrom k) (hk : k < im.gdesC) (hvdef : (im.gdes k).gf = .vdef)
    (hrun : calcVdef env im k = .ok im') : im'.ValidFrom (k + 1) ∧ im'.gdesC = im.gdesC := by
  rw [calcVdef] at hrun
  dsimp only at hrun
  cases hval : env.vdefCalc (Function.update im.gdes k { im.gdes k with dsCnt := 0 }) k with
  | none => simp [hval] at hrun
  | some val =>
    simp only [hval] at hrun
    obtain rfl := Except.ok.inj hrun
    refine ⟨?_, rfl⟩
    rw [Function.update_idem, Function.update_self]
    refine h.update hk le_rfl ?_ (fun hkind => ?_) (fun _ => ?_) fun _ => rfl
    · rfl
    · change (im.gdes k).gf = .gfDef ∨ (im.gdes k).gf = .cdef at hkind
      rw [hvdef] at hkind
      exact absurd hkind (by decide)
    · rfl

/-- What `calcCdef` makes of an element. -/
theorem calcCdef_eq_ok (hrun : calcCdef env im k = .ok im') :
    dataVars im.gdes (im.gdes k).rpnp ≠ [] ∧ ∃ s, (cdefJob env im k).run = .ok s ∧
      im' = ⟨Function.update im.gdes k
        { im.gdes k with
          rpnp := (cdefJob env im k).prog, dsCnt := 1, ds := 0, start := (cdefJob env im k).start
          stop := (cdefJob env im k).stop, step := (cdefJob env im k).step
          rows := rowCount (cdefJob env im k).start (cdefJob env im k).stop (cdefJob env im k).step
          data := fun i => if 0 ≤ i then s.output i.toNat else (im.gdes k).data i }, im.gdesC, s.stack⟩ := by
  rw [calcCdef] at hrun
  dsimp only at hrun
  by_cases hsteps : (scanNodes im.gdes (im.gdes k).rpnp).steps = []
  · rw [if_pos hsteps] at hrun
    exact absurd hrun (by simp)
  rw [if_neg hsteps] at hrun
  split_ifs at hrun
  cases hjob : (cdefJob env im k).run with
  | fail e s => simp [hjob] at hrun
  | ok s =>
    simp only [hjob] at hrun
    refine ⟨fun hnil => hsteps ?_, s, rfl, (Except.ok.inj hrun).symm⟩
    rw [scanNodes_eq, hnil]
    rfl

theorem rowCount_eq {start stop : ℤ} {step : ℕ} (hle : start ≤ stop) :
    (rowCount start stop step : ℤ) = (stop - start) / step := by
  rw [rowCount, if_pos hle, Int.toNat_of_nonneg]
  exact Int.ediv_nonneg (by omega) (Int.natCast_nonneg _)

theorem validFrom_calcCdef (h : im.ValidFrom k) (hk : k < im.gdesC) (hcdef : (im.gdes k).gf = .cdef)
    (hrun : calcCdef env im k = .ok im') : im'.ValidFrom (k + 1) ∧ im'.gdesC = im.gdesC := by
  obtain ⟨hvars, s, -, rfl⟩ := calcCdef_eq_ok hrun
  refine ⟨h.update hk le_rfl ?_ (fun _ => ?_) (fun hkind => ?_) fun _ => rfl, rfl⟩
  · rfl
  · refine ⟨(cdefJob_step h hk hcdef hvars env).1, cdefJob_start_dvd h hk hcdef hvars env,
      cdefJob_stop_dvd h hk hcdef hvars env, ?_, Nat.one_pos, rowCount_eq⟩
    change ((cdefJob env im k).step : ℤ) ∣ (im.gdes k).shift
    rw [(h.cdef k le_rfl hk hcdef).1]
    exact dvd_zero _
  · change (im.gdes k).gf = .vdef at hkind
    rw [hcdef] at hkind
    exact absurd hkind (by decide)

/-- **One element.** -/
theorem validFrom_calcEntry (h : im.ValidFrom k) (hk : k < im.gdesC) (hrun : calcEntry env im k = .ok im') :
    im'.ValidFrom (k + 1) ∧ im'.gdesC = im.gdesC := by
  have hkeep (hc : (im.gdes k).gf ≠ .cdef) (hv : (im.gdes k).gf ≠ .vdef) : im.ValidFrom (k + 1) := by
    have hsame := @ImageDesc.ValidFrom.update im k h hk k le_rfl (im.gdes k) rfl
      (fun hkind => h.regular k hk (hkind.imp_right fun hcdef => absurd hcdef hc)) (fun hvdef => absurd hvdef hv)
      (fun hnext => hnext.elim (fun h' => absurd h' hc) fun h' => absurd h' hv) im.stack
    rwa [Function.update_eq_self] at hsame
  rw [calcEntry] at hrun
  cases hgf : (im.gdes k).gf with
  | shift =>
    simp only [hgf] at hrun
    obtain rfl := Except.ok.inj hrun
    exact ⟨validFrom_applyShift h hk hgf, rfl⟩
  | vdef =>
    simp only [hgf] at hrun
    exact validFrom_calcVdef h hk hgf hrun
  | cdef =>
    simp only [hgf] at hrun
    exact validFrom_calcCdef h hk hgf hrun
  | gfDef =>
    simp only [hgf] at hrun
    obtain rfl := Except.ok.inj hrun
    exact ⟨hkeep (by simp [hgf]) (by simp [hgf]), rfl⟩
  | other =>
    simp only [hgf] at hrun
    obtain rfl := Except.ok.inj hrun
    exact ⟨hkeep (by simp [hgf]) (by simp [hgf]), rfl⟩

/-- **All elements so far.** -/
theorem validFrom_calcEntries (h : im.ValidFrom 0) (hk : k ≤ im.gdesC) (hrun : calcEntries env k im = .ok im') :
    im'.ValidFrom k ∧ im'.gdesC = im.gdesC := by
  induction k generalizing im' with
  | zero =>
    obtain rfl := Except.ok.inj hrun
    exact ⟨h, rfl⟩
  | succ k ih =>
    obtain ⟨im₁, hrun₁, hentry⟩ := bind_eq_ok.mp hrun
    obtain ⟨hvalid, hcount⟩ := ih (by omega) hrun₁
    obtain ⟨hvalid', hcount'⟩ := validFrom_calcEntry hvalid (by omega) hentry
    exact ⟨hvalid', hcount'.trans hcount⟩

/-! ## When the rows are those of the variables -/

/-- **The row of a time**: the row of `v` whose interval contains it is inside of the data of `v`, and its value is
at this index. -/
def GraphDesc.ReadsRow (v : GraphDesc) (now pos : ℤ) : Prop :=
  ∃ row : ℕ, row < v.rows ∧ v.start + row * v.step < now ∧ now ≤ v.start + (row + 1) * v.step ∧
    pos = v.ds + row * v.dsCnt

/-- **A `CDEF` is aligned with its variables**: its step is their greatest common divisor, it runs from the latest
start to the earliest end, and every `OP_VARIABLE` reads the row of its variable that the time is in. -/
structure Aligned (env : GraphEnv) (im : ImageDesc) (k : ℕ) (g : GraphDesc) : Prop where
  step : IsGreatest {m : ℕ | ∀ i ∈ dataVars im.gdes (im.gdes k).rpnp, m ∣ (im.gdes i).step} g.step
  start : IsGreatest {t | ∃ i ∈ dataVars im.gdes (im.gdes k).rpnp, (im.gdes i).start = t} g.start
  stop : IsLeast {t | ∃ i ∈ dataVars im.gdes (im.gdes k).rpnp, (im.gdes i).stop = t} g.stop
  rows : g.start ≤ g.stop → (g.rows : ℤ) = (g.stop - g.start) / g.step ∧
    ∃ s, (cdefJob env im k).run = .ok s ∧ s.idx = g.rows
  reads : ∀ j s rpi n c c', (cdefJob env im k).now j ≤ g.stop → (cdefJob env im k).rowsRun j = .ok s →
    rpnRun (cdefJob env im k).env (CdefJob.call ((cdefJob env im k).now j) s) (cdefJob env im k).prog rpi
      s.stack.state = .ok c →
    (cdefJob env im k).prog[rpi]? = some n → n.op = .variable →
    rpnPass (cdefJob env im k).env (CdefJob.call ((cdefJob env im k).now j) s) (cdefJob env im k).prog rpi c =
      .ok c' →
    ∃ pos, (im.gdes n.ptr).ReadsRow ((cdefJob env im k).now j) pos ∧ c'.reads = (rpi, pos) :: c.reads ∧
      c'.cells c'.stptr = (im.gdes n.ptr).data pos

/-- **The times that the loop over the nodes takes right**: a start that is not negative, and no end of zero
that another end follows. -/
def CdefFits (gdes : ℕ → GraphDesc) (vars : List ℕ) : Prop :=
  (∃ i ∈ vars, 0 ≤ (gdes i).start) ∧
    (¬ IsLeast {t | ∃ i ∈ vars, (gdes i).stop = t} 0 ∨ ∃ i ∈ vars.getLast?, (gdes i).stop = 0)

/-- What an `OP_VARIABLE` reads. -/
theorem rpnPass_variable {env : RpnEnv} {call : RpnCall} {prog : List RpnNode} {rpi : ℕ} {c c' : RpnState}
    (hn : prog[rpi]? = some n) (hop : n.op = .variable) (h : rpnPass env call prog rpi c = .ok c') :
    c'.reads = (rpi, c.data rpi) :: c.reads ∧ c'.cells c'.stptr = env.mem n.arr (c.data rpi) := by
  obtain ⟨size, hpass⟩ := rpnPass_eq_ok hn h
  rw [rpnOp] at hpass
  simp only [hop] at hpass
  rw [opVariable] at hpass
  by_cases hcnt : n.dsCnt = 0
  · rw [if_pos hcnt] at hpass
    exact absurd hpass (by simp)
  rw [if_neg hcnt] at hpass
  dsimp only at hpass
  rw [if_pos hop] at hpass
  by_cases hstep : n.step = 0
  · rw [if_pos hstep] at hpass
    exact absurd hpass (by simp)
  rw [if_neg hstep] at hpass
  have hpushed : Function.update c.cells (c.stptr + 1) (env.mem n.arr (c.data rpi)) (c.stptr + 1) =
      env.mem n.arr (c.data rpi) := Function.update_self ..
  split_ifs at hpass
  · obtain rfl := Outcome.ok.inj hpass
    exact ⟨rfl, hpushed⟩
  · obtain rfl := Outcome.ok.inj hpass
    exact ⟨rfl, hpushed⟩

/-- The row that the pointer is in, for a time in the data of the variable. -/
theorem CdefJob.Bound.readsRow {job : CdefJob} {gdes : ℕ → GraphDesc} (hb : job.Bound gdes) {rpi : ℕ}
    (hn : job.prog[rpi]? = some n) (hop : n.op.IsVar) {j : ℕ} (hj : job.now j ≤ (gdes n.ptr).stop) :
    (gdes n.ptr).ReadsRow (job.now j)
      ((gdes n.ptr).ds + (gdes n.ptr).rowAt (job.start + j * job.step) * (gdes n.ptr).dsCnt) := by
  obtain ⟨hv, -, -, -, hdvd, hle, -⟩ := hb.node hn hop
  generalize gdes n.ptr = v at hj hv hdvd hle ⊢
  have hg : (0 : ℤ) < job.step := by exact_mod_cast hb.step
  have hs : (0 : ℤ) < v.step := by exact_mod_cast hv.step
  have hgt : (job.step : ℤ) ∣ job.start + j * job.step := Int.dvd_add hb.start (Dvd.intro_left _ rfl)
  obtain ⟨a, ha⟩ := hv.start
  obtain ⟨b, hstop⟩ := hv.stop
  have hstart : v.start / v.step = a := by rw [ha, Int.mul_ediv_cancel_left a hs.ne']
  have hlo := Grid.lt_next hg hs (job.start + j * job.step)
  have hhi := Grid.next_le hs hdvd hgt
  rw [← CdefJob.now_eq] at hlo hhi
  -- the first row of the data is not behind the time
  have hrow : 0 ≤ v.rowAt (job.start + j * job.step) := by
    rw [GraphDesc.rowAt, sub_nonneg]
    refine Int.ediv_le_ediv hs (hle.trans ?_)
    have : 0 ≤ (j : ℤ) * job.step := by positivity
    omega
  obtain ⟨row, hrow'⟩ := Int.eq_ofNat_of_zero_le hrow
  have heq : (job.start + j * job.step) / v.step = a + row := by
    rw [GraphDesc.rowAt, hstart] at hrow'
    omega
  rw [heq] at hlo hhi
  rw [hrow']
  refine ⟨row, ?_, ?_, ?_, rfl⟩
  · -- and neither is the last one in front of it
    have hlt : a + row < b := by
      have : (a + row) * v.step < b * v.step := by
        rw [mul_comm b, ← hstop]
        exact hlo.trans_le hj
      exact lt_of_mul_lt_mul_right this hs.le
    have hwindow : v.start ≤ v.stop := by
      rw [ha, hstop]
      exact mul_le_mul_of_nonneg_left (by omega) hs.le
    have hrows := hv.rows hwindow
    rw [ha, hstop, ← mul_sub, Int.mul_ediv_cancel_left _ hs.ne'] at hrows
    omega
  · rw [ha]
    linarith
  · rw [ha]
    linarith

theorem isGreatest_start_iff {gdes : ℕ → GraphDesc} {vars : List ℕ} (t : ℤ) :
    IsGreatest {t | ∃ i ∈ vars, (gdes i).start = t} t ↔ IsGreatest {t | t ∈ vars.map fun i => (gdes i).start} t := by
  simp only [List.mem_map]

theorem isLeast_stop_iff {gdes : ℕ → GraphDesc} {vars : List ℕ} (t : ℤ) :
    IsLeast {t | ∃ i ∈ vars, (gdes i).stop = t} t ↔ IsLeast {t | t ∈ vars.map fun i => (gdes i).stop} t := by
  simp only [List.mem_map]

theorem start_found_iff {gdes : ℕ → GraphDesc} {vars : List ℕ} :
    IsGreatest {t | ∃ i ∈ vars, (gdes i).start = t} (Extent.latest (vars.map fun i => (gdes i).start)) ↔
      ∃ i ∈ vars, 0 ≤ (gdes i).start := by
  rw [isGreatest_start_iff, Extent.isGreatest_latest_iff]
  simp

theorem stop_found_iff {gdes : ℕ → GraphDesc} {vars : List ℕ} (hne : vars ≠ []) :
    IsLeast {t | ∃ i ∈ vars, (gdes i).stop = t} (Extent.earliest (vars.map fun i => (gdes i).stop)) ↔
      ¬ IsLeast {t | ∃ i ∈ vars, (gdes i).stop = t} 0 ∨ ∃ i ∈ vars.getLast?, (gdes i).stop = 0 := by
  rw [isLeast_stop_iff, isLeast_stop_iff, Extent.isLeast_earliest_iff fun hnil => hne (List.map_eq_nil_iff.mp hnil),
    List.getLast?_map]
  simp

/-- An element without times or nodes. -/
def blankDesc (gf : Gf) : GraphDesc where
  gf := gf
  vidx := 0
  shidx := none
  shval := 0
  shift := 0
  vfVal := dnan
  rpnp := []
  start := 0
  stop := 0
  step := 300
  dsCnt := 1
  ds := 0
  rows := 0
  data := fun _ => .num 1

/-- `DEF:a=..` with two rows -/
def twoRows : GraphDesc := { blankDesc .gfDef with start := 300, stop := 900, rows := 2 }

/-- `DEF:a=..` from 300 to 900 in steps of 300, `SHIFT:a:z`, `CDEF:b=a`. -/
def shiftedGraph (z : ℤ) : ImageDesc where
  gdes := fun i =>
    if i = 0 then twoRows
    else if i = 1 then { blankDesc .shift with shval := z }
    else { blankDesc .cdef with rpnp := [⟨⟨.variable, .num 0, 0⟩, 0, 0, 0⟩] }
  gdesC := 3
  stack := ⟨fun _ => dnan, fun _ => false, 0, fun _ => 0⟩

/-- An environment in which there is memory. -/
def plainEnv : GraphEnv where
  libm := ⟨id, id, id, id, id, id, fun a _ => a, .num 0, .num 0⟩
  tzoffset := fun _ => 0
  realloc := fun _ => true
  malloc := fun _ => true
  vdefCalc := fun _ _ => none

theorem twoRows_regular : twoRows.Regular :=
  ⟨by decide, by decide, by decide, by decide, by decide, fun _ => by decide⟩

theorem shiftedGraph_valid (z : ℤ) : (shiftedGraph z).Valid := by
  have hgf : ∀ i, i < 3 → i = 0 ∨ i = 1 ∨ i = 2 := by omega
  refine ⟨⟨?_, fun i hi => absurd hi (Nat.not_lt_zero i), ?_, ?_⟩, ?_⟩
  · intro i hi hkind
    rcases hgf i hi with rfl | rfl | rfl
    · exact twoRows_regular
    · rcases hkind with hkind | ⟨hkind, -⟩
      · cases hkind
      · cases hkind
    · rcases hkind with hkind | ⟨-, hlt⟩
      · cases hkind
      · exact absurd hlt (Nat.not_lt_zero 2)
  · intro i _ hi hkind
    rcases hgf i hi with rfl | rfl | rfl
    · cases hkind
    · cases hkind
    · refine ⟨rfl, fun n hn _ => ?_⟩
      obtain rfl : n = ⟨⟨.variable, .num 0, 0⟩, 0, 0, 0⟩ := List.mem_singleton.mp hn
      exact ⟨by decide, .inl rfl⟩
  · intro i _ hi hkind
    rcases hgf i hi with rfl | rfl | rfl
    · cases hkind
    · exact ⟨Nat.one_pos, .inl rfl⟩
    · cases hkind
  · intro i hi hkind
    rcases hgf i hi with rfl | rfl | rfl
    · exact (show 0 < twoRows.start ∧ 0 < twoRows.stop by decide)
    · cases hkind
    · cases hkind

/-- A `CDEF` whose rows can all be calculated is calculated. -/
theorem exists_calcCdef (hvars : dataVars im.gdes (im.gdes k).rpnp ≠ [])
    (hmalloc : env.malloc (rowCount (cdefJob env im k).start (cdefJob env im k).stop (cdefJob env im k).step) = true)
    (hstep : 0 < (cdefJob env im k).step)
    (hok : ((cdefJob env im k).rowsRun (cdefJob env im k).rows).isOk = true) :
    ∃ im', calcCdef env im k = .ok im' := by
  have hsteps : (scanNodes im.gdes (im.gdes k).rpnp).steps ≠ [] := by
    rw [scanNodes_eq]
    exact fun hnil => hvars (List.map_eq_nil_iff.mp hnil)
  rw [calcCdef]
  dsimp only
  rw [if_neg hsteps, if_neg (by rw [hmalloc]; decide), CdefJob.run_eq hstep, Outcome.eq_ok_state hok]
  exact ⟨_, rfl⟩

end Rrdtool
