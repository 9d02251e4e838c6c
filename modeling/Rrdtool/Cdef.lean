import Rrdtool.Rpn
import Mathlib.Algebra.Order.Ring.Int

/-!
# Parsing `COMPUTE` data sources

`rpn_parse` reads a program, `rpn_compact` packs it into the `par` array of a DS definition, and
`parseCDEF_DS` puts the two together. A node of the packed form keeps a constant, or the index of
the DS it names, in a `short`.
-/

namespace Rrdtool

/-- The characters of `DS_NAM_FMT` and `DEF_NAM_FMT`. -/
def isNameChar (c : Char) : Bool := CStr.isalpha c || CStr.isdigit c || c = '_' || c = '-'

/-- `DS_CDEF_MAX_RPN_NODES`: 80 bytes hold twenty nodes, with the `OP_END`. -/
def dsCdefMaxRpnNodes : ℕ := 20

/-- The operators `match_op` knows. They are compared up to the next comma, so their order does
not matter. -/
def opNames : List (String × Op) :=
  [("+", .add), ("-", .sub), ("*", .mul), ("/", .div), ("%", .mod), ("SIN", .sin), ("COS", .cos),
   ("LOG", .log), ("FLOOR", .floor), ("CEIL", .ceil), ("EXP", .exp), ("DUP", .dup), ("EXC", .exc),
   ("POP", .pop), ("LTIME", .ltime), ("LT", .lt), ("LE", .le), ("GT", .gt), ("GE", .ge),
   ("EQ", .eq), ("IF", .cond), ("MIN", .min), ("MAX", .max), ("LIMIT", .limit), ("UNKN", .unkn),
   ("UN", .un), ("NEGINF", .neginf), ("NE", .ne), ("COUNT", .count), ("PREV", .prev),
   ("INF", .inf), ("ISINF", .isinf), ("NOW", .now), ("TIME", .time), ("ATAN2", .atan2),
   ("ATAN", .atan), ("SQRT", .sqrt), ("SORT", .sort), ("REV", .rev), ("TREND", .trend),
   ("TRENDNAN", .trendnan), ("PREDICT", .predict), ("PREDICTSIGMA", .predictsigma),
   ("RAD2DEG", .rad2deg), ("DEG2RAD", .deg2rad), ("AVG", .avg), ("ABS", .abs),
   ("ADDNAN", .addnan)]

/-- `match_op`: the operator whose name is the text up to the next comma. -/
def matchOp (expr : Text) : Option (Op × Text) :=
  let word := expr.takeWhile (· ≠ ',')
  (opNames.find? fun p => p.1.toList = word).map fun p => (p.2, expr.drop word.length)

/-- One pass of the loop of `rpn_parse`: a node, and what is left of the expression. -/
def rpnParseNode (lookup : Text → Option ℕ) (expr : Text) : Option (Rpnp × Text) :=
  let number := (CStr.scanDouble expr).filter fun p => p.2.head? = some ','
  match number, (CStr.scanWord "PREV(".toList expr).bind (CStr.scanSet 255 isNameChar) with
  | some (v, rest), _ => some (⟨.number, v, 0⟩, rest)
  | none, some (vname, rest) =>
    -- `sscanf` does not say whether it has seen the closing bracket
    match rest with
    | [] => none
    | _ :: rest =>
      if rest.head? = some ',' ∨ rest = [] then
        (lookup vname).map fun ptr => (⟨.prevOther, .num 0, ptr⟩, rest)
      else none
  | none, none =>
    match matchOp expr, CStr.scanSet 255 isNameChar expr with
    | some (op, rest), _ => some (⟨op, .num 0, 0⟩, rest)
    | none, some (vname, rest) => (lookup vname).map fun ptr => (⟨.variable, .num 0, ptr⟩, rest)
    | none, none => none

/-- The loop of `rpn_parse`. Every pass but the last takes a comma, so the length of the
expression is fuel enough. -/
def rpnParseLoop (lookup : Text → Option ℕ) : ℕ → Text → Option (List Rpnp)
  | _, [] => some []
  | 0, _ :: _ => none
  | fuel + 1, expr =>
    (rpnParseNode lookup expr).bind fun (n, rest) =>
      match rest with
      | [] => some [n]
      | c :: rest => if c = ',' then (rpnParseLoop lookup fuel rest).map (n :: ·) else none

/-- `rpn_parse`. An empty expression leaves `rpnp` a null pointer, which is written through. -/
def rpnParse (lookup : Text → Option ℕ) (expr : Text) : Option (List Rpnp) :=
  if expr = [] then none else rpnParseLoop lookup expr.length expr

/-- The errors of `parseCDEF_DS`. -/
inductive CdefError : Type where
  /-- `failed to parse computed data source` -/
  | parse
  /-- `operators TIME, LTIME, PREV COUNT TREND TRENDNAN PREDICT PREDICTSIGMA are not supported
  with DS COMPUTE` -/
  | operator
  /-- `Maximum %d RPN nodes permitted. Got %d RPN nodes at present.` -/
  | nodes (permitted got : ℕ)
  /-- `constants must be integers in the interval (%d, %d)` -/
  | constant
  deriving DecidableEq

/-- The loop of `rpn_compact`: constants are rounded down, indices are cut down to a `short`. -/
def compactNode (n : Rpnp) : Except CdefError RpnCdefds :=
  match n.op with
  | .number =>
    let temp := n.val.floor
    if temp.lt (.num (-32768)) || Dbl.lt (.num 32767) temp then .error .constant
    -- a NaN passes the comparisons and is cut down to zero
    else .ok ⟨.number, temp.toInt 0⟩
  | .variable => .ok ⟨.variable, (n.ptr : ℤ).bmod (2 ^ 16)⟩
  | .prevOther => .ok ⟨.prevOther, (n.ptr : ℤ).bmod (2 ^ 16)⟩
  | op => .ok ⟨op, 0⟩

/-- `rpn_compact`. -/
def rpnCompact (prog : List Rpnp) : Except CdefError (List RpnCdefds) :=
  if dsCdefMaxRpnNodes < prog.length + 1 then
    .error (.nodes (dsCdefMaxRpnNodes - 1) prog.length)
  else prog.mapM compactNode

/-- The operators that `parseCDEF_DS` refuses. -/
def notInCompute : List Op :=
  [.time, .ltime, .prev, .count, .trend, .trendnan, .predict, .predictsigma]

/-- `parseCDEF_DS`, with the lookup of a DS name. -/
def parseCdefDs (lookup : Text → Option ℕ) (expr : Text) : Except CdefError (List RpnCdefds) :=
  match rpnParse lookup expr with
  | none => .error .parse
  | some prog =>
    if prog.any fun n => notInCompute.contains n.op then .error .operator else rpnCompact prog

/-! ## What a stored program looks like -/

variable {lookup : Text → Option ℕ}

/-- A node that names a DS has found it. -/
theorem rpnParseNode_ptr {expr rest : Text} {n : Rpnp}
    (h : rpnParseNode lookup expr = some (n, rest)) :
    n.op = .variable ∨ n.op = .prevOther → ∃ name, lookup name = some n.ptr := by
  simp only [rpnParseNode] at h
  split at h
  · obtain ⟨rfl, -⟩ := Prod.mk.inj (Option.some.inj h)
    simp
  · split at h
    · exact absurd h (by simp)
    · split_ifs at h
      obtain ⟨ptr, hptr, hn⟩ := Option.map_eq_some_iff.mp h
      obtain ⟨rfl, -⟩ := Prod.mk.inj hn
      exact fun _ => ⟨_, hptr⟩
  · split at h
    · rename_i op rest' hop
      obtain ⟨rfl, -⟩ := Prod.mk.inj (Option.some.inj h)
      -- no operator of the table names a DS
      obtain ⟨p, hp, hpe⟩ := Option.map_eq_some_iff.mp hop
      obtain ⟨rfl, -⟩ := Prod.mk.inj hpe
      have hall : ∀ p ∈ opNames, p.2 ≠ .variable ∧ p.2 ≠ .prevOther := by decide
      have := hall p (List.mem_of_find?_eq_some hp)
      exact fun h => h.elim (absurd · this.1) (absurd · this.2)
    · obtain ⟨ptr, hptr, hn⟩ := Option.map_eq_some_iff.mp h
      obtain ⟨rfl, -⟩ := Prod.mk.inj hn
      exact fun _ => ⟨_, hptr⟩
    · exact absurd h (by simp)

theorem rpnParseLoop_ptr {fuel : ℕ} {expr : Text} {prog : List Rpnp}
    (h : rpnParseLoop lookup fuel expr = some prog) :
    ∀ n ∈ prog, n.op = .variable ∨ n.op = .prevOther → ∃ name, lookup name = some n.ptr := by
  induction fuel generalizing expr prog with
  | zero =>
    cases expr with
    | nil =>
      obtain rfl := Option.some.inj h
      simp
    | cons c expr => exact absurd h (by simp [rpnParseLoop])
  | succ fuel ih =>
    cases expr with
    | nil =>
      obtain rfl := Option.some.inj h
      simp
    | cons c expr =>
      obtain ⟨⟨n, rest⟩, hn, h⟩ := Option.bind_eq_some_iff.mp h
      have hptr := rpnParseNode_ptr hn
      cases rest with
      | nil =>
        obtain rfl := Option.some.inj h
        simpa using hptr
      | cons c rest =>
        dsimp only at h
        split_ifs at h
        obtain ⟨prog', hprog, rfl⟩ := Option.map_eq_some_iff.mp h
        intro m hm
        rcases List.mem_cons.mp hm with rfl | hm
        · exact hptr
        · exact ih hprog m hm

/-- **A program of `n` data sources**: it fits into the `par` array, uses no operator that
`parseCDEF_DS` refuses, and the DSs it names are among the first `n`, up to the cut to a `short`. -/
structure CdefOk (n : ℕ) (prog : List RpnCdefds) : Prop where
  length : prog.length < dsCdefMaxRpnNodes
  op : ∀ c ∈ prog, c.op ∉ notInCompute
  named : ∀ c ∈ prog, c.op = .variable ∨ c.op = .prevOther →
    ∃ i, i < n ∧ c.val = (i : ℤ).bmod (2 ^ 16)

theorem compactNode_op {n : Rpnp} {c : RpnCdefds} (h : compactNode n = .ok c) :
    c.op = n.op ∧ (n.op = .variable ∨ n.op = .prevOther → c.val = (n.ptr : ℤ).bmod (2 ^ 16)) := by
  simp only [compactNode] at h
  cases hop : n.op <;> simp only [hop] at h
  case number =>
    split_ifs at h
    obtain rfl := Except.ok.inj h
    simp
  all_goals
    obtain rfl := Except.ok.inj h
    simp

theorem mem_of_mapM_compact {prog : List Rpnp} {out : List RpnCdefds}
    (h : prog.mapM compactNode = .ok out) :
    out.length = prog.length ∧ ∀ c ∈ out, ∃ n ∈ prog, compactNode n = .ok c := by
  induction prog generalizing out with
  | nil =>
    obtain rfl := Except.ok.inj h
    simp
  | cons n prog ih =>
    rw [List.mapM_cons] at h
    cases hc : compactNode n with
    | error e =>
      rw [hc] at h
      exact absurd h (by simp [bind, Except.bind])
    | ok c =>
      cases hm : prog.mapM compactNode with
      | error e =>
        rw [hc, hm] at h
        exact absurd h (by simp [bind, Except.bind])
      | ok cs =>
        rw [hc, hm] at h
        obtain rfl := Except.ok.inj h
        obtain ⟨hlen, hmem⟩ := ih hm
        refine ⟨by simp [hlen], fun c' hc' => ?_⟩
        rcases List.mem_cons.mp hc' with rfl | hc'
        · exact ⟨n, List.mem_cons_self, hc⟩
        · obtain ⟨m, hm, hmc⟩ := hmem c' hc'
          exact ⟨m, List.mem_cons_of_mem _ hm, hmc⟩

/-- **`parseCDEF_DS`** stores a program of the data sources it can look up. -/
theorem parseCdefDs_ok {n : ℕ} {expr : Text} {prog : List RpnCdefds}
    (hlookup : ∀ name i, lookup name = some i → i < n) (h : parseCdefDs lookup expr = .ok prog) :
    CdefOk n prog := by
  simp only [parseCdefDs] at h
  cases hp : rpnParse lookup expr with
  | none => simp [hp] at h
  | some nodes =>
    simp only [hp, rpnCompact] at h
    split_ifs at h with hops hlen
    obtain ⟨hout, hmem⟩ := mem_of_mapM_compact h
    have hptr : ∀ m ∈ nodes, m.op = .variable ∨ m.op = .prevOther →
        ∃ name, lookup name = some m.ptr := by
      simp only [rpnParse] at hp
      split_ifs at hp
      exact rpnParseLoop_ptr hp
    refine ⟨by omega, fun c hc => ?_, fun c hc hop => ?_⟩
    · obtain ⟨m, hm, hmc⟩ := hmem c hc
      rw [(compactNode_op hmc).1]
      simpa using fun hin => hops (List.any_eq_true.mpr ⟨m, hm, by simpa using hin⟩)
    · obtain ⟨m, hm, hmc⟩ := hmem c hc
      obtain ⟨hcop, hval⟩ := compactNode_op hmc
      rw [hcop] at hop
      obtain ⟨name, hname⟩ := hptr m hm hop
      exact ⟨m.ptr, hlookup name _ hname, hval hop⟩

end Rrdtool
