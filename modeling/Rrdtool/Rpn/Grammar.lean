import Rrdtool.Cdef
import Rrdtool.Lib.Scan

/-!
# The grammar of RPN expressions

`rpn_parse` with the accesses it makes to the expression and to the array of nodes, and what it makes of
an expression, as a list of tokens between commas.

* `rpnParseText` — the loop with its cascade of tests;
* `rpnParse_eq_some` — it finds the programs that `rpnParse` finds;
* `readPieces` — what it makes of the tokens, and `rpnParseText_eq`, that it does;
* `grammarHolds_iff` — the expressions on which it follows the documented grammar.
-/

namespace Rrdtool

open CStr

/-! ## `rpn_parse` on its memory -/

/-- An access of `rpn_parse` by an index of its own. -/
inductive ParseTouch : Type where
  /-- a character of what is left of the expression: the terminator is the one at index `len` -/
  | char (index len : ℕ)
  /-- a node of `rpnp`, with the number of nodes there is memory for -/
  | node (index alloc : ℕ)
  deriving DecidableEq

/-- The access is to the expression or its terminator, or to a node of the array. -/
def ParseTouch.Safe : ParseTouch → Prop
  | .char index len => index ≤ len
  | .node index alloc => index < alloc

/-- What `rpn_parse` makes of the front of the expression. -/
inductive TokenRead : Type where
  /-- a node, and what is left -/
  | node (n : Rpnp) (rest : Text)
  /-- it returns NULL -/
  | refused
  /-- it goes on with what is behind the terminator -/
  | overRead

/-- One test of the cascade: the accesses it makes, and the token if it applies. -/
abbrev TokenTest : Type := List ParseTouch × Option TokenRead

/-- `else if` -/
def TokenTest.orElse (a b : TokenTest) : TokenTest :=
  match a.2 with
  | some r => (a.1, some r)
  | none => (a.1 ++ b.1, b.2)

/-- `sscanf(expr, "%lf%n", ..) == 1 && expr[pos] == ','` -/
def testNumber (expr : Text) : TokenTest :=
  match scanDouble expr with
  | none => ([], none)
  | some (v, rest) =>
    ([.char (expr.length - rest.length) expr.length],
      if rest.head? = some ',' then some (.node ⟨.number, v, 0⟩ rest) else none)

/-- `match_op` -/
def testOp (name : Text) (op : Op) (expr : Text) : TokenTest :=
  match scanWord name expr with
  | none => ([], none)
  | some rest =>
    ([.char name.length expr.length],
      if rest.head? = some ',' ∨ rest = [] then some (.node ⟨op, .num 0, 0⟩ rest) else none)

/-- `match_op` after `match_op` -/
def testOps : List (String × Op) → Text → TokenTest
  | [], _ => ([], none)
  | p :: ops, expr => (testOp p.1.toList p.2 expr).orElse (testOps ops expr)

/-- `match_op_param(OP_PREV_OTHER, PREV)`. `sscanf` does not say whether it has seen the closing bracket, so
the index is one behind where that would be. -/
def testPrev (lookup : Text → Option ℕ) (expr : Text) : TokenTest :=
  match (scanWord "PREV(".toList expr).bind (scanSet 255 isNameChar) with
  | none => ([], none)
  | some (vname, _) =>
    let length := "PREV".length + vname.length + 2
    ([.char length expr.length],
      some (
        if expr.length < length then .overRead
        else if (expr.drop length).head? = some ',' ∨ expr.drop length = [] then
          match lookup vname with
          | some ptr => .node ⟨.prevOther, .num 0, ptr⟩ (expr.drop length)
          | none => .refused
        else .refused))

/-- `sscanf(expr, DEF_NAM_FMT "%n", ..) == 1 && lookup(..) != -1` -/
def testVariable (lookup : Text → Option ℕ) (expr : Text) : TokenTest :=
  match scanSet 255 isNameChar expr with
  | none => ([], none)
  | some (vname, rest) => ([], (lookup vname).map fun ptr => .node ⟨.variable, .num 0, ptr⟩ rest)

/-- The operators in front of `PREV`. -/
def opsBeforePrev : List (String × Op) := opNames.takeWhile fun p => p.1 ≠ "PREV"

/-- `PREV`, and the operators behind it. -/
def opsFromPrev : List (String × Op) := opNames.dropWhile fun p => p.1 ≠ "PREV"

/-- The cascade. -/
def readToken (lookup : Text → Option ℕ) (expr : Text) : List ParseTouch × TokenRead :=
  let t := (testNumber expr).orElse ((testOps opsBeforePrev expr).orElse
    ((testPrev lookup expr).orElse ((testOps opsFromPrev expr).orElse (testVariable lookup expr))))
  (t.1, t.2.getD .refused)

/-- What `rpn_parse` returns. -/
inductive Parsed : Type where
  /-- a program -/
  | program (prog : List Rpnp)
  /-- NULL -/
  | refused
  /-- whatever there is behind the terminator decides -/
  | overRead
  deriving DecidableEq

/-- One node in front of the others. -/
def Parsed.cons (n : Rpnp) : Parsed → Parsed
  | .program prog => .program (n :: prog)
  | .refused => .refused
  | .overRead => .overRead

/-- The loop of `rpn_parse`, with `steps` nodes written. There is memory for two nodes more than `steps` in a
pass, and none at all before the first one. -/
def parseLoop (lookup : Text → Option ℕ) (fuel steps : ℕ) (expr : Text) : List ParseTouch × Parsed :=
  if expr = [] then ([.node steps (if steps = 0 then 0 else steps + 1)], .program [])
  else
    match fuel with
    | 0 => ([], .refused)
    | fuel + 1 =>
      let t := readToken lookup expr
      let log := .node steps (steps + 2) :: t.1
      match t.2 with
      | .refused => (log, .refused)
      | .overRead => (log, .overRead)
      | .node n rest =>
        match rest with
        | [] => (log ++ [.node (steps + 1) (steps + 2)], .program [n])
        | c :: rest =>
          if c = ',' then
            let more := parseLoop lookup fuel (steps + 1) rest
            (log ++ more.1, more.2.cons n)
          else (log, .refused)

/-- `rpn_parse` -/
def rpnParseText (lookup : Text → Option ℕ) (expr : Text) : List ParseTouch × Parsed :=
  parseLoop lookup expr.length 0 expr

/-! ## One token -/

theorem orElse_snd (a b : TokenTest) : (a.orElse b).2 = a.2.or b.2 := by
  obtain ⟨log, r⟩ := a
  cases r with
  | some r => rfl
  | none => rfl

variable {lookup : Text → Option ℕ} {t tail : Text}

/-- What follows a token: the end, or a comma. -/
inductive TokenEnd : Text → Prop where
  | nil : TokenEnd []
  | comma (s : Text) : TokenEnd (',' :: s)

theorem scanDouble_token (h : TokenEnd tail) (t : Text) :
    scanDouble (t ++ tail) = (scanDouble t).map fun p => (p.1, p.2 ++ tail) := by
  cases h with
  | nil => simp
  | comma s => exact scanDouble_append separator_comma t s

theorem scanSet_token (h : TokenEnd tail) (t : Text) :
    scanSet 255 isNameChar (t ++ tail) = (scanSet 255 isNameChar t).map fun p => (p.1, p.2 ++ tail) := by
  cases h with
  | nil => simp
  | comma s => exact scanSet_append (by decide) t s

theorem scanWord_token (h : TokenEnd tail) {w : Text} (hw : ',' ∉ w) (t : Text) :
    scanWord w (t ++ tail) = (scanWord w t).map (· ++ tail) := by
  cases h with
  | nil => simp
  | comma s => exact scanWord_append hw t s

theorem scanWord_eq_some {w s r : Text} : scanWord w s = some r ↔ s = w ++ r := by
  induction w generalizing s with
  | nil => rw [scanWord, Option.some_inj, List.nil_append]
  | cons c w ih =>
    cases s with
    | nil => simp [scanWord, scanChar]
    | cons d s =>
      rw [scanWord, scanChar]
      split_ifs with hd
      · subst hd
        rw [Option.bind_some, ih, List.cons_append, List.cons.injEq]
        simp
      · simp [hd]

/-- Where a token ends, inside of one: only at its own end. -/
theorem token_end_iff (h : TokenEnd tail) {r : Text} (hr : ',' ∉ r) :
    (r ++ tail).head? = some ',' ∨ r ++ tail = [] ↔ r = [] := by
  cases r with
  | nil =>
    cases h with
    | nil => simp
    | comma s => simp
  | cons c r =>
    rw [List.mem_cons, not_or] at hr
    simp [Ne.symm hr.1]

/-- What is left of a token has no comma. -/
theorem not_mem_of_suffix {r : Text} (hr : r <:+ t) (ht : ',' ∉ t) : ',' ∉ r := fun hmem =>
  ht (hr.subset hmem)

/-- A number is a whole token. -/
def pieceNumber (t : Text) : Option RrdValue :=
  (scanDouble t).bind fun p => if p.2 = [] then some p.1 else none

/-- An operator is a whole token. -/
def pieceOp (t : Text) : Option Op := (opNames.find? fun p => p.1.toList = t).map Prod.snd

/-- `PREV(` and a name, with what follows it. -/
def piecePrev (t : Text) : Option (Text × Text) :=
  (scanWord "PREV(".toList t).bind (scanSet 255 isNameChar)

theorem testNumber_comma (ht : ',' ∉ t) (s : Text) :
    (testNumber (t ++ ',' :: s)).2 =
      (pieceNumber t).map fun v => .node ⟨.number, v, 0⟩ (',' :: s) := by
  rw [testNumber, scanDouble_append separator_comma, pieceNumber]
  cases hscan : scanDouble t with
  | none => rfl
  | some p =>
    obtain ⟨v, r⟩ := p
    have hr := not_mem_of_suffix (scanDouble_suffix hscan) ht
    cases r with
    | nil => rfl
    | cons c r =>
      rw [List.mem_cons, not_or] at hr
      simp [Ne.symm hr.1]

theorem testNumber_last (ht : ',' ∉ t) : (testNumber t).2 = none := by
  rw [testNumber]
  cases hscan : scanDouble t with
  | none => rfl
  | some p =>
    obtain ⟨v, r⟩ := p
    have hr := not_mem_of_suffix (scanDouble_suffix hscan) ht
    cases r with
    | nil => rfl
    | cons c r =>
      rw [List.mem_cons, not_or] at hr
      simp [Ne.symm hr.1]

/-- `match_op` compares the whole token. -/
theorem testOp_token (h : TokenEnd tail) (ht : ',' ∉ t) {name : Text} (hname : ',' ∉ name) (op : Op) :
    (testOp name op (t ++ tail)).2 = if name = t then some (.node ⟨op, .num 0, 0⟩ tail) else none := by
  rw [testOp, scanWord_token h hname]
  cases hscan : scanWord name t with
  | none =>
    rw [if_neg]
    · rfl
    · rintro rfl
      rw [scanWord_eq_some.mpr (List.append_nil name).symm] at hscan
      exact absurd hscan (by simp)
  | some r =>
    obtain rfl := scanWord_eq_some.mp hscan
    have hr := not_mem_of_suffix (List.suffix_append name r) ht
    have hself : name = name ++ r ↔ r = [] := by simp
    simp only [Option.map_some, token_end_iff h hr, hself]
    split_ifs with hnil
    · subst hnil
      rfl
    · rfl

theorem testOps_token (h : TokenEnd tail) (ht : ',' ∉ t) {ops : List (String × Op)}
    (hops : ∀ p ∈ ops, ',' ∉ p.1.toList) :
    (testOps ops (t ++ tail)).2 =
      (ops.find? fun p => p.1.toList = t).map fun p => .node ⟨p.2, .num 0, 0⟩ tail := by
  induction ops with
  | nil => rfl
  | cons p ops ih =>
    rw [testOps, orElse_snd, testOp_token h ht (hops p List.mem_cons_self), List.find?_cons,
      ih fun q hq => hops q (List.mem_cons_of_mem _ hq)]
    by_cases hp : p.1.toList = t
    · simp [hp]
    · simp [hp]

/-- `PREV(v)` with its bracket, in front of a comma or the end. -/
theorem scanPrev_token (h : TokenEnd tail) (t : Text) :
    (scanWord "PREV(".toList (t ++ tail)).bind (scanSet 255 isNameChar) =
      (piecePrev t).map fun p => (p.1, p.2 ++ tail) := by
  rw [scanWord_token h (by decide), piecePrev]
  cases scanWord "PREV(".toList t with
  | none => rfl
  | some r => exact scanSet_token h r

/-- A field and what follows it. -/
theorem scanSet_eq_some {width : ℕ} {p : Char → Bool} {s v r : Text} (h : scanSet width p s = some (v, r)) :
    s = v ++ r ∧ v ≠ [] ∧ v.length ≤ width ∧ ∀ c ∈ v, p c = true := by
  rw [scanSet] at h
  split_ifs at h with hne
  obtain ⟨rfl, rfl⟩ := Prod.mk.inj (Option.some.inj h)
  have hprefix : (s.take width).takeWhile p <+: s :=
    (List.takeWhile_prefix p).trans (List.take_prefix width s)
  refine ⟨?_, hne, ?_, fun c hc => List.mem_takeWhile_imp hc⟩
  · conv_lhs => rw [← List.take_append_drop ((s.take width).takeWhile p).length s]
    rw [← List.prefix_iff_eq_take.mp hprefix]
  · exact (List.takeWhile_prefix p).length_le.trans (List.length_take_le width s)

theorem piecePrev_eq_some {v r : Text} (h : piecePrev t = some (v, r)) :
    t = "PREV(".toList ++ v ++ r ∧ v ≠ [] := by
  obtain ⟨u, hu, hv⟩ := Option.bind_eq_some_iff.mp h
  obtain ⟨rfl, hne, -⟩ := scanSet_eq_some hv
  rw [scanWord_eq_some.mp hu, List.append_assoc]
  exact ⟨rfl, hne⟩

/-- What `match_op_param` makes of a token, by what follows the name in it. -/
theorem testPrev_token (h : TokenEnd tail) (ht : ',' ∉ t) {v r : Text} (hprev : piecePrev t = some (v, r)) :
    (testPrev lookup (t ++ tail)).2 = some (
      match r ++ tail with
      | [] => .overRead
      | _ :: rest =>
        if rest.head? = some ',' ∨ rest = [] then
          match lookup v with
          | some ptr => .node ⟨.prevOther, .num 0, ptr⟩ rest
          | none => .refused
        else .refused) := by
  obtain ⟨rfl, -⟩ := piecePrev_eq_some hprev
  have hlen : ("PREV(".toList ++ v ++ r ++ tail).length = "PREV".length + v.length + 1 + (r ++ tail).length := by
    simp only [List.length_append]
    have h5 : "PREV(".toList.length = 5 := by decide
    have h4 : "PREV".length = 4 := by decide
    omega
  have hdrop : ("PREV(".toList ++ v ++ r ++ tail).drop ("PREV".length + v.length + 2) = (r ++ tail).drop 1 := by
    have hfront : "PREV".length + v.length + 2 = ("PREV(".toList ++ v).length + 1 := by
      simp only [List.length_append]
      have h5 : "PREV(".toList.length = 5 := by decide
      have h4 : "PREV".length = 4 := by decide
      omega
    rw [hfront, List.append_assoc _ r tail, List.drop_append, List.drop_of_length_le (by omega),
      Nat.add_sub_cancel_left]
    rfl
  rw [testPrev, scanPrev_token h, hprev]
  simp only [Option.map_some, hlen, hdrop]
  cases hrest : r ++ tail with
  | nil => simp
  | cons c rest =>
    rw [if_neg (by simp only [List.length_cons]; omega)]
    rfl

/-- **What `rpn_parse` makes of one token.** A name that the token ends with, where the bracket of `PREV(`
should be, is a case of its own. -/
inductive PieceRead : Type where
  /-- a node -/
  | node (n : Rpnp)
  /-- `PREV(v`, without a bracket -/
  | cut (vname : Text)
  /-- nothing -/
  | refused

/-- A node that names a variable. -/
def PieceRead.named (lookup : Text → Option ℕ) (op : Op) (vname : Text) : PieceRead :=
  match lookup vname with
  | some ptr => .node ⟨op, .num 0, ptr⟩
  | none => .refused

/-- The cascade on one token, after its test for a number. Any character does for the closing bracket. -/
def readWord (lookup : Text → Option ℕ) (t : Text) : PieceRead :=
  match piecePrev t with
  | some (v, []) => .cut v
  | some (v, [_]) => .named lookup .prevOther v
  | some _ => .refused
  | none =>
    match pieceOp t with
    | some op => .node ⟨op, .num 0, 0⟩
    | none =>
      match scanSet 255 isNameChar t with
      | some (v, []) => .named lookup .variable v
      | _ => .refused

/-- The cascade on one token. A number has to have a comma behind it. -/
def readPiece (lookup : Text → Option ℕ) (last : Bool) (t : Text) : PieceRead :=
  match if last then none else pieceNumber t with
  | some v => .node ⟨.number, v, 0⟩
  | none => readWord lookup t

theorem opNames_split : opNames = opsBeforePrev ++ opsFromPrev := by
  rw [opsBeforePrev, opsFromPrev, List.takeWhile_append_dropWhile]

theorem opNames_no_comma : ∀ p ∈ opNames, ',' ∉ p.1.toList := by decide

/-- No operator begins as `PREV(` does. -/
theorem pieceOp_of_prev {v r : Text} (hprev : piecePrev t = some (v, r)) : pieceOp t = none := by
  obtain ⟨rfl, -⟩ := piecePrev_eq_some hprev
  have hbracket : ∀ p ∈ opNames, '(' ∉ p.1.toList := by decide
  rw [pieceOp, List.find?_eq_none.mpr, Option.map_none]
  intro p hp heq
  refine hbracket p hp ?_
  rw [of_decide_eq_true heq]
  simp

/-- The tests behind the one for a number. -/
theorem readToken_words (h : TokenEnd tail) (ht : ',' ∉ t) :
    ((testOps opsBeforePrev (t ++ tail)).orElse ((testPrev lookup (t ++ tail)).orElse
      ((testOps opsFromPrev (t ++ tail)).orElse (testVariable lookup (t ++ tail))))).2 =
      match piecePrev t with
      | some _ => (testPrev lookup (t ++ tail)).2
      | none =>
        match pieceOp t with
        | some op => some (.node ⟨op, .num 0, 0⟩ tail)
        | none => (testVariable lookup (t ++ tail)).2 := by
  have hbefore : (testOps opsBeforePrev (t ++ tail)).2 = _ := testOps_token h ht fun p hp =>
    opNames_no_comma p (opNames_split ▸ List.mem_append_left _ hp)
  have hfrom : (testOps opsFromPrev (t ++ tail)).2 = _ := testOps_token h ht fun p hp =>
    opNames_no_comma p (opNames_split ▸ List.mem_append_right _ hp)
  have hsplit : pieceOp t = ((opsBeforePrev.find? fun p => p.1.toList = t).or
      (opsFromPrev.find? fun p => p.1.toList = t)).map Prod.snd := by
    rw [pieceOp, opNames_split, List.find?_append]
  simp only [orElse_snd, hbefore, hfrom]
  cases hprev : piecePrev t with
  | some p =>
    obtain ⟨v, r⟩ := p
    have hop := pieceOp_of_prev hprev
    rw [hsplit, Option.map_eq_none_iff, Option.or_eq_none_iff] at hop
    rw [hop.1]
    simp [testPrev_token h ht hprev]
  | none =>
    have hnone : (testPrev lookup (t ++ tail)).2 = none := by
      rw [testPrev, scanPrev_token h, hprev]
      rfl
    rw [hnone, hsplit]
    cases opsBeforePrev.find? fun p => p.1.toList = t with
    | some p => rfl
    | none =>
      cases opsFromPrev.find? fun p => p.1.toList = t with
      | some p => rfl
      | none => rfl

/-! ## The loop, token by token -/

/-- **What `rpn_parse` makes of the tokens.** The comma behind `PREV(v` counts as its bracket; the token after
it has to be empty then. A comma at the end of the expression is no error. -/
def readPieces (lookup : Text → Option ℕ) : List Text → Parsed
  | [] => .program []
  | [t] =>
    if t = [] then .program []
    else
      match readPiece lookup true t with
      | .node n => .program [n]
      | .cut _ => .overRead
      | .refused => .refused
  | t :: u :: ts =>
    match readPiece lookup false t with
    | .node n => (readPieces lookup (u :: ts)).cons n
    | .cut v =>
      if u = [] then
        match lookup v with
        | some ptr => (readPieces lookup ts).cons ⟨.prevOther, .num 0, ptr⟩
        | none => .refused
      else .refused
    | .refused => .refused

/-- How the loop goes on behind a token. -/
def goOn (lookup : Text → Option ℕ) (fuel steps : ℕ) : TokenRead → Parsed
  | .refused => .refused
  | .overRead => .overRead
  | .node n [] => .program [n]
  | .node n (c :: rest) => if c = ',' then (parseLoop lookup fuel (steps + 1) rest).2.cons n else .refused

theorem parseLoop_goOn (fuel steps : ℕ) {expr : Text} (hne : expr ≠ []) :
    (parseLoop lookup (fuel + 1) steps expr).2 = goOn lookup fuel steps (readToken lookup expr).2 := by
  rw [parseLoop, if_neg hne]
  dsimp only
  generalize readToken lookup expr = r
  obtain ⟨log, r⟩ := r
  cases r with
  | refused => rfl
  | overRead => rfl
  | node n rest =>
    cases rest with
    | nil => rfl
    | cons d rest =>
      dsimp only [goOn]
      split_ifs
      · rfl
      · rfl

/-- How it goes on behind `PREV(v`: one character counts as the bracket. -/
def goOnCut (lookup : Text → Option ℕ) (fuel steps : ℕ) (v : Text) : Text → Parsed
  | [] => .overRead
  | _ :: rest =>
    if rest.head? = some ',' ∨ rest = [] then
      match lookup v with
      | some ptr => goOn lookup fuel steps (.node ⟨.prevOther, .num 0, ptr⟩ rest)
      | none => .refused
    else .refused

/-- The token behind the number test, in the loop. -/
theorem goOn_words (h : TokenEnd tail) (ht : ',' ∉ t) (fuel steps : ℕ) :
    goOn lookup fuel steps ((match piecePrev t with
      | some _ => (testPrev lookup (t ++ tail)).2
      | none =>
        match pieceOp t with
        | some op => some (.node ⟨op, .num 0, 0⟩ tail)
        | none => (testVariable lookup (t ++ tail)).2).getD .refused) =
      match readWord lookup t with
      | .node n => goOn lookup fuel steps (.node n tail)
      | .refused => .refused
      | .cut v => goOnCut lookup fuel steps v tail := by
  rw [readWord]
  cases hprev : piecePrev t with
  | some p =>
    obtain ⟨v, r⟩ := p
    dsimp only
    rw [testPrev_token h ht hprev, Option.getD_some]
    cases r with
    | nil =>
      dsimp only [List.nil_append]
      cases tail with
      | nil => rfl
      | cons c rest =>
        dsimp only [goOnCut]
        split_ifs
        · cases lookup v with
          | some ptr => rfl
          | none => rfl
        · rfl
    | cons c r =>
      have hr : ',' ∉ c :: r := by
        obtain ⟨rfl, -⟩ := piecePrev_eq_some hprev
        exact not_mem_of_suffix (List.suffix_append _ _) ht
      rw [List.mem_cons, not_or] at hr
      dsimp only [List.cons_append]
      rw [if_congr (token_end_iff h hr.2) rfl rfl]
      cases r with
      | nil =>
        rw [if_pos rfl]
        dsimp only [PieceRead.named]
        cases lookup v with
        | some ptr => rfl
        | none => rfl
      | cons d r => rfl
  | none =>
    dsimp only
    cases hop : pieceOp t with
    | some op => rfl
    | none =>
      dsimp only
      rw [testVariable, scanSet_token h]
      cases hscan : scanSet 255 isNameChar t with
      | none => rfl
      | some p =>
        obtain ⟨v, r⟩ := p
        dsimp only [Option.map_some]
        cases r with
        | nil =>
          dsimp only [PieceRead.named, List.nil_append]
          cases lookup v with
          | some ptr => rfl
          | none => rfl
        | cons c r =>
          obtain ⟨rfl, -⟩ := scanSet_eq_some hscan
          have hr := not_mem_of_suffix (List.suffix_append v (c :: r)) ht
          rw [List.mem_cons, not_or] at hr
          cases lookup v with
          | none => rfl
          | some ptr => exact if_neg (Ne.symm hr.1)

theorem splitOn_token (ht : ',' ∉ t) : splitOn ',' t = [t] := by
  have h := @splitOn_intercalate ',' [t] (by simpa using ht) (by simp)
  rwa [List.intercalate_singleton] at h

theorem splitOn_comma (ht : ',' ∉ t) (s : Text) : splitOn ',' (t ++ ',' :: s) = t :: splitOn ',' s := by
  rw [splitOn_append, splitOn_token ht]
  rfl

theorem goOn_comma (fuel steps : ℕ) (n : Rpnp) (s : Text) :
    goOn lookup fuel steps (.node n (',' :: s)) = (parseLoop lookup fuel (steps + 1) s).2.cons n := by
  rw [goOn, if_pos rfl]

theorem goOn_readToken_last (ht : ',' ∉ t) (fuel steps : ℕ) :
    goOn lookup fuel steps (readToken lookup t).2 =
      match readPiece lookup true t with
      | .node n => .program [n]
      | .cut _ => .overRead
      | .refused => .refused := by
  have h := @goOn_words lookup t [] .nil ht fuel steps
  rw [← readToken_words .nil ht, List.append_nil] at h
  rw [readToken]
  dsimp only
  rw [orElse_snd, testNumber_last ht, Option.none_or, h, readPiece, if_pos rfl]
  dsimp only
  cases readWord lookup t with
  | node n => rfl
  | cut v => rfl
  | refused => rfl

theorem goOn_readToken_comma (ht : ',' ∉ t) (fuel steps : ℕ) (s : Text) :
    goOn lookup fuel steps (readToken lookup (t ++ ',' :: s)).2 =
      match readPiece lookup false t with
      | .node n => (parseLoop lookup fuel (steps + 1) s).2.cons n
      | .refused => .refused
      | .cut v =>
        if s.head? = some ',' ∨ s = [] then
          match lookup v with
          | some ptr => goOn lookup fuel steps (.node ⟨.prevOther, .num 0, ptr⟩ s)
          | none => .refused
        else .refused := by
  have h := @goOn_words lookup t _ (.comma s) ht fuel steps
  rw [← readToken_words (.comma s) ht] at h
  rw [readToken, readPiece]
  dsimp only
  rw [orElse_snd, testNumber_comma ht, if_neg (by decide)]
  cases pieceNumber t with
  | some v => exact goOn_comma fuel steps _ s
  | none =>
    rw [Option.map_none, Option.none_or, h]
    cases readWord lookup t with
    | node n => exact goOn_comma fuel steps n s
    | cut v => rfl
    | refused => rfl

/-- **The loop reads the tokens between the commas.** -/
theorem parseLoop_eq (fuel steps : ℕ) (expr : Text) (hfuel : expr.length ≤ fuel) :
    (parseLoop lookup fuel steps expr).2 = readPieces lookup (splitOn ',' expr) := by
  induction fuel using Nat.strong_induction_on generalizing steps expr with
  | _ fuel ih =>
    by_cases hne : expr = []
    · subst hne
      rw [parseLoop.eq_def, if_pos rfl]
      rfl
    obtain ⟨fuel, rfl⟩ : ∃ k, fuel = k + 1 := by
      have := List.length_pos_iff.mpr hne
      exact ⟨fuel - 1, by omega⟩
    rw [parseLoop_goOn _ _ hne]
    cases hcut : cutAt ',' expr with
    | none =>
      have ht := cutAt_eq_none.mp hcut
      rw [goOn_readToken_last ht, splitOn_token ht, readPieces, if_neg hne]
    | some p =>
      obtain ⟨t, s⟩ := p
      obtain ⟨rfl, ht⟩ := cutAt_eq_some.mp hcut
      have hs : s.length ≤ fuel := by
        simp only [List.length_append, List.length_cons] at hfuel
        omega
      rw [goOn_readToken_comma ht, splitOn_comma ht]
      obtain ⟨u, ts, hsplit⟩ : ∃ u ts, splitOn ',' s = u :: ts :=
        List.exists_cons_of_ne_nil (splitOn_ne_nil ',' s)
      rw [hsplit, readPieces, ← hsplit]
      cases readPiece lookup false t with
      | node n =>
        dsimp only
        rw [ih fuel (by omega) (steps + 1) s hs]
      | refused => rfl
      | cut v =>
        dsimp only
        -- the comma behind the name counts as its bracket
        cases s with
        | nil =>
          obtain ⟨rfl, rfl⟩ := List.cons.inj hsplit
          rw [if_pos (.inr rfl), if_pos rfl]
          rfl
        | cons c s =>
          by_cases hc : c = ','
          · subst hc
            obtain ⟨rfl, rfl⟩ := List.cons.inj ((splitOn_comma (t := []) (by simp) s).symm.trans hsplit)
            rw [if_pos (.inl rfl), if_pos rfl]
            cases lookup v with
            | none => rfl
            | some ptr =>
              dsimp only
              rw [goOn_comma, ih fuel (by omega) (steps + 1) s (by simp only [List.length_cons] at hs; omega)]
          · have hu : u ≠ [] := by
              rw [splitOn, if_neg hc] at hsplit
              cases hrest : splitOn ',' s with
              | nil => exact absurd hrest (splitOn_ne_nil ',' s)
              | cons w ws =>
                rw [hrest] at hsplit
                obtain ⟨rfl, -⟩ := List.cons.inj hsplit
                simp
            rw [if_neg (by simp [hc]), if_neg hu]

/-- **`rpn_parse` reads the tokens between the commas.** -/
theorem rpnParseText_eq (lookup : Text → Option ℕ) (expr : Text) :
    (rpnParseText lookup expr).2 = readPieces lookup (splitOn ',' expr) :=
  parseLoop_eq expr.length 0 expr (le_refl _)

/-! ## `rpnParse` -/

/-- The node and what is left, if there is one. -/
def TokenRead.toOption : TokenRead → Option (Rpnp × Text)
  | .node n rest => some (n, rest)
  | .refused => none
  | .overRead => none

/-- The program, if there is one. -/
def Parsed.toOption : Parsed → Option (List Rpnp)
  | .program prog => some prog
  | .refused => none
  | .overRead => none

/-- A token and what follows it. -/
theorem exists_token (expr : Text) : ∃ t tail, expr = t ++ tail ∧ ',' ∉ t ∧ TokenEnd tail := by
  cases hcut : cutAt ',' expr with
  | none => exact ⟨expr, [], (List.append_nil expr).symm, cutAt_eq_none.mp hcut, .nil⟩
  | some p =>
    obtain ⟨rfl, ht⟩ := cutAt_eq_some.mp hcut
    exact ⟨p.1, ',' :: p.2, rfl, ht, .comma p.2⟩

theorem matchOp_token (h : TokenEnd tail) (ht : ',' ∉ t) :
    matchOp (t ++ tail) = (pieceOp t).map fun op => (op, tail) := by
  have hall : t.takeWhile (· ≠ ',') = t := by
    rw [List.takeWhile_eq_self_iff]
    intro c hc
    rw [decide_eq_true_eq]
    rintro rfl
    exact ht hc
  have hword : (t ++ tail).takeWhile (· ≠ ',') = t := by
    cases h with
    | nil => rw [List.append_nil, hall]
    | comma s => rw [CStr.takeWhile_append (by decide), hall]
  rw [matchOp, pieceOp]
  rw [hword, List.drop_left, Option.map_map]
  rfl

theorem rpnParseNode_eq (lookup : Text → Option ℕ) (expr : Text) :
    rpnParseNode lookup expr = (readToken lookup expr).2.toOption := by
  obtain ⟨t, tail, rfl, ht, h⟩ := exists_token expr
  have hnumber : ((scanDouble (t ++ tail)).filter fun p => p.2.head? = some ',').map
      (fun p => TokenRead.node ⟨.number, p.1, 0⟩ p.2) = (testNumber (t ++ tail)).2 := by
    rw [testNumber]
    cases scanDouble (t ++ tail) with
    | none => rfl
    | some p =>
      by_cases hp : p.2.head? = some ','
      · simp [Option.filter, hp]
      · simp [Option.filter, hp]
  rw [rpnParseNode, readToken]
  dsimp only
  rw [orElse_snd, readToken_words h ht, ← hnumber, scanPrev_token h]
  cases (scanDouble (t ++ tail)).filter fun p => p.2.head? = some ',' with
  | some p => rfl
  | none =>
    rw [Option.map_none, Option.none_or]
    cases hprev : piecePrev t with
    | some p =>
      obtain ⟨v, r⟩ := p
      dsimp only [Option.map_some]
      rw [testPrev_token h ht hprev, Option.getD_some]
      cases r ++ tail with
      | nil => rfl
      | cons c rest =>
        dsimp only
        split_ifs
        · cases lookup v with
          | none => rfl
          | some ptr => rfl
        · rfl
    | none =>
      dsimp only [Option.map_none]
      rw [matchOp_token h ht]
      cases pieceOp t with
      | some op =>
        dsimp only [Option.map_some]
        rfl
      | none =>
        dsimp only [Option.map_none]
        rw [testVariable]
        cases scanSet 255 isNameChar (t ++ tail) with
        | none => rfl
        | some p =>
          dsimp only
          cases lookup p.1 with
          | none => rfl
          | some ptr => rfl

theorem parseLoop_toOption (fuel steps : ℕ) (expr : Text) :
    (parseLoop lookup fuel steps expr).2.toOption = rpnParseLoop lookup fuel expr := by
  induction fuel generalizing steps expr with
  | zero =>
    rw [parseLoop.eq_def]
    cases expr with
    | nil => rfl
    | cons c expr => rfl
  | succ fuel ih =>
    by_cases hne : expr = []
    · subst hne
      rw [parseLoop, if_pos rfl, rpnParseLoop]
      rfl
    obtain ⟨c, expr, rfl⟩ := List.exists_cons_of_ne_nil hne
    rw [parseLoop_goOn _ _ hne, rpnParseLoop.eq_3 _ _ _ hne, rpnParseNode_eq]
    cases (readToken lookup (c :: expr)).2 with
    | refused => rfl
    | overRead => rfl
    | node n rest =>
      cases rest with
      | nil => rfl
      | cons d rest =>
        dsimp only [TokenRead.toOption, Option.bind_some, goOn]
        split_ifs
        · rw [← ih (steps + 1) rest]
          cases (parseLoop lookup fuel (steps + 1) rest).2 with
          | program prog => rfl
          | refused => rfl
          | overRead => rfl
        · rfl

/-- **The programs are those of `rpnParse`.** -/
theorem rpnParse_eq_some {expr : Text} {prog : List Rpnp} :
    rpnParse lookup expr = some prog ↔ expr ≠ [] ∧ readPieces lookup (splitOn ',' expr) = .program prog := by
  rw [rpnParse, ← rpnParseText_eq, rpnParseText]
  by_cases hne : expr = []
  · rw [if_pos hne]
    simp [hne]
  · rw [if_neg hne, ← parseLoop_toOption _ 0]
    cases (parseLoop lookup expr.length 0 expr).2 with
    | program p => simp [Parsed.toOption, hne]
    | refused => simp [Parsed.toOption]
    | overRead => simp [Parsed.toOption]

/-! ## Accesses -/

/-- **A test stays inside of the memory**, or it goes on with what is behind the terminator. -/
structure TokenTest.Sane (a : TokenTest) : Prop where
  safe : a.2 ≠ some .overRead → ∀ x ∈ a.1, x.Safe
  unsafeRead : a.2 = some .overRead → ∃ x ∈ a.1, ¬ x.Safe

theorem TokenTest.Sane.orElse {a b : TokenTest} (ha : a.Sane) (hb : b.Sane) : (a.orElse b).Sane := by
  obtain ⟨log, r⟩ := a
  cases r with
  | some r => exact ha
  | none =>
    have hlog := ha.safe (by simp)
    refine ⟨fun hne x hx => ?_, fun hover => ?_⟩
    · rcases List.mem_append.mp hx with hx | hx
      · exact hlog x hx
      · exact hb.safe hne x hx
    · obtain ⟨x, hx, hunsafe⟩ := hb.unsafeRead hover
      exact ⟨x, List.mem_append_right _ hx, hunsafe⟩

/-- A test with one access, inside of the expression, that does not go on behind the terminator. -/
theorem sane_char {index len : ℕ} {r : Option TokenRead} (h : index ≤ len) (hr : r ≠ some .overRead) :
    TokenTest.Sane ([.char index len], r) := by
  refine ⟨fun _ x hx => ?_, fun hover => absurd hover hr⟩
  obtain rfl := List.mem_singleton.mp hx
  exact h

theorem sane_none : TokenTest.Sane ([], none) := ⟨nofun, nofun⟩

theorem testNumber_sane (expr : Text) : (testNumber expr).Sane := by
  rw [testNumber]
  cases scanDouble expr with
  | none => exact sane_none
  | some p =>
    refine sane_char (Nat.sub_le _ _) ?_
    split_ifs
    · simp
    · simp

theorem testOp_sane (name : Text) (op : Op) (expr : Text) : (testOp name op expr).Sane := by
  rw [testOp]
  cases hscan : scanWord name expr with
  | none => exact sane_none
  | some rest =>
    obtain rfl := scanWord_eq_some.mp hscan
    refine sane_char (by simp) ?_
    split_ifs
    · simp
    · simp

theorem testOps_sane (ops : List (String × Op)) (expr : Text) : (testOps ops expr).Sane := by
  induction ops with
  | nil => exact sane_none
  | cons p ops ih => exact (testOp_sane _ _ _).orElse ih

theorem testPrev_sane (expr : Text) : (testPrev lookup expr).Sane := by
  rw [testPrev]
  cases (scanWord "PREV(".toList expr).bind (scanSet 255 isNameChar) with
  | none => exact sane_none
  | some p =>
    dsimp only
    by_cases hlen : expr.length < "PREV".length + p.1.length + 2
    · rw [if_pos hlen]
      refine ⟨fun hne => absurd rfl hne, fun _ => ⟨_, List.mem_singleton_self _, ?_⟩⟩
      exact Nat.not_le.mpr hlen
    · rw [if_neg hlen]
      refine sane_char (Nat.not_lt.mp hlen) ?_
      split_ifs
      · cases lookup p.1 with
        | some ptr => simp
        | none => simp
      · simp

theorem testVariable_sane (expr : Text) : (testVariable lookup expr).Sane := by
  rw [testVariable]
  cases scanSet 255 isNameChar expr with
  | none => exact sane_none
  | some p =>
    refine ⟨fun _ => nofun, fun hover => ?_⟩
    cases hptr : lookup p.1 with
    | some ptr => simp [hptr] at hover
    | none => simp [hptr] at hover

theorem readToken_sane (expr : Text) :
    ((readToken lookup expr).2 ≠ .overRead → ∀ x ∈ (readToken lookup expr).1, x.Safe) ∧
      ((readToken lookup expr).2 = .overRead → ∃ x ∈ (readToken lookup expr).1, ¬ x.Safe) := by
  have h := (testNumber_sane expr).orElse ((testOps_sane opsBeforePrev expr).orElse
    ((@testPrev_sane lookup expr).orElse ((testOps_sane opsFromPrev expr).orElse
      (@testVariable_sane lookup expr))))
  rw [readToken]
  dsimp only
  generalize (testNumber expr).orElse ((testOps opsBeforePrev expr).orElse
    ((testPrev lookup expr).orElse ((testOps opsFromPrev expr).orElse (testVariable lookup expr)))) = a at h
  obtain ⟨log, r⟩ := a
  cases r with
  | none => exact ⟨fun _ => h.safe (by simp), nofun⟩
  | some r =>
    refine ⟨fun hne => h.safe ?_, fun hover => h.unsafeRead (congrArg some hover)⟩
    rintro hr
    exact hne (Option.some.inj hr)

theorem cons_eq_overRead {n : Rpnp} {r : Parsed} : r.cons n = .overRead ↔ r = .overRead := by
  cases r with
  | program p => simp [Parsed.cons]
  | refused => simp [Parsed.cons]
  | overRead => simp [Parsed.cons]

/-- **All accesses of the loop are safe**, unless it goes on behind the terminator. -/
theorem parseLoop_sane (fuel steps : ℕ) (expr : Text) (hsteps : expr ≠ [] ∨ 0 < steps) :
    ((parseLoop lookup fuel steps expr).2 ≠ .overRead → ∀ x ∈ (parseLoop lookup fuel steps expr).1, x.Safe) ∧
      ((parseLoop lookup fuel steps expr).2 = .overRead →
        ∃ x ∈ (parseLoop lookup fuel steps expr).1, ¬ x.Safe) := by
  induction fuel generalizing steps expr with
  | zero =>
    rw [parseLoop.eq_def]
    by_cases hne : expr = []
    · rw [if_pos hne]
      have hpos : steps ≠ 0 := by
        rcases hsteps with h | h
        · exact absurd hne h
        · exact h.ne'
      refine ⟨fun _ x hx => ?_, nofun⟩
      obtain rfl := List.mem_singleton.mp hx
      rw [if_neg hpos]
      exact Nat.lt_succ_self steps
    · rw [if_neg hne]
      exact ⟨fun _ => nofun, nofun⟩
  | succ fuel ih =>
    by_cases hne : expr = []
    · have hpos : steps ≠ 0 := by
        rcases hsteps with h | h
        · exact absurd hne h
        · exact h.ne'
      rw [parseLoop, if_pos hne]
      refine ⟨fun _ x hx => ?_, nofun⟩
      obtain rfl := List.mem_singleton.mp hx
      rw [if_neg hpos]
      exact Nat.lt_succ_self steps
    have htoken := @readToken_sane lookup expr
    rw [parseLoop, if_neg hne]
    dsimp only
    generalize readToken lookup expr = r at htoken
    obtain ⟨log, r⟩ := r
    have hfirst (hsafe : ∀ x ∈ log, x.Safe) : ∀ x ∈ (.node steps (steps + 2) :: log : List ParseTouch), x.Safe := by
      intro x hx
      rcases List.mem_cons.mp hx with rfl | hx
      · change steps < steps + 2
        omega
      · exact hsafe x hx
    cases r with
    | refused => exact ⟨fun _ => hfirst (htoken.1 nofun), nofun⟩
    | overRead =>
      refine ⟨fun h => absurd rfl h, fun _ => ?_⟩
      obtain ⟨x, hx, hunsafe⟩ := htoken.2 rfl
      exact ⟨x, List.mem_cons_of_mem _ hx, hunsafe⟩
    | node n rest =>
      have hsafe := hfirst (htoken.1 nofun)
      cases rest with
      | nil =>
        refine ⟨fun _ x hx => ?_, nofun⟩
        rcases List.mem_append.mp hx with hx | hx
        · exact hsafe x hx
        · obtain rfl := List.mem_singleton.mp hx
          change steps + 1 < steps + 2
          omega
      | cons c rest =>
        dsimp only
        split_ifs
        · obtain ⟨hih, hover⟩ := ih (steps + 1) rest (.inr (Nat.succ_pos steps))
          refine ⟨fun h x hx => ?_, fun h => ?_⟩
          · rcases List.mem_append.mp hx with hx | hx
            · exact hsafe x hx
            · exact hih (fun heq => h (cons_eq_overRead.mpr heq)) x hx
          · obtain ⟨x, hx, hunsafe⟩ := hover (cons_eq_overRead.mp h)
            exact ⟨x, List.mem_append_right _ hx, hunsafe⟩
        · exact ⟨fun _ => hsafe, nofun⟩

/-! ## The grammar -/

/-- **A token of the grammar**: a decimal number, an operator, `PREV(v)`, or a variable. -/
def GrammarToken (lookup : Text → Option ℕ) (t : Text) : Prop :=
  isDecimal t = true ∨ (pieceOp t).isSome ∨
    (∃ v, t = "PREV(".toList ++ v ++ [')'] ∧ (lookup v).isSome) ∨ (lookup t).isSome

/-- **The grammar**: tokens between commas, at least one of them. -/
def InGrammar (lookup : Text → Option ℕ) (expr : Text) : Prop :=
  expr ≠ [] ∧ ∀ t ∈ splitOn ',' expr, GrammarToken lookup t

/-- The node that stands for a token. -/
def NodeFor (lookup : Text → Option ℕ) (t : Text) (n : Rpnp) : Prop :=
  (∃ v, pieceNumber t = some v ∧ n = ⟨.number, v, 0⟩) ∨
    (∃ op, pieceOp t = some op ∧ n = ⟨op, .num 0, 0⟩) ∨
    (∃ v c ptr, t = "PREV(".toList ++ v ++ [c] ∧ lookup v = some ptr ∧ n = ⟨.prevOther, .num 0, ptr⟩) ∨
    ∃ ptr, lookup t = some ptr ∧ n = ⟨.variable, .num 0, ptr⟩

/-- **`rpn_parse` follows the grammar on an expression**: it finds a program exactly where the grammar has one,
with one node for each token, and stays inside of its memory. -/
structure GrammarHolds (lookup : Text → Option ℕ) (expr : Text) : Prop where
  accepts : (∃ prog, (rpnParseText lookup expr).2 = .program prog) ↔ InGrammar lookup expr
  nodes : ∀ prog, (rpnParseText lookup expr).2 = .program prog →
    List.Forall₂ (NodeFor lookup) (splitOn ',' expr) prog
  safe : ∀ x ∈ (rpnParseText lookup expr).1, x.Safe

/-- Every token is one that the cascade makes a node of, in its place. -/
def Legible (lookup : Text → Option ℕ) (ts : List Text) : Prop :=
  (∀ t ∈ ts.dropLast, ∃ n, readPiece lookup false t = .node n) ∧
    ∀ t ∈ ts.getLast?, ∃ n, readPiece lookup true t = .node n

/-- **A token that the cascade makes nothing of**, behind tokens that it makes something of. -/
inductive Stops (lookup : Text → Option ℕ) : List Text → Prop where
  | last {t : Text} : t ≠ [] → readPiece lookup true t = .refused → Stops lookup [t]
  | here {t u : Text} {ts : List Text} : readPiece lookup false t = .refused → Stops lookup (t :: u :: ts)
  | cut {t u v : Text} {ts : List Text} : readPiece lookup false t = .cut v → u ≠ [] ∨ lookup v = none →
    Stops lookup (t :: u :: ts)
  | later {t u : Text} {ts : List Text} {n : Rpnp} : readPiece lookup false t = .node n →
    Stops lookup (u :: ts) → Stops lookup (t :: u :: ts)
  | behind {t v : Text} {ts : List Text} {ptr : ℕ} : readPiece lookup false t = .cut v → lookup v = some ptr →
    Stops lookup ts → Stops lookup (t :: [] :: ts)

/-- **Where `rpn_parse` follows the grammar**: the tokens are those of the grammar, and legible; or they are
not, and a token stops it. -/
def GrammarFits (lookup : Text → Option ℕ) (expr : Text) : Prop :=
  expr ≠ [] ∧
    ((∀ t ∈ splitOn ',' expr, GrammarToken lookup t) ∧ Legible lookup (splitOn ',' expr) ∨
      (¬ ∀ t ∈ splitOn ',' expr, GrammarToken lookup t) ∧ Stops lookup (splitOn ',' expr))

theorem cons_eq_program {n : Rpnp} {r : Parsed} {prog : List Rpnp} :
    r.cons n = .program prog ↔ ∃ p, r = .program p ∧ prog = n :: p := by
  cases r with
  | program p => simp [Parsed.cons, eq_comm]
  | refused => simp [Parsed.cons]
  | overRead => simp [Parsed.cons]

theorem cons_eq_refused {n : Rpnp} {r : Parsed} : r.cons n = .refused ↔ r = .refused := by
  cases r with
  | program p => simp [Parsed.cons]
  | refused => simp [Parsed.cons]
  | overRead => simp [Parsed.cons]

/-- The tokens are refused exactly where one of them stops the cascade. -/
theorem stops_iff (ts : List Text) : Stops lookup ts ↔ readPieces lookup ts = .refused := by
  constructor
  · intro h
    induction h with
    | last hne h => rw [readPieces, if_neg hne, h]
    | here h => rw [readPieces, h]
    | @cut t u v ts h hcut =>
      rw [readPieces, h]
      dsimp only
      rcases hcut with hu | hv
      · rw [if_neg hu]
      · rw [hv]
        exact ite_self _
    | later h _ ih =>
      rw [readPieces, h]
      exact cons_eq_refused.mpr ih
    | behind h hv _ ih =>
      rw [readPieces, h]
      dsimp only
      rw [if_pos rfl, hv]
      exact cons_eq_refused.mpr ih
  · intro h
    fun_induction readPieces lookup ts with
    | case1 => exact absurd h (by simp)
    | case2 => exact absurd h (by simp)
    | case3 t hne n hn => exact absurd h (by simp)
    | case4 t hne v hv => exact absurd h (by simp)
    | case5 t hne hr => exact .last hne hr
    | case6 t u ts n hn ih => exact .later hn (ih (cons_eq_refused.mp h))
    | case7 t ts v hv ptr hptr ih => exact .behind hv hptr (ih (cons_eq_refused.mp h))
    | case8 t ts v hv hptr => exact .cut hv (.inr hptr)
    | case9 t u ts v hv hu => exact .cut hv (.inl hu)
    | case10 t u ts hr => exact .here hr

theorem named_eq_node {op : Op} {v : Text} {n : Rpnp} :
    PieceRead.named lookup op v = .node n ↔ ∃ ptr, lookup v = some ptr ∧ n = ⟨op, .num 0, ptr⟩ := by
  rw [PieceRead.named]
  cases lookup v with
  | none => simp
  | some ptr => simp [eq_comm]

/-- A node stands for the token it was made of. -/
theorem nodeFor_of_readPiece {last : Bool} {n : Rpnp} (h : readPiece lookup last t = .node n) :
    NodeFor lookup t n := by
  rw [readPiece] at h
  cases hnumber : (if last then none else pieceNumber t) with
  | some v =>
    simp only [hnumber] at h
    refine .inl ⟨v, ?_, (PieceRead.node.inj h).symm⟩
    split_ifs at hnumber
    exact hnumber
  | none =>
    simp only [hnumber] at h
    rw [readWord] at h
    cases hprev : piecePrev t with
    | some p =>
      obtain ⟨v, r⟩ := p
      simp only [hprev] at h
      obtain ⟨heq, -⟩ := piecePrev_eq_some hprev
      cases r with
      | nil => exact absurd h (by simp)
      | cons c r =>
        cases r with
        | nil =>
          obtain ⟨ptr, hptr, rfl⟩ := named_eq_node.mp h
          exact .inr (.inr (.inl ⟨v, c, ptr, heq, hptr, rfl⟩))
        | cons d r => exact absurd h (by simp)
    | none =>
      simp only [hprev] at h
      cases hop : pieceOp t with
      | some op =>
        simp only [hop] at h
        exact .inr (.inl ⟨op, hop, (PieceRead.node.inj h).symm⟩)
      | none =>
        simp only [hop] at h
        cases hscan : scanSet 255 isNameChar t with
        | none => simp [hscan] at h
        | some p =>
          obtain ⟨v, r⟩ := p
          simp only [hscan] at h
          cases r with
          | nil =>
            obtain ⟨ptr, hptr, rfl⟩ := named_eq_node.mp h
            obtain ⟨rfl, -⟩ := scanSet_eq_some hscan
            rw [List.append_nil]
            exact .inr (.inr (.inr ⟨ptr, hptr, rfl⟩))
          | cons c r => exact absurd h (by simp)

theorem readPiece_nil : readPiece lookup true [] = .refused := rfl

theorem legible_cons {u : Text} {ts : List Text} :
    Legible lookup (t :: u :: ts) ↔ (∃ n, readPiece lookup false t = .node n) ∧ Legible lookup (u :: ts) := by
  rw [Legible, Legible, List.dropLast_cons_cons, List.forall_mem_cons, List.getLast?_cons_cons, and_assoc]

theorem legible_singleton : Legible lookup [t] ↔ ∃ n, readPiece lookup true t = .node n := by
  simp [Legible]

/-- Legible tokens become a program of one node each. -/
theorem readPieces_of_legible {ts : List Text} (h : Legible lookup ts) :
    ∃ prog, readPieces lookup ts = .program prog ∧ List.Forall₂ (NodeFor lookup) ts prog := by
  induction ts with
  | nil => exact ⟨[], rfl, .nil⟩
  | cons t ts ih =>
    cases ts with
    | nil =>
      obtain ⟨n, hn⟩ := legible_singleton.mp h
      have hne : t ≠ [] := by
        rintro rfl
        exact absurd hn (by simp [readPiece_nil])
      refine ⟨[n], ?_, .cons (nodeFor_of_readPiece hn) .nil⟩
      rw [readPieces, if_neg hne, hn]
    | cons u ts =>
      obtain ⟨⟨n, hn⟩, hrest⟩ := legible_cons.mp h
      obtain ⟨prog, hprog, hall⟩ := ih hrest
      refine ⟨n :: prog, ?_, .cons (nodeFor_of_readPiece hn) hall⟩
      rw [readPieces, hn]
      exact cons_eq_program.mpr ⟨prog, hprog, rfl⟩

/-- No token becomes more than one node; where each becomes one, all are legible. -/
theorem legible_of_length {ts : List Text} {prog : List Rpnp} (h : readPieces lookup ts = .program prog) :
    prog.length ≤ ts.length ∧ (prog.length = ts.length → Legible lookup ts) := by
  fun_induction readPieces lookup ts generalizing prog with
  | case1 =>
    obtain rfl : [] = prog := by simpa using h
    exact ⟨le_refl _, fun _ => ⟨nofun, nofun⟩⟩
  | case2 =>
    obtain rfl : [] = prog := by simpa using h
    exact ⟨Nat.zero_le _, fun hlen => absurd hlen (by decide)⟩
  | case3 t hne n hn =>
    obtain rfl : [n] = prog := by simpa using h
    exact ⟨le_refl _, fun _ => legible_singleton.mpr ⟨n, hn⟩⟩
  | case4 => exact absurd h (by simp)
  | case5 => exact absurd h (by simp)
  | case6 t u ts n hn ih =>
    obtain ⟨p, hp, rfl⟩ := cons_eq_program.mp h
    obtain ⟨hle, hlegible⟩ := ih hp
    simp only [List.length_cons] at hle ⊢
    refine ⟨by omega, fun hlen => legible_cons.mpr ⟨⟨n, hn⟩, hlegible ?_⟩⟩
    simp only [List.length_cons]
    omega
  | case7 t ts v hv ptr hptr ih =>
    obtain ⟨p, hp, rfl⟩ := cons_eq_program.mp h
    have hle := (ih hp).1
    simp only [List.length_cons] at hle ⊢
    exact ⟨by omega, fun hlen => absurd hlen (by omega)⟩
  | case8 => exact absurd h (by simp)
  | case9 => exact absurd h (by simp)
  | case10 => exact absurd h (by simp)

/-- **`rpn_parse` follows the grammar** exactly on the expressions that fit. -/
theorem grammarHolds_iff (lookup : Text → Option ℕ) (expr : Text) :
    GrammarHolds lookup expr ↔ GrammarFits lookup expr := by
  constructor
  · intro h
    have hne : expr ≠ [] := by
      rintro rfl
      exact (h.accepts.mp ⟨[], rfl⟩).1 rfl
    refine ⟨hne, ?_⟩
    by_cases hall : ∀ t ∈ splitOn ',' expr, GrammarToken lookup t
    · obtain ⟨prog, hprog⟩ := h.accepts.mpr ⟨hne, hall⟩
      have hlen := (h.nodes prog hprog).length_eq
      rw [rpnParseText_eq] at hprog
      exact .inl ⟨hall, (legible_of_length hprog).2 hlen.symm⟩
    · refine .inr ⟨hall, (stops_iff _).mpr ?_⟩
      rw [← rpnParseText_eq]
      cases hresult : (rpnParseText lookup expr).2 with
      | program prog => exact absurd (h.accepts.mp ⟨prog, hresult⟩).2 hall
      | refused => rfl
      | overRead =>
        obtain ⟨x, hx, hunsafe⟩ := (parseLoop_sane expr.length 0 expr (.inl hne)).2 hresult
        exact absurd (h.safe x hx) hunsafe
  · rintro ⟨hne, h⟩
    have hsane := (@parseLoop_sane lookup expr.length 0 expr (.inl hne)).1
    rcases h with ⟨hall, hlegible⟩ | ⟨hall, hstops⟩
    · obtain ⟨prog, hprog, hnodes⟩ := readPieces_of_legible hlegible
      rw [← rpnParseText_eq] at hprog
      refine ⟨⟨fun _ => ⟨hne, hall⟩, fun _ => ⟨prog, hprog⟩⟩, fun p hp => ?_, hsane ?_⟩
      · rw [hprog] at hp
        obtain rfl : prog = p := by simpa using hp
        exact hnodes
      · change (rpnParseText lookup expr).2 ≠ _
        rw [hprog]
        simp
    · have hrefused := (stops_iff _).mp hstops
      rw [← rpnParseText_eq] at hrefused
      refine ⟨⟨?_, fun hin => absurd hin.2 hall⟩, fun p hp => ?_, hsane ?_⟩
      · rintro ⟨p, hp⟩
        rw [hrefused] at hp
        exact absurd hp (by simp)
      · rw [hrefused] at hp
        exact absurd hp (by simp)
      · change (rpnParseText lookup expr).2 ≠ _
        rw [hrefused]
        simp

/-! ## Names that can be read -/

section Names

variable (hnames : ∀ v, (lookup v).isSome → scanSet 255 isNameChar v = some (v, []))

include hnames

theorem readWord_of_name {ptr : ℕ} (hptr : lookup t = some ptr) : ∃ n, readWord lookup t = .node n := by
  have hscan := hnames t (by rw [hptr]; rfl)
  obtain ⟨-, -, -, hchars⟩ := scanSet_eq_some hscan
  have hprev : piecePrev t = none := by
    cases h : piecePrev t with
    | none => rfl
    | some p =>
      obtain ⟨heq, -⟩ := piecePrev_eq_some (v := p.1) (r := p.2) h
      exact absurd (hchars '(' (by rw [heq]; simp)) (by decide)
  rw [readWord, hprev]
  dsimp only
  cases pieceOp t with
  | some op => exact ⟨_, rfl⟩
  | none =>
    simp only [hscan, PieceRead.named, hptr]
    exact ⟨_, rfl⟩

theorem readWord_of_prev {v : Text} {ptr : ℕ} (hptr : lookup v = some ptr) :
    ∃ n, readWord lookup ("PREV(".toList ++ v ++ [')']) = .node n := by
  have hprev : piecePrev ("PREV(".toList ++ v ++ [')']) = some (v, [')']) := by
    rw [piecePrev, scanWord_eq_some.mpr (List.append_assoc _ v [')'])]
    dsimp only [Option.bind_some]
    rw [scanSet_append (by decide), hnames v (by rw [hptr]; rfl)]
    rfl
  rw [readWord, hprev]
  simp only [PieceRead.named, hptr]
  exact ⟨_, rfl⟩

omit hnames in
theorem readWord_of_op (hop : (pieceOp t).isSome) : ∃ n, readWord lookup t = .node n := by
  obtain ⟨op, hop⟩ := Option.isSome_iff_exists.mp hop
  have hprev : piecePrev t = none := by
    cases h : piecePrev t with
    | none => rfl
    | some p => exact absurd (pieceOp_of_prev (v := p.1) (r := p.2) h) (by simp [hop])
  rw [readWord, hprev, hop]
  exact ⟨_, rfl⟩

/-- A token of the grammar is a number, or a word that is read in every place. -/
theorem readWord_of_token (h : GrammarToken lookup t) :
    isDecimal t = true ∨ ∃ n, readWord lookup t = .node n := by
  rcases h with h | h | ⟨v, rfl, h⟩ | h
  · exact .inl h
  · exact .inr (readWord_of_op h)
  · obtain ⟨ptr, hptr⟩ := Option.isSome_iff_exists.mp h
    exact .inr (readWord_of_prev hnames hptr)
  · obtain ⟨ptr, hptr⟩ := Option.isSome_iff_exists.mp h
    exact .inr (readWord_of_name hnames hptr)

/-- **An expression of the grammar that does not end in a number is read**, where all names can be. -/
theorem grammarHolds_of_names {expr : Text} (hin : InGrammar lookup expr)
    (hlast : ∀ t ∈ (splitOn ',' expr).getLast?, isDecimal t = false ∨ (lookup t).isSome) :
    GrammarHolds lookup expr := by
  refine (grammarHolds_iff lookup expr).mpr ⟨hin.1, .inl ⟨hin.2, fun t ht => ?_, fun t ht => ?_⟩⟩
  · rw [readPiece, if_neg (by decide)]
    cases hnumber : pieceNumber t with
    | some v => exact ⟨_, rfl⟩
    | none =>
      rcases readWord_of_token hnames (hin.2 t ((List.dropLast_prefix _).subset ht)) with h | h
      · obtain ⟨v, hv⟩ := scanDouble_of_isDecimal h
        rw [pieceNumber, hv] at hnumber
        exact absurd hnumber (by simp)
      · exact h
  · rw [readPiece, if_pos rfl]
    have hmem := List.mem_of_getLast? ht
    rcases hlast t ht with h | h
    · rcases readWord_of_token hnames (hin.2 t hmem) with hdec | hword
      · rw [h] at hdec
        exact absurd hdec (by decide)
      · exact hword
    · obtain ⟨ptr, hptr⟩ := Option.isSome_iff_exists.mp h
      exact readWord_of_name hnames hptr

end Names

/-- A number in last place: `5` is in the grammar, and `rpn_parse` returns NULL. -/
theorem last_number_refused : ¬ ∀ lookup expr, GrammarHolds lookup expr := by
  intro h
  have hin : InGrammar (fun _ => none) "5".toList := by
    refine ⟨by decide, ?_⟩
    rw [splitOn_token (by decide), List.forall_mem_singleton]
    exact .inl (by decide +kernel)
  obtain ⟨prog, hprog⟩ := (h (fun _ => none) "5".toList).accepts.mpr hin
  have hrefused : (rpnParseText (fun _ => none) "5".toList).2 = .refused := by decide +kernel
  rw [hrefused] at hprog
  exact absurd hprog (by simp)

end Rrdtool
