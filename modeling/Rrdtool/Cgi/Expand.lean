import Rrdtool.Cgi.Scanargs

/-!
# The main loop of `rrdcgi`

At each `<` the loop tries the tags once, in a fixed order, and then goes one character on. A directive is replaced by
the result of its function, and what follows moves up. Behind an empty result the next directive stands at the same
place, where it is found only if its tag is tried later.

* `parse`, `mainLoop` — the code;
* `walk` — what the loop does with a template;
* `mainLoop_template` — so it does;
* `expands_iff` — when all directives are expanded.
-/

namespace Rrdtool.Cgi

open CStr
open Daemon (nul cstr cstr_cons cstr_append cstr_of_not_mem)

/-! ## The code -/

/-- The tags. -/
inductive Tag : Type where
  | cv | cvPath | cvQuote | getenv | getvar | goodfor | graph | includeFile | print | setconstvar | setenv | setvar
  | timeLast | timeNow | timeStrftime | internal
  deriving DecidableEq

/-- The name of a tag. -/
def Tag.name : Tag → Text
  | .cv => "CV".toList
  | .cvPath => "CV::PATH".toList
  | .cvQuote => "CV::QUOTE".toList
  | .getenv => "GETENV".toList
  | .getvar => "GETVAR".toList
  | .goodfor => "GOODFOR".toList
  | .graph => "GRAPH".toList
  | .includeFile => "INCLUDE".toList
  | .print => "PRINT".toList
  | .setconstvar => "SETCONSTVAR".toList
  | .setenv => "SETENV".toList
  | .setvar => "SETVAR".toList
  | .timeLast => "TIME::LAST".toList
  | .timeNow => "TIME::NOW".toList
  | .timeStrftime => "TIME::STRFTIME".toList
  | .internal => "INTERNAL".toList

/-- The text that a tag is looked for with. -/
def Tag.text (tag : Tag) : Text := '<' :: 'R' :: 'R' :: 'D' :: ':' :: ':' :: tag.name

/-- The tags, in the order in which they are tried. -/
def tagsTried (filter : Bool) : List Tag :=
  (if filter then [] else [.cv, .cvPath, .cvQuote, .getenv])
    ++ [.getvar, .goodfor, .graph, .includeFile, .print, .setconstvar, .setenv, .setvar, .timeLast, .timeNow,
      .timeStrftime, .internal]

/-- The functions of the tags, which may have effects. -/
structure CgiFuncs (σ : Type) : Type where
  /-- the function of a tag -/
  call : Tag → List Text → σ → Option Text × σ
  /-- `rrd_expand_vars` -/
  rrdExpandVars : Text → Text

/-- What the functions have done. -/
structure CgiRun (σ : Type) : Type where
  /-- what they work on -/
  vars : σ
  /-- the calls, in order -/
  calls : List (Tag × List Text)

variable {σ : Type} (f : CgiFuncs σ)

/-- `val = func(argc, args)`; there is no text in `NULL`. -/
def callTag (tag : Tag) (args : List Text) (run : CgiRun σ) : Text × CgiRun σ :=
  let r := f.call tag args run.vars
  (r.1.getD [], ⟨r.2, run.calls ++ [(tag, args)]⟩)

/-- What stands in the place of a directive that is not closed. -/
def parsingProblem : Text :=
  ("[ERROR: Parsing Problem with the following text\n" ++
    " Check original file. This may have been altered by parsing.]\n\n").toList

/-- The value in the place of the text up to `stop`. What was behind the string stays, unless the memory is made to
fit. -/
def splice (buf val : Text) (stop : ℕ) : Text :=
  let pending := cstr (buf.drop stop)
  val ++ pending ++ nul :: (if stop < val.length then [] else buf.drop (val.length + pending.length + 1))

/-- Does the buffer start with the tag, and a blank? -/
def matchesTag (tag : Tag) (buf : Text) : Bool :=
  tag.text.isPrefixOf buf && (buf.drop tag.text.length).head?.any isspace

/-- `parse`, with the buffer from the current position on -/
def parse (tag : Tag) (s : Text × CgiRun σ) : Text × CgiRun σ :=
  if matchesTag tag s.1 then
    let scanned := scanargs f.rrdExpandVars (s.1.drop tag.text.length)
    let buf := s.1.take tag.text.length ++ scanned.line
    match scanned.stop with
    | some stop =>
      let r := callTag f tag scanned.args s.2
      (splice buf r.1 (tag.text.length + stop), r.2)
    | none => (splice buf parsingProblem 1, s.2)
  else s

/-- The loop of `main`, with the buffer from `buffer[i]` on. There is no result when the fuel runs out or a byte behind
the memory is read. -/
def mainLoop (filter : Bool) : ℕ → Text → CgiRun σ → Option (Text × CgiRun σ)
  | 0, _, _ => none
  | _ + 1, [], _ => none
  | fuel + 1, c :: rest, run =>
    if c = nul then some (c :: rest, run)
    else if c ≠ '<' then (mainLoop filter fuel rest run).map fun r => (c :: r.1, r.2)
    else
      match (tagsTried filter).foldl (fun s tag => parse f tag s) (c :: rest, run) with
      | ([], _) => none
      | (c :: rest, run) => (mainLoop filter fuel rest run).map fun r => (c :: r.1, r.2)

/-- The loop ends, with this buffer. -/
def Returns (filter : Bool) (buf : Text) (run : CgiRun σ) (r : Text × CgiRun σ) : Prop :=
  ∃ m, ∀ k, mainLoop f filter (m + k) buf run = some r

/-! ## Templates -/

/-- A piece of a template. -/
inductive Piece : Type where
  /-- a character -/
  | plain (c : Char)
  /-- a directive; its body begins behind the tag -/
  | directive (tag : Tag) (body : Text)

/-- The text of a piece. -/
def Piece.text : Piece → Text
  | .plain c => [c]
  | .directive tag body => tag.text ++ body ++ ['>']

/-- **Plain text without `<`, and well-formed directives**: a blank follows the tag, and the arguments have no quotes,
no directives, and no open tags. -/
def Piece.WellFormed (filter : Bool) : Piece → Prop
  | .plain c => c ≠ '<' ∧ c ≠ nul
  | .directive tag body => tag ∈ tagsTried filter ∧ body.head?.any isspace = true ∧ Closed 0 body ∧ Quiet body

/-- The call of a directive. -/
def Piece.call : Piece → Option (Tag × List Text)
  | .plain _ => none
  | .directive tag body => some (tag, bodyArgs f.rrdExpandVars body)

/-- The calls of the directives of a template, in order. -/
def templateCalls (ps : List Piece) : List (Tag × List Text) := ps.filterMap (Piece.call f)

/-- The text of a template. -/
def templateText (ps : List Piece) : Text := ps.flatMap Piece.text

/-- **Every directive is replaced by the result of its function**, one after the other. -/
def expansion : List Piece → CgiRun σ → Text × CgiRun σ
  | [], run => ([], run)
  | .plain c :: ps, run =>
    let r := expansion ps run
    (c :: r.1, r.2)
  | .directive tag body :: ps, run =>
    let val := callTag f tag (bodyArgs f.rrdExpandVars body) run
    let r := expansion ps val.2
    (val.1 ++ r.1, r.2)

/-- When a tag is tried. -/
def turn (filter : Bool) (tag : Tag) : ℕ := (tagsTried filter).idxOf tag

/-- The tags that have had their turn, behind a result. -/
def turnsBehind (filter : Bool) (tag : Tag) (val : Text) : ℕ := if val = [] then turn filter tag + 1 else 0

/-- **What the loop does**: when the tags before `n` have had their turn at this place, a directive of theirs is left
as it is. -/
def walk (filter : Bool) : ℕ → List Piece → CgiRun σ → Text × CgiRun σ
  | _, [], run => ([], run)
  | _, .plain c :: ps, run =>
    let r := walk filter 0 ps run
    (c :: r.1, r.2)
  | n, .directive tag body :: ps, run =>
    if n ≤ turn filter tag then
      let val := callTag f tag (bodyArgs f.rrdExpandVars body) run
      let r := walk filter (turnsBehind filter tag val.1) ps val.2
      (val.1 ++ r.1, r.2)
    else
      let r := walk filter 0 ps run
      (tag.text ++ body ++ ['>'] ++ r.1, r.2)

/-- **No directive is left**: one that stands directly behind directives without a result has a later turn than they
have. -/
def AllSeen (filter : Bool) : ℕ → List Piece → CgiRun σ → Prop
  | _, [], _ => True
  | _, .plain _ :: ps, run => AllSeen filter 0 ps run
  | n, .directive tag body :: ps, run =>
    n ≤ turn filter tag ∧
      let val := callTag f tag (bodyArgs f.rrdExpandVars body) run
      AllSeen filter (turnsBehind filter tag val.1) ps val.2

variable {f} {filter : Bool} {ps : List Piece} {n : ℕ} {run : CgiRun σ}

theorem templateCalls_directive (tag : Tag) (body : Text) (ps : List Piece) :
    templateCalls f (.directive tag body :: ps) = (tag, bodyArgs f.rrdExpandVars body) :: templateCalls f ps := rfl

/-- If none is left, the loop expands the template. -/
theorem walk_eq_expansion (h : AllSeen f filter n ps run) : walk f filter n ps run = expansion f ps run := by
  induction ps generalizing n run with
  | nil => rfl
  | cons p ps ih =>
    cases p with
    | plain c => rw [walk, expansion, ih h]
    | directive tag body =>
      obtain ⟨hturn, hrest⟩ := h
      rw [walk, if_pos hturn, expansion]
      dsimp only
      rw [ih hrest]

theorem walk_calls_le (f : CgiFuncs σ) (filter : Bool) (n : ℕ) (ps : List Piece) (run : CgiRun σ) :
    (walk f filter n ps run).2.calls.length ≤ run.calls.length + (templateCalls f ps).length := by
  induction ps generalizing n run with
  | nil => exact le_rfl
  | cons p ps ih =>
    cases p with
    | plain c => exact ih 0 run
    | directive tag body =>
      rw [walk, templateCalls_directive, List.length_cons]
      split_ifs
      · refine (ih _ _).trans ?_
        rw [callTag, List.length_append, List.length_singleton]
        omega
      · have := ih 0 run
        dsimp only
        omega

/-- If one is left, a call is missing. -/
theorem walk_calls_lt (h : ¬ AllSeen f filter n ps run) :
    (walk f filter n ps run).2.calls.length < run.calls.length + (templateCalls f ps).length := by
  induction ps generalizing n run with
  | nil => exact absurd trivial h
  | cons p ps ih =>
    cases p with
    | plain c => exact ih h
    | directive tag body =>
      rw [walk, templateCalls_directive, List.length_cons]
      split_ifs with hturn
      · have hrest : ¬ AllSeen f filter (turnsBehind filter tag _) ps _ := fun hrest => h ⟨hturn, hrest⟩
        refine (ih hrest).trans_le ?_
        rw [callTag, List.length_append, List.length_singleton]
        omega
      · have := walk_calls_le f filter 0 ps run
        dsimp only
        omega

/-- The calls of an expansion are those of the directives. -/
theorem expansion_calls (ps : List Piece) (run : CgiRun σ) :
    (expansion f ps run).2.calls = run.calls ++ templateCalls f ps := by
  induction ps generalizing run with
  | nil => exact (List.append_nil _).symm
  | cons p ps ih =>
    cases p with
    | plain c => exact ih run
    | directive tag body =>
      rw [expansion, templateCalls_directive]
      dsimp only
      rw [ih, callTag, List.append_assoc]
      rfl

/-! ## The tags -/

theorem name_not_space (tag : Tag) : ∀ c ∈ tag.text, isspace c = false := by
  cases tag <;> exact forall_mem_of_all (by decide)

theorem tag_ext {tag tag' : Tag} (h : tag.text = tag'.text) : tag = tag' := by
  cases tag <;> cases tag' <;> first | rfl | exact absurd h (by decide)

theorem tagsTried_nodup (filter : Bool) : (tagsTried filter).Nodup := by
  cases filter <;> decide

/-- A tag is up to the first blank. -/
theorem matchesTag_iff {tag tag' : Tag} {b : Char} (hb : isspace b = true) (rest : Text) :
    matchesTag tag' (tag.text ++ b :: rest) = true ↔ tag' = tag := by
  have hspan (t : Tag) (c : Char) (hc : isspace c = true) (u : Text) :
      (t.text ++ c :: u).takeWhile (fun x => !isspace x) = t.text := by
    rw [takeWhile_append (by simp [hc]), List.takeWhile_eq_self_iff]
    intro x hx
    rw [name_not_space t x hx]
    rfl
  constructor
  · intro h
    rw [matchesTag, Bool.and_eq_true, List.isPrefixOf_iff_prefix] at h
    obtain ⟨⟨u, hu⟩, hnext⟩ := h
    rw [← hu, List.drop_left] at hnext
    cases u with
    | nil => cases hnext
    | cons c u =>
      refine tag_ext ?_
      rw [← hspan tag' c hnext u, hu, hspan tag b hb rest]
  · rintro rfl
    rw [matchesTag, List.drop_left, Bool.and_eq_true, List.isPrefixOf_iff_prefix]
    exact ⟨List.prefix_append _ _, hb⟩

/-- A tag begins like a directive. -/
theorem not_matchesTag {buf : Text} (h : ¬ "<RRD::".toList <+: buf) (tag : Tag) : matchesTag tag buf = false := by
  rw [← Bool.not_eq_true, matchesTag, Bool.and_eq_true, List.isPrefixOf_iff_prefix]
  rintro ⟨hbegin, -⟩
  exact h (List.IsPrefix.trans ⟨tag.name, rfl⟩ hbegin)

theorem parse_of_not {tag : Tag} {s : Text × CgiRun σ} (h : matchesTag tag s.1 = false) : parse f tag s = s := by
  rw [parse, h]
  rfl

/-- Tags that do not match are passed over. -/
theorem foldl_parse_of_not {tags : List Tag} {s : Text × CgiRun σ} (h : ∀ tag ∈ tags, matchesTag tag s.1 = false) :
    tags.foldl (fun s tag => parse f tag s) s = s := by
  induction tags with
  | nil => rfl
  | cons tag tags ih =>
    rw [List.foldl_cons, parse_of_not (h tag List.mem_cons_self)]
    exact ih fun t ht => h t (List.mem_cons_of_mem tag ht)

/-! ## The loop on a template -/

variable (f filter) in
/-- The loop behind a pass over the tags: the character that stands there now is passed over. -/
def afterPass (fuel : ℕ) (s : Text × CgiRun σ) : Option (Text × CgiRun σ) :=
  match s with
  | ([], _) => none
  | (c :: rest, run) => (mainLoop f filter fuel rest run).map fun r => (c :: r.1, r.2)

variable (f filter) in
/-- The loop ends, behind a pass. -/
def ReturnsAfter (s r : Text × CgiRun σ) : Prop := ∃ m, ∀ k, afterPass f filter (m + k) s = some r

theorem returns_nul (rest : Text) : Returns f filter (nul :: rest) run (nul :: rest, run) := by
  refine ⟨1, fun k => ?_⟩
  rw [Nat.add_comm, mainLoop, if_pos rfl]

theorem returns_cons {c : Char} {rest : Text} {r : Text × CgiRun σ} (hnul : c ≠ nul) (hlt : c ≠ '<')
    (h : Returns f filter rest run r) : Returns f filter (c :: rest) run (c :: r.1, r.2) := by
  obtain ⟨m, hm⟩ := h
  refine ⟨m + 1, fun k => ?_⟩
  rw [Nat.add_right_comm, mainLoop, if_neg hnul, if_pos hlt, hm]
  rfl

theorem returns_lt {rest : Text} {r : Text × CgiRun σ}
    (h : ReturnsAfter f filter ((tagsTried filter).foldl (fun s tag => parse f tag s) ('<' :: rest, run)) r) :
    Returns f filter ('<' :: rest) run r := by
  obtain ⟨m, hm⟩ := h
  refine ⟨m + 1, fun k => ?_⟩
  rw [Nat.add_right_comm, mainLoop, if_neg (by decide), if_neg (by decide)]
  exact hm k

theorem returnsAfter_cons {c : Char} {rest : Text} {r : Text × CgiRun σ} (h : Returns f filter rest run r) :
    ReturnsAfter f filter (c :: rest, run) (c :: r.1, r.2) := by
  obtain ⟨m, hm⟩ := h
  refine ⟨m, fun k => ?_⟩
  rw [afterPass, hm]
  rfl

/-- **A quiet text is passed over.** -/
theorem returns_quiet {t rest : Text} {x : Char} {r : Text × CgiRun σ} (ht : Quiet t) (hnul : nul ∉ t)
    (hx : x ∉ "<RRD::".toList) (h : Returns f filter (x :: rest) run r) :
    Returns f filter (t ++ x :: rest) run (t ++ r.1, r.2) := by
  induction t with
  | nil => exact h
  | cons c t ih =>
    obtain ⟨hc, hnul⟩ := not_or.mp (List.mem_cons.not.mp hnul)
    have hrest := ih (ht.suffix (List.suffix_cons c t)) hnul
    by_cases hlt : c = '<'
    · rw [hlt]
      apply returns_lt
      rw [foldl_parse_of_not]
      · exact returnsAfter_cons hrest
      · intro tag _
        refine not_matchesTag (fun hbegin => ?_) tag
        rw [hlt] at ht
        exact ht _ (List.suffix_refl _) (prefix_of_append hx hbegin)
    · exact returns_cons (Ne.symm hc) hlt hrest

/-- Text without `<` is passed over. -/
theorem returns_plain {t rest : Text} {r : Text × CgiRun σ} (hlt : '<' ∉ t) (hnul : nul ∉ t)
    (h : Returns f filter rest run r) : Returns f filter (t ++ rest) run (t ++ r.1, r.2) := by
  induction t with
  | nil => exact h
  | cons c t ih =>
    obtain ⟨hc, hnul⟩ := not_or.mp (List.mem_cons.not.mp hnul)
    obtain ⟨hc', hlt⟩ := not_or.mp (List.mem_cons.not.mp hlt)
    exact returns_cons (Ne.symm hc) (Ne.symm hc') (ih hlt hnul)

/-- What is behind the terminator: up to another one, no directive begins. -/
def Settled (behind : Text) : Prop := ∃ w r, behind = w ++ nul :: r ∧ nul ∉ w ∧ Quiet w

/-- **A directive is replaced by its result.** -/
theorem parse_directive (f : CgiFuncs σ) (tag : Tag) {body rest : Text} (behind : Text) (run : CgiRun σ)
    (hbody : body.head?.any isspace = true) (hclosed : Closed 0 body) (hquiet : Quiet body) (hrest : nul ∉ rest) :
    ∃ behind', parse f tag (tag.text ++ body ++ '>' :: (rest ++ nul :: behind), run)
        = ((callTag f tag (bodyArgs f.rrdExpandVars body) run).1 ++ rest ++ nul :: behind',
          (callTag f tag (bodyArgs f.rrdExpandVars body) run).2)
      ∧ ((callTag f tag (bodyArgs f.rrdExpandVars body) run).1 = [] → rest = [] → Settled behind') := by
  have hmatches : matchesTag tag (tag.text ++ body ++ '>' :: (rest ++ nul :: behind)) = true := by
    cases body with
    | nil => cases hbody
    | cons b body =>
      rw [List.append_assoc]
      exact (matchesTag_iff hbody _).mpr rfl
  obtain ⟨hargs, hstop, hdrop, w, r, hline, hnul, hw⟩ :=
    scanargs_closed f.rrdExpandVars (rest ++ nul :: behind) hclosed hquiet
  have hpending : cstr ((tag.text ++ (scanargs f.rrdExpandVars (body ++ '>' :: (rest ++ nul :: behind))).line).drop
      (tag.text.length + (body.length + 1))) = rest := by
    rw [List.drop_length_add_append, hdrop, cstr_append hrest]
  rw [parse, hmatches, if_pos rfl]
  dsimp only
  rw [List.append_assoc, List.drop_left, List.take_left, hstop, hargs]
  dsimp only
  generalize hval : callTag f tag (bodyArgs f.rrdExpandVars body) run = val
  rw [splice, hpending]
  refine ⟨_, rfl, ?_⟩
  rintro hempty rfl
  rw [hempty, if_neg (by simp), hline]
  have hname : ∀ c ∈ tag.text.tail, c ≠ '<' ∧ c ≠ nul := by
    cases tag <;> exact forall_mem_of_all (by decide)
  refine ⟨tag.text.tail ++ w, r, ?_, ?_, hw.append fun h => (hname _ h).1 rfl⟩
  · rw [List.append_assoc]
    rfl
  · rw [List.mem_append, not_or]
    exact ⟨fun h => (hname _ h).2 rfl, hnul⟩

/-- The results have no `<`, and they are strings. -/
def PlainResults (f : CgiFuncs σ) : Prop :=
  ∀ tag args vars val, (f.call tag args vars).1 = some val → '<' ∉ val ∧ nul ∉ val

theorem callTag_plain (hf : PlainResults f) (tag : Tag) (args : List Text) (run : CgiRun σ) :
    '<' ∉ (callTag f tag args run).1 ∧ nul ∉ (callTag f tag args run).1 := by
  rw [callTag]
  cases hval : (f.call tag args run.vars).1 with
  | none => exact ⟨List.not_mem_nil, List.not_mem_nil⟩
  | some val => exact hf tag args run.vars val hval

theorem text_nul {p : Piece} (h : p.WellFormed filter) : nul ∉ p.text := by
  cases p with
  | plain c => simpa [Piece.text] using h.2.symm
  | directive tag body =>
    obtain ⟨-, -, hclosed, -⟩ := h
    have hname : nul ∉ tag.text := by cases tag <;> decide
    simp [Piece.text, hname, hclosed.nul_not_mem]
    decide

theorem templateText_nul (h : ∀ p ∈ ps, p.WellFormed filter) : nul ∉ templateText ps := by
  intro hmem
  obtain ⟨p, hp, hnul⟩ := List.mem_flatMap.mp hmem
  exact text_nul (h p hp) hnul

/-- The tags before and behind a turn. -/
theorem drop_turn {tag : Tag} (hmem : tag ∈ tagsTried filter) (hn : n ≤ turn filter tag) :
    ∃ before, (tagsTried filter).drop n = before ++ tag :: (tagsTried filter).drop (turn filter tag + 1) ∧ tag ∉ before := by
  have hlt : turn filter tag < (tagsTried filter).length := List.idxOf_lt_length_of_mem hmem
  have hsplit : tagsTried filter
      = (tagsTried filter).take (turn filter tag) ++ tag :: (tagsTried filter).drop (turn filter tag + 1) := by
    have htag : (tagsTried filter)[turn filter tag] = tag := List.getElem_idxOf hlt
    have hdrop := List.cons_getElem_drop_succ (h := hlt)
    rw [htag] at hdrop
    rw [hdrop, List.take_append_drop]
  refine ⟨((tagsTried filter).take (turn filter tag)).drop n, ?_, fun h => ?_⟩
  · have hlength : n ≤ ((tagsTried filter).take (turn filter tag)).length := by
      rw [List.length_take]
      omega
    rw [← List.drop_append_of_le_length hlength, ← hsplit]
  · have := (List.mem_take_iff_idxOf_lt hmem).mp (List.mem_of_mem_drop h)
    exact lt_irrefl _ this

theorem not_mem_drop_turn {tag : Tag} (hn : turn filter tag < n) : tag ∉ (tagsTried filter).drop n := by
  intro hmem
  have htake := (List.mem_take_iff_idxOf_lt (List.mem_of_mem_drop hmem)).mpr hn
  exact List.disjoint_take_drop (tagsTried_nodup filter) le_rfl htake hmem

/-- **The loop on a template**, from a place where some tags have had their turn, and from a new place. -/
theorem mainLoop_template (hf : PlainResults f) (hwf : ∀ p ∈ ps, p.WellFormed filter) :
    (∀ n run behind, (ps = [] → Settled behind) → ∃ behind', ReturnsAfter f filter
        (((tagsTried filter).drop n).foldl (fun s tag => parse f tag s) (templateText ps ++ nul :: behind, run))
        ((walk f filter n ps run).1 ++ nul :: behind', (walk f filter n ps run).2))
      ∧ ∀ run behind, ∃ behind', Returns f filter (templateText ps ++ nul :: behind) run
          ((walk f filter 0 ps run).1 ++ nul :: behind', (walk f filter 0 ps run).2) := by
  induction ps with
  | nil =>
    constructor
    · intro n run behind hsettled
      obtain ⟨w, r, rfl, hnul, hw⟩ := hsettled rfl
      refine ⟨w ++ nul :: r, ?_⟩
      rw [foldl_parse_of_not]
      · exact returnsAfter_cons (returns_quiet hw hnul (by decide) (returns_nul r))
      · refine fun tag _ => not_matchesTag (fun hbegin => ?_) tag
        exact absurd (List.cons_prefix_cons.mp hbegin).1 (by decide)
    · exact fun run behind => ⟨behind, returns_nul behind⟩
  | cons p ps ih =>
    obtain ⟨ihPass, ihPlace⟩ := ih fun p hp => hwf p (List.mem_cons_of_mem _ hp)
    have hp := hwf p List.mem_cons_self
    have hnul : nul ∉ templateText ps := templateText_nul fun p hp => hwf p (List.mem_cons_of_mem _ hp)
    cases p with
    | plain c =>
      obtain ⟨hlt, hc⟩ := hp
      constructor
      · intro n run behind _
        obtain ⟨behind', hrest⟩ := ihPlace run behind
        refine ⟨behind', ?_⟩
        rw [foldl_parse_of_not]
        · exact returnsAfter_cons hrest
        · refine fun tag _ => not_matchesTag (fun hbegin => hlt ?_) tag
          exact (List.cons_prefix_cons.mp hbegin).1.symm
      · intro run behind
        obtain ⟨behind', hrest⟩ := ihPlace run behind
        exact ⟨behind', returns_cons hc hlt hrest⟩
    | directive tag body =>
      obtain ⟨hmem, hbody, hclosed, hquiet⟩ := hp
      have hpass : ∀ n run behind, ∃ behind', ReturnsAfter f filter
          (((tagsTried filter).drop n).foldl (fun s tag => parse f tag s)
            (templateText (.directive tag body :: ps) ++ nul :: behind, run))
          ((walk f filter n (.directive tag body :: ps) run).1 ++ nul :: behind',
            (walk f filter n (.directive tag body :: ps) run).2) := by
        intro n run behind
        have htext : templateText (.directive tag body :: ps) ++ nul :: behind
            = tag.text ++ body ++ '>' :: (templateText ps ++ nul :: behind) := by
          simp [templateText, Piece.text]
        have hother (tag' : Tag) (h : tag' ≠ tag) :
            matchesTag tag' (tag.text ++ body ++ '>' :: (templateText ps ++ nul :: behind)) = false := by
          cases body with
          | nil => cases hbody
          | cons b body =>
            rw [List.append_assoc, ← Bool.not_eq_true]
            exact fun hmatches => h ((matchesTag_iff hbody _).mp hmatches)
        rw [htext, walk]
        split_ifs with hturn
        · obtain ⟨before, hsplit, hbefore⟩ := drop_turn hmem hturn
          obtain ⟨behind₁, hparse, hsettled⟩ :=
            parse_directive f tag behind run hbody hclosed hquiet hnul
          obtain ⟨hlt, hvalNul⟩ := callTag_plain hf tag (bodyArgs f.rrdExpandVars body) run
          rw [hsplit, List.foldl_append, foldl_parse_of_not (fun tag' h => hother tag' (ne_of_mem_of_not_mem h hbefore)),
            List.foldl_cons, hparse]
          dsimp only
          generalize callTag f tag (bodyArgs f.rrdExpandVars body) run = val at hsettled hlt hvalNul ⊢
          obtain ⟨text, run'⟩ := val
          cases text with
          | nil =>
            -- what follows stands at the same place, for the tags that are tried later
            exact ihPass (turn filter tag + 1) run' behind₁ fun hnil => hsettled rfl (by rw [hnil]; rfl)
          | cons c text =>
            obtain ⟨behind', hrest⟩ := ihPlace run' behind₁
            obtain ⟨hc, hlt⟩ := not_or.mp (List.mem_cons.not.mp hlt)
            refine ⟨behind', ?_⟩
            rw [foldl_parse_of_not]
            · have hvalue := returns_plain hlt (fun h => hvalNul (List.mem_cons_of_mem c h)) hrest
              rw [← List.append_assoc, ← List.append_assoc] at hvalue
              exact returnsAfter_cons hvalue
            · refine fun tag' _ => not_matchesTag (fun hbegin => hc ?_) tag'
              exact (List.cons_prefix_cons.mp hbegin).1
        · -- the turn of the tag is over: the directive is passed over as text
          obtain ⟨behind', hrest⟩ := ihPlace run behind
          have hname : ∀ c ∈ tag.name, c ≠ '<' ∧ c ≠ nul := by
            cases tag <;> exact forall_mem_of_all (by decide)
          have hquiet' : Quiet ("RRD::".toList ++ tag.name ++ body) := by
            refine hquiet.append fun h => ?_
            rcases List.mem_append.mp h with h | h
            · exact absurd h (by decide)
            · exact (hname _ h).1 rfl
          have hnul' : nul ∉ "RRD::".toList ++ tag.name ++ body := by
            rw [List.mem_append, List.mem_append, not_or, not_or]
            exact ⟨⟨by decide, fun h => (hname _ h).2 rfl⟩, hclosed.nul_not_mem⟩
          refine ⟨behind', ?_⟩
          rw [foldl_parse_of_not fun tag' h => hother tag' (ne_of_mem_of_not_mem h (not_mem_drop_turn (not_le.mp hturn)))]
          have hend := returns_cons (c := '>') (by decide) (by decide) hrest
          have hall := returnsAfter_cons (c := '<') (returns_quiet hquiet' hnul' (by decide) hend)
          simpa [Tag.text] using hall
      constructor
      · exact fun n run behind _ => hpass n run behind
      · intro run behind
        obtain ⟨behind', h⟩ := hpass 0 run behind
        exact ⟨behind', returns_lt h⟩

theorem Returns.unique {buf : Text} {r r' : Text × CgiRun σ} (h : Returns f filter buf run r)
    (h' : Returns f filter buf run r') : r = r' := by
  obtain ⟨m, hm⟩ := h
  obtain ⟨m', hm'⟩ := h'
  have heq := hm m'
  rw [Nat.add_comm, hm'] at heq
  exact (Option.some.inj heq).symm

theorem expansion_nul (hf : PlainResults f) (hwf : ∀ p ∈ ps, p.WellFormed filter) (run : CgiRun σ) :
    nul ∉ (expansion f ps run).1 := by
  induction ps generalizing run with
  | nil => exact List.not_mem_nil
  | cons p ps ih =>
    have hp := hwf p List.mem_cons_self
    have hrest := ih fun p hp => hwf p (List.mem_cons_of_mem _ hp)
    cases p with
    | plain c =>
      rw [expansion, List.mem_cons, not_or]
      exact ⟨hp.2.symm, hrest run⟩
    | directive tag body =>
      rw [expansion, List.mem_append, not_or]
      exact ⟨(callTag_plain hf tag _ run).2, hrest _⟩

/-- **All directives are expanded**, once each and in order, and the rest of the template stays, exactly if none stands
directly behind directives without a result that are tried later than it, or as late. -/
theorem expands_iff (f : CgiFuncs σ) (filter : Bool) (ps : List Piece) (vars : σ) (hf : PlainResults f)
    (hwf : ∀ p ∈ ps, p.WellFormed filter) :
    (∃ buffer run, Returns f filter (templateText ps ++ [nul]) ⟨vars, []⟩ (buffer, run)
        ∧ cstr buffer = (expansion f ps ⟨vars, []⟩).1 ∧ run.calls = templateCalls f ps)
      ↔ AllSeen f filter 0 ps ⟨vars, []⟩ := by
  obtain ⟨behind, hreturns⟩ := (mainLoop_template hf hwf).2 ⟨vars, []⟩ []
  constructor
  · rintro ⟨buffer, run, hreturns', -, hcalls⟩
    by_contra hunseen
    have hshort := walk_calls_lt hunseen
    rw [← congrArg Prod.snd (hreturns'.unique hreturns), hcalls] at hshort
    simp at hshort
  · intro hseen
    rw [walk_eq_expansion hseen] at hreturns
    refine ⟨_, _, hreturns, cstr_append (expansion_nul hf hwf _) _, ?_⟩
    rw [expansion_calls]
    rfl

/-- Functions of which one has no result. -/
def settingFuncs : CgiFuncs Unit where
  call := fun tag _ vars => (if tag = .setvar then some [] else some ['1'], vars)
  rrdExpandVars := id

theorem settingFuncs_plain : PlainResults settingFuncs := by
  intro tag args vars val h
  have hval : val = [] ∨ val = ['1'] := by
    by_cases htag : tag = .setvar
    · simp only [settingFuncs, if_pos htag] at h
      exact .inl (Option.some.inj h).symm
    · simp only [settingFuncs, if_neg htag] at h
      exact .inr (Option.some.inj h).symm
  rcases hval with rfl | rfl <;> decide

/-- `<RRD::SETVAR a 1>` and `<RRD::GETVAR a>`, with something in between. -/
def setAndGet (between : Text) : List Piece :=
  .directive .setvar " a 1".toList :: (between.map .plain ++ [.directive .getvar " a".toList])

theorem setAndGet_wellFormed {between : Text} (h : ∀ c ∈ between, c ≠ '<' ∧ c ≠ nul) :
    ∀ p ∈ setAndGet between, p.WellFormed false := by
  intro p hp
  have hquiet (t : Text) (ht : '<' ∉ t) : Quiet t := by
    have hnil : Quiet [] := fun u hu hbegin => by
      rw [List.suffix_nil.mp hu] at hbegin
      exact absurd hbegin (by decide)
    simpa using Quiet.append ht hnil
  rcases List.mem_cons.mp hp with rfl | hp
  · exact ⟨by decide, by decide, by decide, hquiet _ (by decide)⟩
  · rcases List.mem_append.mp hp with hp | hp
    · obtain ⟨c, hc, rfl⟩ := List.mem_map.mp hp
      exact h c hc
    · rw [List.mem_singleton.mp hp]
      exact ⟨by decide, by decide, by decide, hquiet _ (by decide)⟩

theorem expands_two_lines :
    ∃ buffer run, Returns settingFuncs false (templateText (setAndGet ['\n']) ++ [nul]) ⟨(), []⟩ (buffer, run)
      ∧ cstr buffer = "\n1".toList
      ∧ run.calls = [(.setvar, ["a".toList, "1".toList]), (.getvar, ["a".toList])] :=
  (expands_iff settingFuncs false (setAndGet ['\n']) () settingFuncs_plain
    (setAndGet_wellFormed (forall_mem_of_all (by decide)))).mpr ⟨Nat.zero_le _, Nat.zero_le _, trivial⟩

/-- On one line, the second directive is left. -/
theorem directive_left :
    (∃ buffer run, Returns settingFuncs false (templateText (setAndGet []) ++ [nul]) ⟨(), []⟩ (buffer, run)
      ∧ cstr buffer = "<RRD::GETVAR a>".toList ∧ run.calls = [(.setvar, ["a".toList, "1".toList])])
    ∧ (expansion settingFuncs (setAndGet []) ⟨(), []⟩).1 = "1".toList
    ∧ (templateCalls settingFuncs (setAndGet [])).length = 2 := by
  refine ⟨?_, by decide, by decide⟩
  have hwf : ∀ p ∈ setAndGet [], p.WellFormed false := setAndGet_wellFormed (by simp)
  obtain ⟨behind, hreturns⟩ := (mainLoop_template settingFuncs_plain hwf).2 ⟨(), []⟩ []
  refine ⟨_, _, hreturns, ?_, by decide⟩
  have hwalk : (walk settingFuncs false 0 (setAndGet []) ⟨(), []⟩).1 = "<RRD::GETVAR a>".toList := by decide
  rw [hwalk]
  exact cstr_append (by decide) behind

end Rrdtool.Cgi
