import Rrdtool.Daemon.Encoding
import Rrdtool.Lib.Inplace
import Rrdtool.Lib.Scan
import Rrdtool.Lib.Trim

/-!
# The lines of the remote control

`rrdtool -` reads commands from its input, a line each. `CountArgs` counts the arguments that there can be, and
`CreateArgs` cuts the line apart where it stands: a read cursor goes over it, and what belongs to an argument is
written behind a write cursor that never overtakes it.

* `countArgs`, `createArgs` — the code;
* `Written`, `Splits` — how an argument is written, and the arguments of a line;
* `Tokens` — what has been read, without the buffer;
* `createArgs_iff` — which lines are split right.
-/

namespace Rrdtool.Remote

open CStr Trim
open Daemon (nul cstr cstr_append)

/-! ## The code -/

/-- The value of a plain `char`, which has a sign. -/
def schar (c : Char) : ℤ := if c.toNat < 128 then c.toNat else c.toNat - 256

/-- `c <= ' '` -/
def low (c : Char) : Bool := schar c ≤ schar ' '

/-- A quotation mark, double or single. -/
def isQuote (c : Char) : Bool := c.toNat = 34 || c.toNat = 39

/-- One byte for `CountArgs`: `aCount` and `inarg`. -/
def countChar (s : ℕ × Bool) (c : Char) : ℕ × Bool :=
  let s := if c = ' ' ∧ s.2 = true then (s.1, false) else s
  if c ≠ ' ' ∧ s.2 = false then (s.1 + 1, true) else s

/-- `CountArgs` -/
def countArgs (aLine : Text) : ℕ := ((aLine.dropWhile (· = ' ')).foldl countChar (0, false)).1

/-- What `CreateArgs` works on. -/
structure Buffer : Type where
  /-- the bytes of the line and the terminator -/
  cells : Text
  /-- `putP` -/
  putP : ℕ
  /-- the pointers stored in `pargv`, behind the name of the program -/
  pargv : List ℕ
  /-- `Quote` -/
  quote : Option Char
  /-- `inArg` -/
  inArg : Bool

namespace Buffer

/-- `*(putP++) = c` -/
def put (b : Buffer) (c : Char) : Buffer := { b with cells := b.cells.set b.putP c, putP := b.putP + 1 }

/-- `if (!inArg)`: a new argument -/
def begin (b : Buffer) : Buffer := if b.inArg then b else { b with pargv := b.pargv ++ [b.putP], inArg := true }

/-- `switch (*getP)` -/
def read (b : Buffer) (c : Char) : Buffer :=
  if c = ' ' then
    match b.quote with
    | some _ => b.put c
    | none => if b.inArg then { b.put nul with inArg := false } else b
  else if isQuote c then
    match b.quote with
    | some q => if q = c then { b with quote := none } else b.put c
    | none => { b.begin with quote := some c }
  else b.begin.put c

/-- `while (*getP)`, when so many cells are left; `none` when there is no terminator. -/
def scan : ℕ → ℕ → Buffer → Option Buffer
  | 0, _, _ => none
  | n + 1, getP, b =>
    match b.cells[getP]? with
    | none => none
    | some c => if c = nul then some b else scan n (getP + 1) (b.read c)

/-- The entries of `pargv` that are stored, the name of the program included. -/
def argc (b : Buffer) : ℕ := b.pargv.length + 1

/-- What `CreateArgs` returns. -/
def returned (b : Buffer) : ℤ := if b.quote = none then b.argc else -1

/-- The arguments behind the name of the program: the strings that the pointers point to. -/
def args (b : Buffer) : List Text := b.pargv.map fun p => cstr (b.cells.drop p)

end Buffer

/-- "remove trailing space and newlines" -/
def trimEnd : ℕ → Text → Text
  | 0, cells => cells
  | len + 1, cells => if low (cells.getD (len + 1) nul) then trimEnd len (cells.set (len + 1) nul) else cells

/-- `CreateArgs`: the buffer when it returns. -/
def createArgs (line : Text) : Option Buffer :=
  let cells := trimEnd line.length (line ++ [nul])
  -- leading blanks are skipped
  let aLine := (cells.takeWhile fun c => c ≠ nul && low c).length
  (Buffer.scan cells.length aLine ⟨cells, aLine, [], none, false⟩).map fun b =>
    { b with cells := b.cells.set b.putP nul }

/-! ## The arguments of a line -/

/-- **How an argument is written**: bytes that are neither blanks nor quotation marks stand for themselves, and so does
everything between two quotation marks of a kind. -/
inductive Written : Text → Text → Prop
  | nil : Written [] []
  | plain {u a : Text} {c : Char} (h : Written u a) (hc : c ≠ ' ') (hquote : isQuote c = false) :
      Written (u ++ [c]) (a ++ [c])
  | quoted {u a body : Text} {q : Char} (h : Written u a) (hquote : isQuote q = true) (hbody : q ∉ body) :
      Written (u ++ (q :: body ++ [q])) (a ++ body)

/-- The text is at its beginning or behind a blank. -/
def Fresh (t : Text) : Prop := ∀ c ∈ t.getLast?, c = ' '

/-- **The arguments of a line** stand apart, with blanks between them. -/
inductive Splits : Text → List Text → Prop
  | nil : Splits [] []
  | blank {t : Text} {args : List Text} (h : Splits t args) : Splits (t ++ [' ']) args
  | word {t u a : Text} {args : List Text} (h : Splits t args) (hfresh : Fresh t) (hu : u ≠ []) (hword : Written u a) :
      Splits (t ++ u) (args ++ [a])

/-- A blank or a control character, as `' '` and those below it. -/
def blank (c : Char) : Bool := c.toNat ≤ 32

/-- A byte that is not ASCII. -/
def high (c : Char) : Bool := 128 ≤ c.toNat

/-- Which quotation mark is open behind a character. -/
def quoteChar (quote : Option Char) (c : Char) : Option Char :=
  if isQuote c then
    match quote with
    | some q => if q = c then none else some q
    | none => some c
  else quote

/-- The quotation mark that a text leaves open. -/
def quoteBehind (t : Text) : Option Char := t.foldl quoteChar none

theorem fresh_blank (t : Text) : Fresh (t ++ [' ']) := by
  intro c hc
  rw [List.getLast?_concat] at hc
  exact (Option.some.inj hc).symm

theorem Written.countP {r : Char → Bool} (hr : ∀ c, isQuote c = true → r c = false) {u a : Text} (h : Written u a) :
    u.countP r = a.countP r := by
  induction h with
  | nil => rfl
  | plain h hc hquote ih => rw [List.countP_append, List.countP_append, ih]
  | quoted h hquote hbody ih =>
    rw [List.countP_append, List.countP_append, List.countP_append, List.countP_cons, List.countP_singleton, ih,
      hr _ hquote]
    rfl

/-- **Every other byte is kept**: the line and its arguments have as many of each kind. -/
theorem Splits.countP {r : Char → Bool} (hr : ∀ c, isQuote c = true → r c = false) (hblank : r ' ' = false)
    {t : Text} {args : List Text} (h : Splits t args) : t.countP r = args.flatten.countP r := by
  induction h with
  | nil => rfl
  | blank h ih =>
    rw [List.countP_append, ih, List.countP_singleton, hblank]
    rfl
  | word h hfresh hu hword ih =>
    rw [List.countP_append, List.flatten_append, List.countP_append, ih, hword.countP hr, List.flatten_singleton]

/-- A byte that is not in the line is in no argument. -/
theorem Splits.not_mem {t : Text} {args : List Text} (h : Splits t args) {c : Char} (hc : c ≠ ' ')
    (hquote : isQuote c = false) (ht : c ∉ t) : ∀ a ∈ args, c ∉ a := by
  have hcount := h.countP (r := (· == c)) (fun d hd => beq_eq_false_iff_ne.mpr fun hdc => by
    rw [hdc, hquote] at hd
    cases hd) (beq_eq_false_iff_ne.mpr hc.symm)
  have hzero : t.countP (· == c) = 0 := List.count_eq_zero.mpr ht
  rw [hcount] at hzero
  intro a ha hmem
  exact List.count_eq_zero.mp hzero (List.mem_flatten.mpr ⟨a, ha, hmem⟩)

/-! ## What has been read -/

/-- The arguments so far. -/
structure Tokens : Type where
  /-- those that are complete -/
  done : List Text
  /-- the one that is being read -/
  cur : Option Text
  /-- the quotation mark that is open -/
  quote : Option Char

namespace Tokens

/-- Nothing has been read. -/
def empty : Tokens := ⟨[], none, none⟩

/-- The arguments, complete or not. -/
def args (s : Tokens) : List Text := s.done ++ s.cur.toList

/-- An argument is being read from here on. -/
def begin (s : Tokens) : Tokens := { s with cur := some (s.cur.getD []) }

/-- One more byte of an argument. -/
def add (s : Tokens) (c : Char) : Tokens := { s with cur := some (s.cur.getD [] ++ [c]) }

/-- The argument is complete. -/
def finish (s : Tokens) : Tokens := { s with done := s.done ++ s.cur.toList, cur := none }

/-- One more byte of the line. -/
def read (s : Tokens) (c : Char) : Tokens :=
  if c = ' ' then
    match s.quote with
    | some _ => s.add c
    | none => s.finish
  else if isQuote c then
    match s.quote with
    | some q => if q = c then { s with quote := none } else s.add c
    | none => { s.begin with quote := some c }
  else s.add c

/-- What a text adds. -/
def readAll (s : Tokens) (t : Text) : Tokens := t.foldl read s

theorem readAll_append (s : Tokens) (t u : Text) : s.readAll (t ++ u) = (s.readAll t).readAll u := List.foldl_append

theorem readAll_concat (s : Tokens) (t : Text) (c : Char) : s.readAll (t ++ [c]) = (s.readAll t).read c :=
  readAll_append s t [c]

/-- Only quotation marks open and close quotes. -/
theorem read_quote (s : Tokens) (c : Char) : (s.read c).quote = quoteChar s.quote c := by
  by_cases hc : c = ' '
  · subst hc
    have hblank : quoteChar s.quote ' ' = s.quote := by
      rw [quoteChar.eq_def, if_neg (by decide)]
    rw [read, if_pos rfl, hblank]
    rcases hq : s.quote with _ | q <;> exact hq
  · rw [read, if_neg hc, quoteChar.eq_def]
    split_ifs with hquote
    · rcases hq : s.quote with _ | q
      · rfl
      · dsimp only
        split_ifs
        · rfl
        · exact hq
    · rfl

theorem readAll_quote (s : Tokens) (t : Text) : (s.readAll t).quote = t.foldl quoteChar s.quote := by
  induction t generalizing s with
  | nil => rfl
  | cons c t ih => exact (ih (s.read c)).trans (by rw [read_quote]; rfl)

end Tokens

theorem ne_of_quote {c d : Char} (hc : isQuote c = true) (hd : isQuote d = false) : c ≠ d := by
  rintro rfl
  rw [hc] at hd
  cases hd

/-! ### The arguments are those of the text -/

/-- A quotation mark of an argument is open. -/
def Open (q : Char) (u a : Text) : Prop :=
  ∃ v b body, Written v b ∧ u = v ++ q :: body ∧ a = b ++ body ∧ q ∉ body

theorem Open.add {q c : Char} {u a : Text} (h : Open q u a) (hc : c ≠ q) : Open q (u ++ [c]) (a ++ [c]) := by
  obtain ⟨v, b, body, hv, rfl, rfl, hbody⟩ := h
  refine ⟨v, b, body ++ [c], hv, by simp, by simp, ?_⟩
  rw [List.mem_append, List.mem_singleton, not_or]
  exact ⟨hbody, hc.symm⟩

theorem Open.close {q : Char} {u a : Text} (h : Open q u a) (hquote : isQuote q = true) : Written (u ++ [q]) a := by
  obtain ⟨v, b, body, hv, rfl, rfl, hbody⟩ := h
  have := hv.quoted hquote hbody
  rwa [← List.append_assoc] at this

/-- **What has been read of a text.** -/
inductive Seen : Text → Tokens → Prop
  | between {t : Text} {done : List Text} (h : Splits t done) (hfresh : Fresh t) : Seen t ⟨done, none, none⟩
  | inWord {t u a : Text} {done : List Text} (h : Splits t done) (hfresh : Fresh t) (hu : u ≠ []) (hword : Written u a) :
      Seen (t ++ u) ⟨done, some a, none⟩
  | inQuotes {t u a : Text} {done : List Text} {q : Char} (h : Splits t done) (hfresh : Fresh t)
      (hquote : isQuote q = true) (hopen : Open q u a) : Seen (t ++ u) ⟨done, some a, some q⟩

theorem Seen.read {t : Text} {s : Tokens} (h : Seen t s) (c : Char) : Seen (t ++ [c]) (s.read c) := by
  cases h with
  | @between t done h hfresh =>
    by_cases hc : c = ' '
    · subst hc
      rw [Tokens.read, if_pos rfl]
      have := Seen.between h.blank (fresh_blank t)
      rwa [← List.append_nil done] at this
    · rw [Tokens.read, if_neg hc]
      by_cases hquote : isQuote c = true
      · rw [if_pos hquote]
        exact .inQuotes h hfresh hquote ⟨[], [], [], .nil, rfl, rfl, List.not_mem_nil⟩
      · rw [if_neg hquote]
        exact .inWord h hfresh (by simp) (.plain .nil hc (Bool.eq_false_iff.mpr hquote))
  | @inWord t u a done h hfresh hu hword =>
    by_cases hc : c = ' '
    · subst hc
      rw [Tokens.read, if_pos rfl]
      exact .between (h.word hfresh hu hword).blank (fresh_blank _)
    · rw [Tokens.read, if_neg hc, List.append_assoc]
      by_cases hquote : isQuote c = true
      · rw [if_pos hquote]
        refine .inQuotes h hfresh hquote ⟨u, a, [], hword, rfl, (List.append_nil a).symm, List.not_mem_nil⟩
      · rw [if_neg hquote]
        exact .inWord h hfresh (by simp) (hword.plain hc (Bool.eq_false_iff.mpr hquote))
  | @inQuotes t u a done q h hfresh hquote hopen =>
    rw [List.append_assoc]
    by_cases hc : c = ' '
    · subst hc
      rw [Tokens.read, if_pos rfl]
      exact .inQuotes h hfresh hquote (hopen.add (ne_of_quote hquote (by decide)).symm)
    · rw [Tokens.read, if_neg hc]
      by_cases hq : q = c
      · subst hq
        rw [if_pos hquote]
        dsimp only
        rw [if_pos rfl]
        exact .inWord h hfresh (by simp) (hopen.close hquote)
      · have hadd : Seen (t ++ (u ++ [c])) (Tokens.add ⟨done, some a, some q⟩ c) :=
          .inQuotes h hfresh hquote (hopen.add (Ne.symm hq))
        split_ifs
        · dsimp only
          rw [if_neg hq]
          exact hadd
        · exact hadd

/-- **The arguments are those of the text.** -/
theorem seen_readAll (t : Text) : Seen t (Tokens.empty.readAll t) := by
  induction t using List.reverseRecOn with
  | nil => exact .between .nil (by simp [Fresh])
  | append_singleton t c ih =>
    rw [Tokens.readAll_concat]
    exact ih.read c

theorem Seen.splits {t : Text} {s : Tokens} (h : Seen t s) (hquote : s.quote = none) : Splits t s.args := by
  cases h with
  | between h hfresh =>
    rw [Tokens.args]
    simpa using h
  | inWord h hfresh hu hword => exact h.word hfresh hu hword
  | inQuotes h hfresh hq hopen => cases hquote

/-- Between two quotation marks everything is read into the argument. -/
theorem readAll_body {q : Char} {body : Text} (hbody : q ∉ body) (done : List Text) (a : Text) :
    Tokens.readAll ⟨done, some a, some q⟩ body = ⟨done, some (a ++ body), some q⟩ := by
  induction body generalizing a with
  | nil => rw [List.append_nil]; rfl
  | cons c body ih =>
    rw [List.mem_cons, not_or] at hbody
    have hread : Tokens.read ⟨done, some a, some q⟩ c = ⟨done, some (a ++ [c]), some q⟩ := by
      rw [Tokens.read]
      split_ifs
      · rfl
      · dsimp only
        rw [if_neg hbody.1]
        rfl
      · rfl
    rw [List.append_cons, ← ih hbody.2, ← hread]
    rfl

/-- Quotes are read into the argument. -/
theorem readAll_quoted {q : Char} (hquote : isQuote q = true) {body : Text} (hbody : q ∉ body) (done : List Text)
    (cur : Option Text) :
    Tokens.readAll ⟨done, cur, none⟩ (q :: body ++ [q]) = ⟨done, some (cur.getD [] ++ body), none⟩ := by
  have hq : q ≠ ' ' := ne_of_quote hquote (by decide)
  have hbegin : Tokens.read ⟨done, cur, none⟩ q = ⟨done, some (cur.getD []), some q⟩ := by
    rw [Tokens.read, if_neg hq, if_pos hquote]
    rfl
  rw [Tokens.readAll_concat, Tokens.readAll, List.foldl_cons, hbegin]
  rw [← Tokens.readAll, readAll_body hbody, Tokens.read, if_neg hq, if_pos hquote]
  dsimp only
  rw [if_pos rfl]

/-- **An argument is read as it is written.** -/
theorem readAll_written {u a : Text} (h : Written u a) (done : List Text) (cur : Option Text) :
    u = [] ∧ a = [] ∨ Tokens.readAll ⟨done, cur, none⟩ u = ⟨done, some (cur.getD [] ++ a), none⟩ := by
  induction h with
  | nil => exact .inl ⟨rfl, rfl⟩
  | @plain u a c h hc hquote ih =>
    right
    have hread (cur : Option Text) : Tokens.read ⟨done, cur, none⟩ c = ⟨done, some (cur.getD [] ++ [c]), none⟩ := by
      rw [Tokens.read, if_neg hc, if_neg (by rw [hquote]; exact Bool.false_ne_true)]
      rfl
    rw [Tokens.readAll_concat]
    rcases ih with ⟨rfl, rfl⟩ | ih
    · exact hread cur
    · rw [ih, hread, Option.getD_some, List.append_assoc]
  | @quoted u a body q h hquote hbody ih =>
    right
    rw [Tokens.readAll_append]
    rcases ih with ⟨rfl, rfl⟩ | ih
    · exact readAll_quoted hquote hbody done cur
    · rw [ih, readAll_quoted hquote hbody, Option.getD_some, List.append_assoc]

/-- A line that can be split is read so. -/
theorem Splits.readAll {t : Text} {args : List Text} (h : Splits t args) :
    (Tokens.empty.readAll t).quote = none ∧ (Tokens.empty.readAll t).args = args
      ∧ (Fresh t → (Tokens.empty.readAll t).cur = none) := by
  induction h with
  | nil => exact ⟨rfl, rfl, fun _ => rfl⟩
  | @blank t args h ih =>
    obtain ⟨hquote, hargs, -⟩ := ih
    rw [Tokens.readAll_concat, Tokens.read, if_pos rfl, hquote]
    refine ⟨hquote, ?_, fun _ => rfl⟩
    rw [← hargs]
    exact List.append_nil _
  | @word t u a args h hfresh hu hword ih =>
    obtain ⟨hquote, hargs, hcur⟩ := ih
    have hstate : Tokens.empty.readAll t = ⟨args, none, none⟩ := by
      generalize Tokens.empty.readAll t = s at hquote hargs hcur
      obtain ⟨done, cur, quote⟩ := s
      obtain rfl : cur = none := hcur hfresh
      obtain rfl : quote = none := hquote
      rw [← hargs]
      exact congrArg (Tokens.mk · none none) (List.append_nil done).symm
    have hread := (readAll_written hword args none).resolve_left fun h => hu h.1
    rw [Tokens.readAll_append, hstate, hread]
    refine ⟨rfl, rfl, fun hfresh' => ?_⟩
    -- an argument does not end with a blank
    rw [Fresh, List.getLast?_append_of_ne_nil _ hu] at hfresh'
    cases hword with
    | nil => exact absurd rfl hu
    | plain h hc hquote =>
      rw [List.getLast?_concat] at hfresh'
      exact absurd (hfresh' _ rfl) hc
    | @quoted _ _ body q h hquote hbody =>
      rw [← List.append_assoc, List.getLast?_concat] at hfresh'
      exact absurd (hfresh' _ rfl) (ne_of_quote hquote (by decide))

/-- **There is one way to split a line.** -/
theorem Splits.unique {t : Text} {args args' : List Text} (h : Splits t args) (h' : Splits t args') : args = args' :=
  h.readAll.2.1.symm.trans h'.readAll.2.1

/-! ### `CountArgs` is an upper bound -/

/-- **`CountArgs` has counted every argument**: one that goes on was counted when it began, and where none is read
the bytes that are not blanks were counted. -/
structure Counted (n : ℕ × Bool) (s : Tokens) : Prop where
  le : s.args.length ≤ n.1
  lt : n.2 = true → s.cur = none → s.args.length < n.1
  quoted : s.quote ≠ none → s.cur ≠ none

theorem countChar_blank (n : ℕ × Bool) : countChar n ' ' = (n.1, false) := by
  obtain ⟨n, inarg⟩ := n
  cases inarg <;> rfl

theorem countChar_other {c : Char} (hc : c ≠ ' ') (n : ℕ × Bool) :
    countChar n c = (if n.2 = true then n.1 else n.1 + 1, true) := by
  obtain ⟨n, inarg⟩ := n
  cases inarg <;> simp [countChar, hc]

theorem le_countChar (n : ℕ × Bool) (c : Char) : n.1 ≤ (countChar n c).1 := by
  by_cases hc : c = ' '
  · rw [hc, countChar_blank]
  · rw [countChar_other hc]
    dsimp only
    split_ifs
    · exact le_rfl
    · exact Nat.le_succ _

theorem le_foldl_countChar (n : ℕ × Bool) (t : Text) : n.1 ≤ (t.foldl countChar n).1 := by
  induction t generalizing n with
  | nil => exact le_rfl
  | cons c t ih => exact (le_countChar n c).trans (ih _)

/-- What is not a blank belongs to an argument. -/
theorem Tokens.read_other {c : Char} (hc : c ≠ ' ') {s : Tokens} (h : s.quote ≠ none → s.cur ≠ none) :
    ∃ a, (s.read c).cur = some a ∧ (s.read c).done = s.done := by
  rw [Tokens.read, if_neg hc]
  split_ifs
  · rcases hquote : s.quote with _ | q
    · exact ⟨_, rfl, rfl⟩
    · obtain ⟨a, ha⟩ := Option.ne_none_iff_exists'.mp (h (by rw [hquote]; exact Option.some_ne_none q))
      dsimp only
      split_ifs
      · exact ⟨a, ha, rfl⟩
      · exact ⟨_, rfl, rfl⟩
  · exact ⟨_, rfl, rfl⟩

theorem Counted.read {n : ℕ × Bool} {s : Tokens} (h : Counted n s) (c : Char) : Counted (countChar n c) (s.read c) := by
  by_cases hc : c = ' '
  · subst hc
    rw [countChar_blank, Tokens.read, if_pos rfl]
    rcases hquote : s.quote with _ | q
    · refine ⟨?_, fun hin => ?_, fun hq => absurd hquote hq⟩
      · have hargs : s.finish.args = s.args := List.append_nil _
        dsimp only
        rw [hargs]
        exact h.le
      · cases hin
    · obtain ⟨a, ha⟩ := Option.ne_none_iff_exists'.mp (h.quoted (by rw [hquote]; exact Option.some_ne_none q))
      have hadd : (s.add ' ').args.length = s.args.length := by
        rw [Tokens.args, Tokens.args, ha, List.length_append, List.length_append]
        rfl
      refine ⟨?_, fun hin => ?_, fun _ => Option.some_ne_none _⟩
      · dsimp only
        rw [hadd]
        exact h.le
      · cases hin
  · obtain ⟨a, hcur, hdone⟩ := Tokens.read_other hc h.quoted
    have hlength : (s.read c).args.length = s.done.length + 1 := by
      rw [Tokens.args, hcur, hdone, List.length_append]
      rfl
    have hne : (s.read c).cur ≠ none := by
      rw [hcur]
      exact Option.some_ne_none a
    rw [countChar_other hc]
    refine ⟨?_, fun _ hnone => absurd hnone hne, fun _ => hne⟩
    rw [hlength]
    have hle := h.le
    have hlt := h.lt
    rcases hs : s.cur with _ | b
    · -- a new argument
      have hargs : s.args.length = s.done.length := by rw [Tokens.args, hs, List.length_append]; rfl
      rw [hargs] at hle hlt
      dsimp only
      split_ifs with hin
      · exact hlt hin hs
      · exact Nat.succ_le_succ hle
    · have hargs : s.args.length = s.done.length + 1 := by rw [Tokens.args, hs, List.length_append]; rfl
      rw [hargs] at hle
      dsimp only
      split_ifs
      · exact hle
      · exact Nat.le_succ_of_le hle

theorem Counted.readAll {n : ℕ × Bool} {s : Tokens} (h : Counted n s) (t : Text) :
    Counted (t.foldl countChar n) (s.readAll t) := by
  induction t generalizing n s with
  | nil => exact h
  | cons c t ih => exact ih (h.read c)

/-- **`CountArgs` is an upper bound**, also for the line without its ends. -/
theorem length_args_le (u t v : Text) : (Tokens.empty.readAll t).args.length ≤ countArgs (u ++ t ++ v) := by
  have hcount (l : Text) : countArgs l = (l.foldl countChar (0, false)).1 := by
    rw [countArgs]
    congr 1
    induction l with
    | nil => rfl
    | cons c l ih =>
      rw [List.dropWhile_cons]
      split_ifs with hc
      · rw [decide_eq_true_eq] at hc
        rw [ih, hc]
        rfl
      · rfl
  have hin (l : Text) : (l.foldl countChar (0, false)).2 = true → 0 < (l.foldl countChar (0, false)).1 := by
    induction l using List.reverseRecOn with
    | nil => exact fun h => absurd h Bool.false_ne_true
    | append_singleton l c ih =>
      rw [List.foldl_concat]
      by_cases hc : c = ' '
      · rw [hc, countChar_blank]
        exact fun h => absurd h Bool.false_ne_true
      · rw [countChar_other hc]
        dsimp only
        split_ifs with h
        · exact fun _ => ih h
        · exact fun _ => Nat.succ_pos _
  rw [hcount, List.foldl_append, List.foldl_append]
  have hstart : Counted (u.foldl countChar (0, false)) Tokens.empty :=
    ⟨Nat.zero_le _, fun h _ => hin u h, fun h => absurd rfl h⟩
  exact (hstart.readAll t).le.trans (le_foldl_countChar _ v)

/-! ### The buffer -/

/-- The arguments one behind the other, as they stand in the buffer. -/
def packed (args : List Text) : Text := args.flatMap (· ++ [nul])

/-- Where the arguments begin that stand one behind the other. -/
def starts : ℕ → List Text → List ℕ
  | _, [] => []
  | p, a :: args => p :: starts (p + a.length + 1) args

theorem packed_cons (a : Text) (args : List Text) : packed (a :: args) = a ++ nul :: packed args := by
  rw [packed, List.flatMap_cons, List.append_assoc]
  rfl

theorem packed_concat (args : List Text) (a : Text) : packed (args ++ [a]) = packed args ++ (a ++ [nul]) := by
  rw [packed, List.flatMap_append, List.flatMap_singleton]
  rfl

/-- The next argument begins behind the others. -/
theorem starts_concat (p : ℕ) (args : List Text) (a : Text) :
    starts p (args ++ [a]) = starts p args ++ [p + (packed args).length] := by
  induction args generalizing p with
  | nil => rfl
  | cons b args ih =>
    rw [List.cons_append, starts, ih, starts, packed_cons, List.length_append, List.length_cons, List.cons_append]
    congr 3
    omega

theorem length_starts (p : ℕ) (args : List Text) : (starts p args).length = args.length := by
  induction args generalizing p with
  | nil => rfl
  | cons a args ih => rw [starts, List.length_cons, ih, List.length_cons]

/-- **The arguments are found again** where they begin. -/
theorem map_starts {args : List Text} (hnul : ∀ a ∈ args, nul ∉ a) (cells : Text) {p : ℕ} {r : Text}
    (hcells : cells.drop p = packed args ++ r) : (starts p args).map (fun p => cstr (cells.drop p)) = args := by
  induction args generalizing p with
  | nil => rfl
  | cons a args ih =>
    rw [packed_cons, List.append_assoc] at hcells
    have hnext : cells.drop (p + a.length + 1) = packed args ++ r := by
      rw [Nat.add_assoc, ← List.drop_drop, hcells, List.drop_length_add_append]
      rfl
    rw [starts, List.map_cons, ih (fun b hb => hnul b (List.mem_cons_of_mem a hb)) hnext, hcells]
    congr 1
    exact cstr_append (hnul a List.mem_cons_self) _

/-- What stands in the buffer, up to the write cursor. -/
def Tokens.text (s : Tokens) : Text := packed s.done ++ s.cur.getD []

/-- **The buffer while the line is read**: behind `front` stand the arguments so far, and `rest` is still as it was. -/
structure Holds (b : Buffer) (front : Text) (getP : ℕ) (rest : Text) (s : Tokens) : Prop where
  line : Inplace b.cells b.putP getP (front ++ s.text) rest
  pargv : b.pargv = starts front.length s.args
  quote : b.quote = s.quote
  inArg : b.inArg = s.cur.isSome
  quoted : s.quote ≠ none → s.cur ≠ none

variable {b : Buffer} {front rest : Text} {getP : ℕ} {c : Char} {s : Tokens}

/-- The cursor goes on. -/
theorem Holds.skip (h : Holds b front getP (c :: rest) s) : Holds b front (getP + 1) rest s :=
  ⟨h.line.skip, h.pargv, h.quote, h.inArg, h.quoted⟩

/-- An argument begins where the write cursor stands. -/
theorem Holds.begin (h : Holds b front getP rest s) : Holds b.begin front getP rest s.begin := by
  rw [Buffer.begin, h.inArg]
  rcases hcur : s.cur with _ | a
  · rw [if_neg (by simp)]
    have htext : s.begin.text = s.text := by rw [Tokens.text, Tokens.text, Tokens.begin, hcur]; rfl
    refine ⟨?_, ?_, h.quote, rfl, fun _ => Option.some_ne_none _⟩
    · rw [htext]
      exact h.line
    · have hargs : s.args = s.done := by rw [Tokens.args, hcur]; exact List.append_nil _
      have hputP : b.putP = front.length + (packed s.done).length := by
        rw [h.line.putP, Tokens.text, hcur, Option.getD_none, List.append_nil, List.length_append]
      dsimp only
      rw [h.pargv, hargs, hputP, ← starts_concat front.length s.done []]
      rw [Tokens.args, Tokens.begin, hcur]
      rfl
  · have hsame : s.begin = s := by rw [Tokens.begin, hcur, Option.getD_some, ← hcur]
    rw [if_pos (by rfl), hsame]
    exact h

/-- A byte is added to the argument. -/
theorem Holds.add (h : Holds b front getP (c :: rest) s) (hcur : s.cur ≠ none) (x : Char) :
    Holds (b.put x) front (getP + 1) rest (s.add x) := by
  obtain ⟨a, ha⟩ := Option.ne_none_iff_exists'.mp hcur
  have hline := h.line.put x
  have htext : (s.add x).text = s.text ++ [x] := by
    rw [Tokens.text, Tokens.text, Tokens.add, ha]
    exact (List.append_assoc _ _ _).symm
  rw [List.append_assoc, ← htext] at hline
  refine ⟨hline, ?_, h.quote, ?_, fun _ => Option.some_ne_none _⟩
  · have hpargv := h.pargv
    rw [Tokens.args, ha] at hpargv
    rw [Tokens.args, Tokens.add, ha, Buffer.put]
    dsimp only [Option.toList_some] at hpargv ⊢
    rw [hpargv, starts_concat, starts_concat]
  · rw [Buffer.put, h.inArg, ha]
    rfl

/-- The argument is terminated. -/
theorem Holds.finish (h : Holds b front getP (c :: rest) s) (hcur : s.cur ≠ none) (hquote : s.quote = none) :
    Holds { b.put nul with inArg := false } front (getP + 1) rest s.finish := by
  obtain ⟨a, ha⟩ := Option.ne_none_iff_exists'.mp hcur
  have hline := h.line.put nul
  have htext : s.finish.text = s.text ++ [nul] := by
    rw [Tokens.text, Tokens.text, Tokens.finish, ha]
    dsimp only [Option.toList_some, Option.getD_none, Option.getD_some]
    rw [packed_concat, List.append_nil, List.append_assoc]
  rw [List.append_assoc, ← htext] at hline
  refine ⟨hline, ?_, h.quote, rfl, fun hne => absurd hquote hne⟩
  have hargs : s.finish.args = s.args := List.append_nil _
  rw [hargs]
  exact h.pargv

/-- **One byte of the line.** -/
theorem Holds.read (h : Holds b front getP (c :: rest) s) : Holds (b.read c) front (getP + 1) rest (s.read c) := by
  rw [Buffer.read, Tokens.read, h.quote]
  by_cases hc : c = ' '
  · rw [if_pos hc, if_pos hc]
    rcases hquote : s.quote with _ | q
    · dsimp only
      rw [h.inArg]
      rcases hcur : s.cur with _ | a
      · rw [if_neg (by simp)]
        have hsame : s.finish = s := by
          rw [Tokens.finish, hcur, Option.toList_none, List.append_nil, ← hcur]
        rw [hsame]
        exact h.skip
      · rw [if_pos (by rfl)]
        exact h.finish (by rw [hcur]; exact Option.some_ne_none a) hquote
    · exact h.add (h.quoted (by rw [hquote]; exact Option.some_ne_none q)) c
  · rw [if_neg hc, if_neg hc]
    split_ifs
    · rcases hquote : s.quote with _ | q
      · have hnext := h.begin.skip
        exact ⟨hnext.line, hnext.pargv, rfl, hnext.inArg, fun _ => Option.some_ne_none _⟩
      · dsimp only
        split_ifs
        · have hnext := h.skip
          exact ⟨hnext.line, hnext.pargv, rfl, hnext.inArg, fun hne => absurd rfl hne⟩
        · exact h.add (h.quoted (by rw [hquote]; exact Option.some_ne_none q)) c
    · exact h.begin.add (Option.some_ne_none _) c

/-- **The whole line.** -/
theorem Holds.scan {t r : Text} (hnul : nul ∉ t) (h : Holds b front getP (t ++ nul :: r) s) {n : ℕ} (hn : t.length < n) :
    ∃ b', Buffer.scan n getP b = some b' ∧ Holds b' front (getP + t.length) (nul :: r) (s.readAll t) := by
  induction t generalizing b getP s n with
  | nil =>
    obtain ⟨n, rfl⟩ := Nat.exists_eq_add_one_of_ne_zero (Nat.ne_of_gt hn)
    have hcell : b.cells[getP]? = some nul := h.line.cell
    refine ⟨b, ?_, h⟩
    rw [Buffer.scan, hcell]
    dsimp only
    rw [if_pos rfl]
  | cons c t ih =>
    obtain ⟨n, rfl⟩ := Nat.exists_eq_add_one_of_ne_zero (Nat.ne_of_gt (Nat.lt_of_le_of_lt (Nat.zero_le _) hn))
    rw [List.mem_cons, not_or] at hnul
    have hcell : b.cells[getP]? = some c := h.line.cell
    obtain ⟨b', hscan, hholds⟩ := ih hnul.2 h.read (Nat.lt_of_succ_lt_succ hn)
    refine ⟨b', ?_, ?_⟩
    · rw [Buffer.scan, hcell]
      dsimp only
      rw [if_neg (Ne.symm hnul.1)]
      exact hscan
    · rw [List.length_cons, Nat.add_comm t.length, ← Nat.add_assoc]
      exact hholds

/-! ### The ends of the line -/

theorem getD_behind (t : Text) (x : Char) (r : Text) : (t ++ x :: r).getD t.length nul = x := by
  rw [List.getD_eq_getElem?_getD, List.getElem?_append_right le_rfl, Nat.sub_self]
  rfl

theorem set_behind (t : Text) (x y : Char) (r : Text) : (t ++ x :: r).set t.length y = t ++ y :: r := by
  rw [List.set_append_right _ _ le_rfl, Nat.sub_self]
  rfl

/-- The end of the line is cut off, but for its first byte. -/
theorem trimEnd_eq (a : Char) (u : Text) {x : Char} (hx : low x = true) (r : Text) :
    ∃ r', trimEnd (u.length + 1) (a :: u ++ x :: r) = a :: u.rdropWhile low ++ nul :: r' := by
  induction u using List.reverseRecOn generalizing x r with
  | nil => exact ⟨r, by rw [trimEnd]; exact if_pos hx⟩
  | append_singleton u y ih =>
    have hget := getD_behind (a :: (u ++ [y])) x r
    have hset := set_behind (a :: (u ++ [y])) x nul r
    have hgetY := getD_behind (a :: u) y (nul :: r)
    rw [List.length_cons] at hget hset hgetY
    have hcells : a :: (u ++ [y]) ++ nul :: r = a :: u ++ y :: nul :: r := by
      rw [List.cons_append, List.append_assoc]
      rfl
    rw [trimEnd, hget, if_pos hx, hset, List.length_append, List.length_singleton, hcells]
    by_cases hy : low y = true
    · rw [List.rdropWhile_concat_pos _ _ _ hy]
      exact ih hy (nul :: r)
    · rw [trimEnd, hgetY, if_neg hy, List.rdropWhile_concat_neg _ _ _ hy]
      exact ⟨r, hcells.symm⟩

theorem takeWhile_low {t : Text} (hnul : nul ∉ t) : t.takeWhile (fun c => c ≠ nul && low c) = t.takeWhile low := by
  induction t with
  | nil => rfl
  | cons c t ih =>
    rw [List.mem_cons, not_or] at hnul
    have hc : (decide (c ≠ nul) && low c) = low c := by
      rw [decide_eq_true (Ne.symm hnul.1), Bool.true_and]
    rw [List.takeWhile_cons, List.takeWhile_cons, hc, ih hnul.2]

/-- **The line without its ends** is what the read cursor finds. -/
theorem trimEnd_line {line : Text} (hnul : nul ∉ line) :
    ∃ front r, trimEnd line.length (line ++ [nul]) = front ++ (trim low line ++ nul :: r)
      ∧ ((trimEnd line.length (line ++ [nul])).takeWhile fun c => c ≠ nul && low c) = front := by
  cases line with
  | nil => exact ⟨[], [], rfl, rfl⟩
  | cons a u =>
    rw [List.mem_cons, not_or] at hnul
    obtain ⟨r, hcells⟩ := trimEnd_eq a u (x := nul) (by decide) []
    rw [List.length_cons, hcells, ← dropWhile_cons_rdropWhile]
    have hmem : nul ∉ a :: u.rdropWhile low := by
      rw [List.mem_cons, not_or]
      exact ⟨hnul.1, fun h => hnul.2 ((List.rdropWhile_prefix low u).subset h)⟩
    generalize a :: u.rdropWhile low = t at hmem
    refine ⟨t.takeWhile low, r, ?_, ?_⟩
    · rw [← List.append_assoc, List.takeWhile_append_dropWhile]
    · rw [takeWhile_append (by simp)]
      exact takeWhile_low hmem

/-! ## The arguments of `CreateArgs` -/

/-- **What `CreateArgs` makes of a line**: the arguments of the line without its ends, unless a quotation mark is
left open. -/
theorem createArgs_eq {line : Text} (hnul : nul ∉ line) {s : Tokens} (hs : Tokens.empty.readAll (trim low line) = s) :
    ∃ b, createArgs line = some b ∧ b.argc = s.args.length + 1 ∧ b.quote = s.quote ∧
      (s.quote = none → b.args = s.args) := by
  obtain ⟨front, r, hcells, hblanks⟩ := trimEnd_line hnul
  have hlow : nul ∉ trim low line := by
    obtain ⟨a, b, hline, -⟩ := exists_trim low line
    intro hmem
    refine hnul ?_
    rw [hline]
    exact List.mem_append_left b (List.mem_append_right a hmem)
  have hstart : Holds ⟨front ++ (trim low line ++ nul :: r), front.length, [], none, false⟩ front front.length
      (trim low line ++ nul :: r) .empty := by
    refine ⟨?_, rfl, rfl, rfl, fun h => absurd rfl h⟩
    rw [show Tokens.empty.text = [] from rfl, List.append_nil]
    exact Inplace.start _ _
  obtain ⟨b, hscan, hholds⟩ := hstart.scan hlow (n := (front ++ (trim low line ++ nul :: r)).length) (by simp; omega)
  rw [hs] at hholds
  rw [createArgs, hblanks, hcells, hscan]
  refine ⟨_, rfl, ?_, hholds.quote, fun hquote => ?_⟩
  · rw [Buffer.argc, hholds.pargv, length_starts]
  · have hdrop : (b.cells.set b.putP nul).drop front.length
        = s.text ++ [nul] ++ (b.cells.set b.putP nul).drop (b.putP + 1) := by
      conv_lhs => rw [(hholds.line.put nul).cells_eq]
      rw [List.append_assoc, List.append_assoc, List.drop_left, List.append_assoc]
    have hpacked : ∃ r', s.text ++ [nul] = packed s.args ++ r' := by
      rw [Tokens.text, Tokens.args]
      rcases s.cur with _ | a
      · exact ⟨[nul], by simp⟩
      · exact ⟨[], by simp [packed_concat]⟩
    obtain ⟨r', hpacked⟩ := hpacked
    rw [hpacked, List.append_assoc] at hdrop
    have hsplits : Splits (trim low line) s.args := hs ▸ (seen_readAll _).splits (hs ▸ hquote)
    rw [Buffer.args, hholds.pargv]
    exact map_starts (hsplits.not_mem (by decide) (by decide) hlow) _ hdrop

/-- What is cut off opens and closes no quotes. -/
theorem quoteBehind_trim (line : Text) : quoteBehind (trim low line) = quoteBehind line := by
  have hlow (t : Text) (ht : ∀ c ∈ t, low c = true) (quote : Option Char) : t.foldl quoteChar quote = quote := by
    induction t with
    | nil => rfl
    | cons c t ih =>
      have hc : isQuote c = false := by
        have := ht c List.mem_cons_self
        rw [low, schar, schar, decide_eq_true_eq] at this
        rw [isQuote, Bool.or_eq_false_iff, decide_eq_false_iff_not, decide_eq_false_iff_not]
        constructor
        · intro h34
          rw [h34] at this
          exact absurd this (by decide)
        · intro h39
          rw [h39] at this
          exact absurd this (by decide)
      rw [List.foldl_cons, quoteChar.eq_def, if_neg (by rw [hc]; exact Bool.false_ne_true)]
      exact ih fun d hd => ht d (List.mem_cons_of_mem c hd)
  obtain ⟨a, b, hline, ha, hb, -⟩ := exists_trim low line
  conv_rhs => rw [hline]
  rw [quoteBehind, quoteBehind, List.foldl_append, List.foldl_append, hlow a ha, hlow b hb]

/-- The bytes that are cut off are the blanks, the control characters and those that are not ASCII. -/
theorem low_eq {c : Char} (hc : c.toNat < 256) : low c = (blank c || high c) := by
  have hspace : schar ' ' = 32 := rfl
  rw [low, hspace, schar, blank, high, ← Bool.decide_or, decide_eq_decide]
  split_ifs <;> omega

/-- Quotation marks are ASCII. -/
theorem high_quote (c : Char) (hc : isQuote c = true) : high c = false := by
  rw [isQuote, Bool.or_eq_true, decide_eq_true_eq, decide_eq_true_eq] at hc
  rw [high, decide_eq_false_iff_not]
  omega

/-- What `CreateArgs` cuts off of the line that has lost its blanks. -/
theorem trim_low {line : Text} (hbytes : ∀ c ∈ line, c.toNat < 256) :
    trim low line = trim (fun c => blank c || high c) (trim blank line) := by
  rw [trim_trim fun c hc => by rw [hc, Bool.true_or]]
  exact trim_congr fun c hc => low_eq (hbytes c hc)

/-- **The lines that `CreateArgs` splits right.** It never stores more pointers than there is room for; the arguments
are those of the line if and only if no byte that is not ASCII stands at its ends, or quotes are left open. -/
theorem createArgs_iff (line : Text) (hnul : nul ∉ line) (hbytes : ∀ c ∈ line, c.toNat < 256) :
    ∃ b, createArgs line = some b ∧
      ((b.argc ≤ countArgs line + 1 ∧ (b.returned ≠ -1 → Splits (trim blank line) b.args))
        ↔ (quoteBehind line = none → Bare high (trim blank line))) := by
  obtain ⟨b, hb, hargc, hquote, hargs⟩ := createArgs_eq hnul rfl
  refine ⟨b, hb, ?_⟩
  have hroom : b.argc ≤ countArgs line + 1 := by
    obtain ⟨u, v, hline, -⟩ := exists_trim low line
    have hcount := length_args_le u (trim low line) v
    rw [← hline] at hcount
    rw [hargc]
    exact Nat.succ_le_succ hcount
  have hopen : (Tokens.empty.readAll (trim low line)).quote = quoteBehind line :=
    (Tokens.readAll_quote _ _).trans (quoteBehind_trim line)
  have hreturned : b.returned ≠ -1 ↔ quoteBehind line = none := by
    rw [Buffer.returned, hquote, hopen]
    split_ifs with h
    · exact iff_of_true (by omega) h
    · exact iff_of_false (fun hne => hne rfl) h
  rw [and_iff_right hroom, hreturned]
  refine imp_congr_right fun hclosed => ?_
  rw [hopen] at hargs
  have hsplits : Splits (trim low line) b.args := by
    rw [hargs hclosed]
    exact (seen_readAll _).splits (hopen.trans hclosed)
  rw [trim_low hbytes] at hsplits
  constructor
  · -- the bytes that were cut off are missing in the arguments
    intro hline
    by_contra hbare
    have hlost := countP_trim_lt (q := fun c => blank c || high c) (fun c hc => by rw [hc, Bool.or_true]) hbare
    rw [hsplits.countP high_quote rfl, ← hline.countP high_quote rfl] at hlost
    exact absurd hlost (lt_irrefl _)
  · intro hbare
    have hblank : Bare blank (trim blank line) := by
      obtain ⟨-, -, -, -, -, h⟩ := exists_trim blank line
      exact h
    rw [trim_eq_self] at hsplits
    · exact hsplits
    · constructor
      · intro c hc
        exact Bool.or_eq_false_iff.mpr ⟨hblank.1 c hc, hbare.1 c hc⟩
      · intro c hc
        exact Bool.or_eq_false_iff.mpr ⟨hblank.2 c hc, hbare.2 c hc⟩

/-- ` info 'a b'c ` -/
theorem createArgs_quoted : ∃ b, createArgs " info 'a b'c \n".toList = some b ∧
    ((b.argc ≤ countArgs " info 'a b'c \n".toList + 1 ∧
        (b.returned ≠ -1 → Splits (trim blank " info 'a b'c \n".toList) b.args))
      ↔ (quoteBehind " info 'a b'c \n".toList = none → Bare high (trim blank " info 'a b'c \n".toList))) :=
  createArgs_iff _ (by decide) (forall_mem_of_all (by decide))

example : (createArgs " info 'a b'c \n".toList).map Buffer.args = some ["info".toList, "a bc".toList] := by decide

/-- `info café`, in UTF-8 -/
def cafe : Text := "info caf".toList ++ [Char.ofNat 0xC3, Char.ofNat 0xA9]

/-- The last letter of `café` is cut off. -/
theorem createArgs_cafe :
    ¬ ∀ line : Text, nul ∉ line → (∀ c ∈ line, c.toNat < 256) →
      ∃ b, createArgs line = some b ∧ b.argc ≤ countArgs line + 1 ∧
        (b.returned ≠ -1 → Splits (trim blank line) b.args) := by
  intro hall
  obtain ⟨b, hb, -, hsplits⟩ := hall cafe (by decide) (forall_mem_of_all (by decide))
  have hargs : (createArgs cafe).map Buffer.args = some ["info".toList, "caf".toList] := by decide
  have hreturned : (createArgs cafe).map Buffer.returned = some 3 := by decide
  rw [hb, Option.map_some, Option.some.injEq] at hargs hreturned
  rw [hargs, hreturned] at hsplits
  have hcount := (hsplits (by decide)).countP (r := high) high_quote rfl
  exact absurd hcount (by decide)

end Rrdtool.Remote
