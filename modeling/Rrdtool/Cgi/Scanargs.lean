import Rrdtool.Daemon.Encoding
import Rrdtool.Lib.Scan

/-!
# `scanargs`

The arguments of a directive are cut apart in the buffer: a read cursor goes over the text, and what belongs to an
argument is written behind a write cursor, with a terminator behind each argument. Tags may be nested in an argument;
only a `>` that closes none of them ends the directive.

* `scanLoop`, `scanargs` — the code;
* `Closed` — a text whose tags are closed;
* `scanargs_closed` — the scanner stops behind the directive, and what is behind it is untouched;
* `quiet_line` — no directive comes up in what is written.
-/

namespace Rrdtool.Cgi

open CStr
open Daemon (nul cstr cstr_cons cstr_append cstr_of_not_mem)

/-! ## The code -/

/-- A quotation mark, double or single. -/
def isQuote (c : Char) : Bool := c.toNat = 34 || c.toNat = 39

/-- What `scanargs` has found, when it has read so far. -/
structure Scan : Type where
  /-- what has been written, up to `putP` -/
  put : Text
  /-- the arguments, the last one first -/
  args : List Text
  /-- `Quote` -/
  quote : Option Char
  /-- `in_arg` -/
  inArg : Bool
  /-- `tagcount` -/
  tagcount : ℕ
  /-- `curarg_contains_rrd_directives` -/
  directives : Bool

namespace Scan

/-- Nothing has been read. -/
def empty : Scan := ⟨[], [], none, false, 0, false⟩

/-- `*putP++ = c`, in an argument -/
def store (s : Scan) (c : Char) : Scan :=
  { s with
    put := s.put ++ [c]
    args := match s.args with
      | arg :: args => (arg ++ [c]) :: args
      | [] => [] }

/-- `if (!in_arg)`: a new argument -/
def begin (s : Scan) : Scan := if s.inArg then s else { s with args := [] :: s.args, inArg := true }

/-- The last argument with its directives expanded, if it has any. -/
def expandLast (rrdExpandVars : Text → Text) (s : Scan) : List Text :=
  match s.args with
  | arg :: args => if s.directives then rrdExpandVars arg :: args else arg :: args
  | [] => []

end Scan

variable (rrdExpandVars : Text → Text)

/-- "remove all special chars" -/
def plainChar (c : Char) : Char := if c.toNat < 32 then ' ' else c

/-- A character that does not end the directive; `getP` is what follows it. -/
def scanChar (c : Char) (getP : Text) (s : Scan) : Scan :=
  let c := plainChar c
  if c = ' ' then
    if s.quote ≠ none ∨ s.tagcount ≠ 0 then s.store c
    else if s.inArg then
      { s with put := s.put ++ [nul], args := s.expandLast rrdExpandVars, inArg := false, directives := false }
    else s
  else if isQuote c then
    match s.quote with
    | some q => if q = c then { s with quote := none } else s.store c
    | none => { s.begin with quote := some c }
  else
    let s := s.begin
    let s := if c = '>' then { s with tagcount := s.tagcount - 1 } else s
    let s :=
      if c = '<' then
        { s with tagcount := s.tagcount + 1, directives := s.directives || "RRD::".toList.isPrefixOf getP }
      else s
    s.store c

/-- `while (*getP)` -/
def scanLoop : Text → Scan → Text × Scan
  | [], s => ([], s)
  | c :: getP, s =>
    if c = nul then (c :: getP, s)
    else if c = '>' ∧ s.quote = none ∧ s.tagcount = 0 then (getP, s)
    else scanLoop getP (scanChar rrdExpandVars c getP s)

/-- What `scanargs` returns, and what it makes of the line. -/
structure Scanned : Type where
  /-- the line, with the arguments cut apart -/
  line : Text
  /-- `arguments` -/
  args : List Text
  /-- the characters up to the cursor that is returned -/
  stop : Option ℕ

/-- `scanargs` -/
def scanargs (line : Text) : Scanned :=
  let blanks := line.takeWhile isspace
  let getP := scanLoop rrdExpandVars (line.dropWhile isspace) .empty
  let s := getP.2
  { line := blanks ++ s.put ++ nul :: line.drop (blanks.length + s.put.length + 1)
    args := (s.expandLast rrdExpandVars).reverse
    stop := if s.quote = none then some (line.length - getP.1.length) else none }

/-! ## A closed text -/

/-- **All tags are closed**, of the text and of so many that were open before; there are no quotes and no
terminator. -/
def Closed : ℕ → Text → Prop
  | n, [] => n = 0
  | n, c :: s =>
    c ≠ nul ∧ isQuote c = false ∧
      if c = '<' then Closed (n + 1) s else if c = '>' then n ≠ 0 ∧ Closed (n - 1) s else Closed n s

instance Closed.decide : (n : ℕ) → (s : Text) → Decidable (Closed n s)
  | n, [] => inferInstanceAs (Decidable (n = 0))
  | n, c :: s =>
    have := Closed.decide (n + 1) s
    have := Closed.decide (n - 1) s
    have := Closed.decide n s
    inferInstanceAs (Decidable (c ≠ nul ∧ isQuote c = false ∧
      if c = '<' then Closed (n + 1) s else if c = '>' then n ≠ 0 ∧ Closed (n - 1) s else Closed n s))

theorem Closed.tail {n : ℕ} {c : Char} {s : Text} (h : Closed n (c :: s)) :
    Closed (if c = '<' then n + 1 else if c = '>' then n - 1 else n) s := by
  have := h.2.2
  split_ifs at this ⊢
  · exact this
  · exact this.2
  · exact this

/-- Blanks leave the tags as they are. -/
theorem Closed.dropWhile {n : ℕ} {s : Text} (h : Closed n s) : Closed n (s.dropWhile isspace) := by
  induction s with
  | nil => exact h
  | cons c s ih =>
    rw [List.dropWhile_cons]
    split_ifs with hc
    · have htail := h.tail
      have hlt : c ≠ '<' := by
        rintro rfl
        cases hc
      have hgt : c ≠ '>' := by
        rintro rfl
        cases hc
      rw [if_neg hlt, if_neg hgt] at htail
      exact ih htail
    · exact h

/-- **No directive begins in the text.** -/
def Quiet (t : Text) : Prop := ∀ u, u <:+ t → ¬ "<RRD::".toList <+: u

theorem Quiet.suffix {t u : Text} (h : Quiet t) (hu : u <:+ t) : Quiet u := fun v hv => h v (hv.trans hu)

/-- What a text begins with does not reach over a character that is not in it. -/
theorem prefix_of_append {p u w : Text} {x : Char} (hx : x ∉ p) (h : p <+: u ++ x :: w) : p <+: u := by
  induction p generalizing u with
  | nil => exact List.nil_prefix
  | cons a p ih =>
    obtain ⟨ha, hp⟩ := not_or.mp (List.mem_cons.not.mp hx)
    cases u with
    | nil => exact absurd (List.cons_prefix_cons.mp h).1.symm ha
    | cons b u =>
      rw [List.cons_append, List.cons_prefix_cons] at h
      exact List.cons_prefix_cons.mpr ⟨h.1, ih hp h.2⟩

theorem Quiet.front {t u : Text} (h : Quiet t) (hu : u <+: t) : Quiet u := by
  intro v hv hbegin
  obtain ⟨w, rfl⟩ := hu
  obtain ⟨a, rfl⟩ := hv
  refine h (v ++ w) ⟨a, by rw [List.append_assoc]⟩ (hbegin.trans (List.prefix_append v w))

theorem Quiet.part {t u : Text} (h : Quiet t) (hu : u <:+: t) : Quiet u := by
  obtain ⟨a, b, rfl⟩ := hu
  exact (h.front ⟨b, rfl⟩).suffix ⟨a, rfl⟩

/-- In front of a quiet text. -/
theorem Quiet.append {a t : Text} (ha : '<' ∉ a) (h : Quiet t) : Quiet (a ++ t) := by
  induction a with
  | nil => exact h
  | cons c a ih =>
    obtain ⟨hc, ha⟩ := not_or.mp (List.mem_cons.not.mp ha)
    intro u hu hbegin
    rcases List.suffix_cons_iff.mp hu with rfl | hu
    · exact hc (List.cons_prefix_cons.mp hbegin).1
    · exact ih ha u hu hbegin

theorem plainChar_of_ge {c : Char} (h : ¬ c.toNat < 32) : plainChar c = c := if_neg h

/-- Special characters are not part of a directive. -/
theorem Quiet.map_plainChar {t : Text} (h : Quiet t) : Quiet (t.map plainChar) := by
  intro u hu hbegin
  obtain ⟨v, hv, rfl⟩ : ∃ v, v <:+ t ∧ u = v.map plainChar := by
    obtain ⟨a, ha⟩ := hu
    obtain ⟨a', v, rfl, -, hv⟩ := List.map_eq_append_iff.mp ha.symm
    exact ⟨v, List.suffix_append a' v, hv.symm⟩
  have hpattern (p : Text) (hp : ∀ c ∈ p, c ≠ ' ') : ∀ v : Text, p <+: v.map plainChar → p <+: v := by
    induction p with
    | nil => exact fun v _ => List.nil_prefix
    | cons a p ih =>
      intro v hv
      cases v with
      | nil => simp at hv
      | cons b v =>
        rw [List.map_cons, List.cons_prefix_cons] at hv
        have hab : a = b := by
          have ha := hp a List.mem_cons_self
          rw [hv.1] at ha ⊢
          unfold plainChar at ha ⊢
          split_ifs at ha ⊢
          · exact absurd rfl ha
          · rfl
        exact List.cons_prefix_cons.mpr ⟨hab, ih (fun c hc => hp c (List.mem_cons_of_mem a hc)) v hv.2⟩
  exact h v hv (hpattern _ (forall_mem_of_all (by decide)) v hbegin)

/-! ## The scanner on a closed text -/

/-- **The state of the scanner**, in a text without quotes and directives: what it has written are, up to the end of
the first argument, characters that stand together in the text. -/
structure Traced (seen : Text) (s : Scan) : Prop where
  quote : s.quote = none
  tagged : s.tagcount ≠ 0 → s.inArg = true
  plain : s.directives = false
  length : s.put.length ≤ seen.length
  put : (s.inArg = false ∧ s.put = []) ∨ (s.inArg = true ∧ nul ∉ s.put ∧ s.put <:+ seen.map plainChar)
    ∨ ∃ w r, s.put = w ++ nul :: r ∧ nul ∉ w ∧ w <:+: seen.map plainChar

variable {seen getP : Text} {s : Scan} {c : Char}

theorem plainChar_ne_nul : plainChar c ≠ nul := by
  unfold plainChar
  split_ifs with h
  · decide
  · rintro rfl
    exact h (by decide)

/-- What stands together still does. -/
theorem infix_concat {w t : Text} (h : w <:+: t.map plainChar) : w <:+: (t ++ [c]).map plainChar := by
  rw [List.map_append]
  exact h.trans (List.prefix_append _ _).isInfix

theorem begin_put : s.begin.put = s.put := by
  unfold Scan.begin
  split_ifs <;> rfl

theorem begin_inArg : s.begin.inArg = true := by
  unfold Scan.begin
  split_ifs with h
  · exact h
  · rfl

theorem begin_quote : s.begin.quote = s.quote := by
  unfold Scan.begin
  split_ifs <;> rfl

theorem begin_tagcount : s.begin.tagcount = s.tagcount := by
  unfold Scan.begin
  split_ifs <;> rfl

theorem begin_directives : s.begin.directives = s.directives := by
  unfold Scan.begin
  split_ifs <;> rfl

/-- A character is stored in the argument that has begun. -/
theorem Traced.store (h : Traced seen s) (n : ℕ) :
    Traced (seen ++ [c]) ({ s.begin with tagcount := n }.store (plainChar c)) where
  quote := begin_quote.trans h.quote
  tagged := fun _ => begin_inArg
  plain := begin_directives.trans h.plain
  length := by
    have := h.length
    rw [Scan.store, begin_put, List.length_append, List.length_append]
    exact Nat.add_le_add_right this 1
  put := by
    rw [Scan.store, begin_put]
    dsimp only
    rw [begin_inArg]
    right
    rcases h.put with ⟨-, hput⟩ | ⟨-, hnul, hput⟩ | ⟨w, r, hput, hnul, hw⟩
    · rw [hput, List.map_append]
      exact .inl ⟨rfl, by simpa using plainChar_ne_nul.symm, List.suffix_append _ _⟩
    · left
      refine ⟨rfl, ?_, ?_⟩
      · rw [List.mem_append, List.mem_singleton, not_or]
        exact ⟨hnul, plainChar_ne_nul.symm⟩
      · rw [List.map_append]
        obtain ⟨a, ha⟩ := hput
        exact ⟨a, by rw [← List.append_assoc, ha]; rfl⟩
    · right
      refine ⟨w, r ++ [plainChar c], ?_, hnul, infix_concat hw⟩
      rw [hput, List.append_assoc, List.cons_append]

/-- A blank that is not part of an argument. -/
theorem Traced.skip (h : Traced seen s) (harg : s.inArg = false) : Traced (seen ++ [c]) s where
  quote := h.quote
  tagged := h.tagged
  plain := h.plain
  length := by
    have := h.length
    rw [List.length_append]
    omega
  put := by
    rcases h.put with hput | ⟨hin, -⟩ | ⟨w, r, hput, hnul, hw⟩
    · exact .inl hput
    · rw [harg] at hin
      cases hin
    · exact .inr (.inr ⟨w, r, hput, hnul, infix_concat hw⟩)

/-- A blank behind an argument. -/
theorem Traced.finish (h : Traced seen s) (harg : s.inArg = true) (htag : s.tagcount = 0) (args : List Text) :
    Traced (seen ++ [c]) { s with put := s.put ++ [nul], args := args, inArg := false, directives := false } where
  quote := h.quote
  tagged := fun hne => absurd htag hne
  plain := rfl
  length := by
    have := h.length
    rw [List.length_append, List.length_append]
    exact Nat.add_le_add_right this 1
  put := by
    right
    right
    rcases h.put with ⟨hin, -⟩ | ⟨-, hnul, hput⟩ | ⟨w, r, hput, hnul, hw⟩
    · rw [harg] at hin
      cases hin
    · exact ⟨s.put, [], rfl, hnul, infix_concat hput.isInfix⟩
    · refine ⟨w, r ++ [nul], ?_, hnul, infix_concat hw⟩
      rw [hput, List.append_assoc, List.cons_append]

/-- How many tags are open behind a character. -/
def tagsBehind (n : ℕ) (c : Char) : ℕ := if c = '<' then n + 1 else if c = '>' then n - 1 else n

/-- **One character of a closed, quiet text.** -/
theorem Traced.scanChar (h : Traced seen s) (hquote : isQuote c = false)
    (hquiet : c = '<' → ¬ "RRD::".toList <+: getP) :
    Traced (seen ++ [c]) (scanChar rrdExpandVars c getP s)
      ∧ (scanChar rrdExpandVars c getP s).tagcount = tagsBehind s.tagcount c := by
  by_cases hblank : plainChar c = ' '
  · have htags : tagsBehind s.tagcount c = s.tagcount := by
      have hlt : c ≠ '<' := by
        rintro rfl
        cases hblank
      have hgt : c ≠ '>' := by
        rintro rfl
        cases hblank
      rw [tagsBehind, if_neg hlt, if_neg hgt]
    rw [Cgi.scanChar]
    dsimp only
    rw [if_pos hblank, htags]
    by_cases htag : s.tagcount = 0
    · rw [if_neg (by simp [h.quote, htag])]
      split_ifs with harg
      · exact ⟨h.finish harg htag _, rfl⟩
      · exact ⟨h.skip (by simpa using harg), rfl⟩
    · have hbegin : s.begin = s := if_pos (h.tagged htag)
      have hstore := h.store (c := c) s.tagcount
      rw [hbegin] at hstore
      rw [if_pos (.inr htag)]
      exact ⟨hstore, rfl⟩
  · have hplain : plainChar c = c := by
      unfold plainChar at hblank ⊢
      split_ifs at hblank ⊢
      · exact absurd rfl hblank
      · rfl
    have hstore := h.store (c := c)
    rw [Cgi.scanChar]
    dsimp only
    rw [if_neg hblank]
    rw [hplain] at hstore ⊢
    rw [if_neg (by simp [hquote]), tagsBehind]
    by_cases hgt : c = '>'
    · have hlt : c ≠ '<' := by
        rintro rfl
        cases hgt
      rw [if_pos hgt, if_neg hlt, if_neg hlt, if_pos hgt]
      exact ⟨hstore _, congrArg (· - 1) begin_tagcount⟩
    · rw [if_neg hgt]
      by_cases hlt : c = '<'
      · have hno : "RRD::".toList.isPrefixOf getP = false := by
          rw [← Bool.not_eq_true, List.isPrefixOf_iff_prefix]
          exact hquiet hlt
        rw [if_pos hlt, if_pos hlt, hno, Bool.or_false]
        exact ⟨hstore _, congrArg (· + 1) begin_tagcount⟩
      · rw [if_neg hlt, if_neg hlt, if_neg hgt]
        exact ⟨hstore s.begin.tagcount, begin_tagcount⟩

/-- What the scanner makes of a text. -/
def scanText (rrdExpandVars : Text → Text) (body : Text) (s : Scan) : Scan :=
  body.foldl (fun s c => scanChar rrdExpandVars c [] s) s

/-- Without a directive it does not matter what follows. -/
theorem scanChar_quiet (hquiet : c = '<' → ¬ "RRD::".toList <+: getP) :
    scanChar rrdExpandVars c getP s = scanChar rrdExpandVars c [] s := by
  by_cases hlt : c = '<'
  · have hno : "RRD::".toList.isPrefixOf getP = false := by
      rw [← Bool.not_eq_true, List.isPrefixOf_iff_prefix]
      exact hquiet hlt
    rw [scanChar, scanChar, hno]
    rfl
  · simp only [scanChar]
    have hne : plainChar c ≠ '<' := by
      unfold plainChar
      split_ifs
      · decide
      · exact hlt
    simp only [if_neg hne]

/-- **The scanner stops behind the directive**, and the text in front is all that matters. -/
theorem scanLoop_closed {body : Text} (rest : Text) (hclosed : Closed s.tagcount body) (hquiet : Quiet body) (h : Traced seen s) :
    scanLoop rrdExpandVars (body ++ '>' :: rest) s = (rest, scanText rrdExpandVars body s)
      ∧ Traced (seen ++ body) (scanText rrdExpandVars body s) := by
  induction body generalizing seen s with
  | nil =>
    rw [List.append_nil, List.nil_append, scanLoop, if_neg (by decide), if_pos ⟨rfl, h.quote, hclosed⟩]
    exact ⟨rfl, h⟩
  | cons c body ih =>
    have hdirective : c = '<' → ¬ "RRD::".toList <+: body ++ '>' :: rest := by
      rintro rfl hbegin
      refine hquiet _ (List.suffix_refl _) (List.cons_prefix_cons.mpr ⟨rfl, ?_⟩)
      exact prefix_of_append (by decide) hbegin
    have hstop : ¬ (c = '>' ∧ s.quote = none ∧ s.tagcount = 0) := by
      rintro ⟨rfl, -, htag⟩
      exact (hclosed.2.2).1 htag
    obtain ⟨htraced, htags⟩ := h.scanChar rrdExpandVars hclosed.2.1 hdirective
    rw [scanChar_quiet rrdExpandVars hdirective] at htraced htags
    rw [List.cons_append, scanLoop, if_neg hclosed.1, if_neg hstop, scanChar_quiet rrdExpandVars hdirective, List.append_cons seen]
    apply ih
    · rw [htags]
      exact hclosed.tail
    · exact hquiet.suffix (List.suffix_cons c body)
    · exact htraced

/-- The arguments of a directive. -/
def bodyArgs (rrdExpandVars : Text → Text) (body : Text) : List Text :=
  (scanText rrdExpandVars (body.dropWhile isspace) .empty).args.reverse

/-- **The arguments are those of the directive**, the cursor stands behind it, and what follows is as it was. In front
of the first terminator of the line no directive begins. -/
theorem scanargs_closed {body : Text} (rest : Text) (hclosed : Closed 0 body) (hquiet : Quiet body) :
    (scanargs rrdExpandVars (body ++ '>' :: rest)).args = bodyArgs rrdExpandVars body
      ∧ (scanargs rrdExpandVars (body ++ '>' :: rest)).stop = some (body.length + 1)
      ∧ (scanargs rrdExpandVars (body ++ '>' :: rest)).line.drop (body.length + 1) = rest
      ∧ ∃ w r, (scanargs rrdExpandVars (body ++ '>' :: rest)).line = w ++ nul :: r ∧ nul ∉ w ∧ Quiet w := by
  have htraced : Traced [] Scan.empty := ⟨rfl, fun h => absurd rfl h, rfl, le_rfl, .inl ⟨rfl, rfl⟩⟩
  have hquiet' : Quiet (body.dropWhile isspace) := hquiet.suffix (List.dropWhile_suffix _)
  obtain ⟨hloop, htraced⟩ :=
    scanLoop_closed rrdExpandVars (s := .empty) rest hclosed.dropWhile hquiet' htraced
  have hblanks : (body ++ '>' :: rest).takeWhile isspace = body.takeWhile isspace := takeWhile_append (by decide) _ _
  have hline : (body ++ '>' :: rest).dropWhile isspace = body.dropWhile isspace ++ '>' :: rest :=
    dropWhile_append (by decide) _ _
  have hsplit : (body.takeWhile isspace).length + (body.dropWhile isspace).length = body.length := by
    rw [← List.length_append, List.takeWhile_append_dropWhile]
  rw [List.nil_append] at htraced
  have hput := htraced.length
  rw [scanargs]
  simp only [hblanks, hline, hloop]
  generalize hs : scanText rrdExpandVars (body.dropWhile isspace) Scan.empty = s at htraced hput
  refine ⟨?_, ?_, ?_, ?_⟩
  · rw [bodyArgs, hs, Scan.expandLast, htraced.plain]
    cases s.args <;> rfl
  · rw [if_pos htraced.quote, List.length_append, List.length_cons]
    congr 1
    omega
  · -- the terminators are written in front of the cursor
    have hlength : (body.takeWhile isspace ++ s.put).length ≤ body.length := by
      rw [List.length_append]
      omega
    obtain ⟨k, hk⟩ := Nat.exists_eq_add_of_le hlength
    have hshift : body.length + 1 = (body.takeWhile isspace ++ s.put).length + (k + 1) := by omega
    rw [hshift, List.drop_length_add_append, List.drop_succ_cons, List.drop_drop]
    have hdrop : (body.takeWhile isspace).length + s.put.length + 1 + k = body.length + 1 := by
      rw [List.length_append] at hk
      omega
    rw [hdrop, List.drop_length_add_append]
    rfl
  · have hlt : '<' ∉ body.takeWhile isspace := by
      intro hmem
      exact absurd (List.mem_takeWhile_imp hmem) (by decide)
    have hblank : nul ∉ body.takeWhile isspace := by
      intro hmem
      exact absurd (List.mem_takeWhile_imp hmem) (by decide)
    rcases htraced.put with ⟨-, hput⟩ | ⟨-, hnul, hput⟩ | ⟨w, r, hput, hnul, hw⟩
    · have hempty : Quiet s.put := by
        rw [hput]
        exact hquiet.suffix List.nil_suffix
      exact ⟨_, _, rfl, by rw [hput, List.append_nil]; exact hblank, hempty.append hlt⟩
    · exact ⟨_, _, rfl, by rw [List.mem_append, not_or]; exact ⟨hblank, hnul⟩,
        (hquiet'.map_plainChar.suffix hput).append hlt⟩
    · rw [hput]
      generalize (body ++ '>' :: rest).drop _ = behind
      refine ⟨body.takeWhile isspace ++ w, r ++ nul :: behind, ?_, ?_, (hquiet'.map_plainChar.part hw).append hlt⟩
      · simp only [List.append_assoc, List.cons_append]
      · rw [List.mem_append, not_or]
        exact ⟨hblank, hnul⟩

theorem Closed.nul_not_mem {n : ℕ} {t : Text} (h : Closed n t) : nul ∉ t := by
  induction t generalizing n with
  | nil => exact List.not_mem_nil
  | cons c t ih =>
    rw [List.mem_cons, not_or]
    exact ⟨h.1.symm, ih h.tail⟩

end Rrdtool.Cgi
