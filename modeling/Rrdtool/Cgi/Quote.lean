import Rrdtool.Cgi.Path
import Rrdtool.Cgi.Scanargs

/-!
# Quoted values

`cgigetq` puts the value of a variable between double quotation marks; a double quotation mark of the value leaves the
quotes, stands between single ones, and the quotes go on. What `scanargs` makes of the text is one argument again.

* `quote`, `cgigetq` — the code;
* `Orderly`, `scanLoop_under` — the scanner has no use for the arguments it has read;
* `scanLoop_quote` — what it makes of a quoted text;
* `scanargs_cgigetq` — the arguments of a directive, with the value among them.
-/

namespace Rrdtool.Cgi

open CStr
open Daemon (nul cstr cstr_append)

/-! ## The code -/

/-- A double quotation mark. -/
def dquote : Char := Char.ofNat 34

/-- A single quotation mark. -/
def squote : Char := Char.ofNat 39

/-- `buf2` -/
structure QuoteBuf : Type where
  /-- what has been allocated -/
  size : ℕ
  /-- what has been written, up to `d` -/
  bytes : Text

/-- `*(d++) = c` -/
def QuoteBuf.put (b : QuoteBuf) (c : Char) : QuoteBuf := { b with bytes := b.bytes ++ [c] }

/-- `while (*c != '\0')` -/
def quoteLoop : Text → QuoteBuf → QuoteBuf
  | [], d => d
  | c :: s, d =>
    let d := if c = dquote then (((d.put dquote).put squote).put dquote).put squote else d
    quoteLoop s (d.put c)

/-- `buf2`, when it is returned. -/
def quote (buf : Text) : QuoteBuf :=
  let qc := buf.count dquote
  let d : QuoteBuf := ⟨buf.length + 4 * qc + 4, []⟩
  ((quoteLoop buf (d.put dquote)).put dquote).put nul

/-- `cgigetq` -/
def cgigetq (parms : Option (List SVar)) (args : List Text) : Option Text :=
  match args with
  | [] => some "[ERROR: not enough argument for RRD::CV::QUOTE]".toList
  | name :: _ => (rrdcgiGetValue parms name).map fun value => cstr (quote (rrdstrip value)).bytes

/-! ## The quoted text -/

/-- What stands for a character between the quotes. -/
def quoteChar (c : Char) : Text := if c = dquote then [dquote, squote, dquote, squote, dquote] else [c]

/-- The text between the quotes. -/
def quoteBody (s : Text) : Text := s.flatMap quoteChar

theorem quoteLoop_eq (s : Text) (d : QuoteBuf) : quoteLoop s d = { d with bytes := d.bytes ++ quoteBody s } := by
  induction s generalizing d with
  | nil => rw [quoteLoop, quoteBody, List.flatMap_nil, List.append_nil]
  | cons c s ih =>
    rw [quoteLoop, ih, quoteBody, quoteBody, List.flatMap_cons, ← List.append_assoc, quoteChar]
    split_ifs with hc
    · subst hc
      simp [QuoteBuf.put]
    · rfl

theorem quote_bytes (s : Text) : (quote s).bytes = dquote :: quoteBody s ++ [dquote] ++ [nul] := by
  rw [quote, quoteLoop_eq]
  rfl

theorem length_quoteBody (s : Text) : (quoteBody s).length = s.length + 4 * s.count dquote := by
  induction s with
  | nil => rfl
  | cons c s ih =>
    rw [quoteBody, List.flatMap_cons, List.length_append, ← quoteBody, ih, List.length_cons, List.count_cons, quoteChar]
    by_cases hc : c = dquote
    · rw [if_pos hc, if_pos (beq_iff_eq.mpr hc), List.length_cons, List.length_cons, List.length_cons, List.length_cons,
        List.length_singleton]
      omega
    · rw [if_neg hc, if_neg (by simpa using hc), List.length_singleton]
      omega

/-- **The buffer is filled to its last but one byte**, with the terminator. -/
theorem length_quote (s : Text) : (quote s).bytes.length + 1 = (quote s).size := by
  have hsize : (quote s).size = s.length + 4 * s.count dquote + 4 := by
    rw [quote, quoteLoop_eq]
    rfl
  rw [quote_bytes, hsize, List.length_append, List.length_append, List.length_cons, length_quoteBody, List.length_singleton,
    List.length_singleton]

theorem mem_quoteBody {s : Text} {c : Char} (h : c ∈ quoteBody s) : c = dquote ∨ c = squote ∨ c ∈ s := by
  obtain ⟨d, hd, hc⟩ := List.mem_flatMap.mp h
  rw [quoteChar] at hc
  split_ifs at hc
  · simp only [List.mem_cons, List.not_mem_nil, or_false] at hc
    tauto
  · rw [List.mem_singleton] at hc
    exact .inr (.inr (hc ▸ hd))

/-- The text that is returned. -/
theorem cstr_quote {s : Text} (h : nul ∉ s) : cstr (quote s).bytes = dquote :: quoteBody s ++ [dquote] := by
  rw [quote_bytes]
  refine cstr_append ?_ []
  rw [List.mem_append, List.mem_cons, List.mem_singleton]
  rintro ((hc | hc) | hc)
  · exact absurd hc (by decide)
  · rcases mem_quoteBody hc with hc | hc | hc
    · exact absurd hc (by decide)
    · exact absurd hc (by decide)
    · exact h hc
  · exact absurd hc (by decide)

/-! ## Arguments that have been read -/

variable (rrdExpandVars : Text → Text)

namespace Scan

/-- With arguments in front, and what was written for them. -/
def under (s : Scan) (w : Text) (args : List Text) : Scan := { s with put := w ++ s.put, args := s.args ++ args }

theorem under_under (s : Scan) (w w' : Text) (args args' : List Text) :
    (s.under w' args').under w args = s.under (w ++ w') (args' ++ args) := by
  rw [under, under, under, List.append_assoc, List.append_assoc]

/-- **Quotes, tags and directives are those of an argument** that is being read. -/
structure Orderly (s : Scan) : Prop where
  quote : s.quote ≠ none → s.inArg = true
  tagged : s.tagcount ≠ 0 → s.inArg = true
  plain : s.inArg = false → s.directives = false
  args : s.inArg = true → s.args ≠ []

theorem orderly_empty : Orderly empty where
  quote h := absurd rfl h
  tagged h := absurd rfl h
  plain _ := rfl
  args h := absurd h Bool.false_ne_true

variable {s : Scan} {w : Text} {args : List Text}

theorem store_under (h : s.args ≠ []) (c : Char) : (s.under w args).store c = (s.store c).under w args := by
  obtain ⟨arg, rest, hargs⟩ := List.exists_cons_of_ne_nil h
  rw [store, store, under, under, hargs]
  simp only [List.append_assoc, List.cons_append]

theorem begin_under : (s.under w args).begin = s.begin.under w args := by
  rw [begin, begin, under]
  split_ifs <;> rfl

theorem args_begin (h : s.inArg = true → s.args ≠ []) : s.begin.args ≠ [] := by
  rw [begin]
  split_ifs with hin
  · exact h hin
  · exact List.cons_ne_nil _ _

theorem args_store (h : s.args ≠ []) (c : Char) : (s.store c).args ≠ [] := by
  obtain ⟨arg, rest, hargs⟩ := List.exists_cons_of_ne_nil h
  rw [store, hargs]
  exact List.cons_ne_nil _ _

theorem Orderly.store (h : Orderly s) (hin : s.inArg = true) (c : Char) : Orderly (s.store c) where
  quote _ := hin
  tagged _ := hin
  plain hout := absurd (hin.symm.trans hout) Bool.noConfusion
  args _ := args_store (h.args hin) c

theorem Orderly.begin (h : Orderly s) : Orderly s.begin where
  quote _ := begin_inArg
  tagged _ := begin_inArg
  plain hout := absurd (begin_inArg.symm.trans hout) Bool.noConfusion
  args _ := args_begin h.args

theorem expandLast_under (h : Orderly s) :
    (s.under w args).expandLast rrdExpandVars = s.expandLast rrdExpandVars ++ args := by
  rcases hargs : s.args with _ | ⟨arg, rest⟩
  · -- no argument is being read
    have hplain : s.directives = false := h.plain (Bool.eq_false_iff.mpr fun hin => h.args hin hargs)
    rw [expandLast, expandLast, under, hargs]
    dsimp only
    rw [hplain]
    cases args <;> rfl
  · rw [expandLast, expandLast, under, hargs]
    dsimp only [List.cons_append]
    split_ifs <;> rfl

end Scan

open Scan (Orderly)

variable {s : Scan} {w : Text} {args : List Text}

/-- **One character**, with arguments in front. -/
theorem scanChar_under (h : Orderly s) (w : Text) (args : List Text) (c : Char) (getP : Text) :
    scanChar rrdExpandVars c getP (s.under w args) = (scanChar rrdExpandVars c getP s).under w args
      ∧ Orderly (scanChar rrdExpandVars c getP s) := by
  rw [scanChar, scanChar]
  dsimp only
  by_cases hblank : plainChar c = ' '
  · rw [if_pos hblank, if_pos hblank]
    by_cases hopen : s.quote ≠ none ∨ s.tagcount ≠ 0
    · have hin : s.inArg = true := hopen.elim h.quote h.tagged
      have hopen' : (s.under w args).quote ≠ none ∨ (s.under w args).tagcount ≠ 0 := hopen
      rw [if_pos hopen', if_pos hopen]
      exact ⟨Scan.store_under (h.args hin) _, h.store hin _⟩
    · have hopen' : ¬ ((s.under w args).quote ≠ none ∨ (s.under w args).tagcount ≠ 0) := hopen
      rw [if_neg hopen', if_neg hopen]
      by_cases hin : s.inArg = true
      · have hin' : (s.under w args).inArg = true := hin
        rw [if_pos hin', if_pos hin, Scan.expandLast_under rrdExpandVars h]
        refine ⟨?_, fun hquote => absurd (.inl hquote) hopen, fun htag => absurd (.inr htag) hopen, fun _ => rfl,
          fun hout => ?_⟩
        · rw [Scan.under, Scan.under, List.append_assoc]
        · cases hout
      · have hin' : ¬ (s.under w args).inArg = true := hin
        rw [if_neg hin', if_neg hin]
        exact ⟨rfl, h⟩
  · rw [if_neg hblank, if_neg hblank]
    by_cases hmark : isQuote (plainChar c) = true
    · rw [if_pos hmark, if_pos hmark]
      have hsame : (s.under w args).quote = s.quote := rfl
      rw [hsame]
      rcases hquote : s.quote with _ | q
      · dsimp only
        rw [Scan.begin_under]
        exact ⟨rfl, fun _ => begin_inArg, fun _ => begin_inArg, h.begin.plain, h.begin.args⟩
      · have hin : s.inArg = true := h.quote (by rw [hquote]; exact Option.some_ne_none q)
        dsimp only
        split_ifs
        · exact ⟨rfl, fun hne => absurd rfl hne, h.tagged, h.plain, h.args⟩
        · exact ⟨Scan.store_under (h.args hin) _, h.store hin _⟩
    · rw [if_neg hmark, if_neg hmark, Scan.begin_under]
      -- the tags are counted in the argument that has begun
      have hbegun (t : Scan) (ht : t.inArg = true) (hargs : t.args ≠ []) :
          (t.under w args).store (plainChar c) = (t.store (plainChar c)).under w args
            ∧ Orderly (t.store (plainChar c)) :=
        ⟨Scan.store_under hargs _, fun _ => ht, fun _ => ht, fun hout => absurd (ht.symm.trans hout) Bool.noConfusion,
          fun _ => Scan.args_store hargs _⟩
      have hargs : s.begin.args ≠ [] := Scan.args_begin h.args
      have hin : s.begin.inArg = true := begin_inArg
      generalize s.begin = t at hargs hin
      by_cases hgt : plainChar c = '>'
      · have hlt : ¬ plainChar c = '<' := by
          rw [hgt]
          decide
        rw [if_pos hgt, if_pos hgt, if_neg hlt, if_neg hlt]
        exact hbegun { t with tagcount := t.tagcount - 1 } hin hargs
      · rw [if_neg hgt, if_neg hgt]
        split_ifs
        · exact hbegun { t with tagcount := t.tagcount + 1, directives := _ } hin hargs
        · exact hbegun t hin hargs

/-- **The loop**, with arguments in front. -/
theorem scanLoop_under (h : Orderly s) (w : Text) (args : List Text) (t : Text) :
    scanLoop rrdExpandVars t (s.under w args)
        = ((scanLoop rrdExpandVars t s).1, (scanLoop rrdExpandVars t s).2.under w args)
      ∧ Orderly (scanLoop rrdExpandVars t s).2 := by
  induction t generalizing s with
  | nil => exact ⟨rfl, h⟩
  | cons c t ih =>
    obtain ⟨hchar, horderly⟩ := scanChar_under rrdExpandVars h w args c t
    rw [scanLoop, scanLoop]
    by_cases hc : c = nul
    · rw [if_pos hc, if_pos hc]
      exact ⟨rfl, h⟩
    · rw [if_neg hc, if_neg hc]
      by_cases hstop : c = '>' ∧ s.quote = none ∧ s.tagcount = 0
      · have hstop' : c = '>' ∧ (s.under w args).quote = none ∧ (s.under w args).tagcount = 0 := hstop
        rw [if_pos hstop', if_pos hstop]
        exact ⟨rfl, h⟩
      · have hstop' : ¬ (c = '>' ∧ (s.under w args).quote = none ∧ (s.under w args).tagcount = 0) := hstop
        rw [if_neg hstop', if_neg hstop, hchar]
        exact ih horderly

/-! ## Blanks -/

/-- One turn of the loop. -/
theorem scanLoop_cons {c : Char} (hc : c ≠ nul) (hstop : ¬ (c = '>' ∧ s.quote = none ∧ s.tagcount = 0)) (t : Text) :
    scanLoop rrdExpandVars (c :: t) s = scanLoop rrdExpandVars t (scanChar rrdExpandVars c t s) := by
  rw [scanLoop, if_neg hc, if_neg hstop]

/-- In front of an argument blanks are passed over. -/
theorem scanLoop_dropWhile (t : Text) :
    scanLoop rrdExpandVars (t.dropWhile isspace) .empty = scanLoop rrdExpandVars t .empty := by
  induction t with
  | nil => rfl
  | cons c t ih =>
    rw [List.dropWhile_cons]
    split_ifs with hc
    · have hplain : plainChar c = ' ' := by
        rw [isspace] at hc
        simp only [Bool.or_eq_true, decide_eq_true_eq] at hc
        rcases hc with ((((rfl | rfl) | rfl) | rfl) | hc) | hc
        · rfl
        · rfl
        · rfl
        · rfl
        · exact if_pos (by omega)
        · exact if_pos (by omega)
      have hne {d : Char} (hd : isspace d = false) : c ≠ d := by
        rintro rfl
        rw [hc] at hd
        cases hd
      have hskip : scanChar rrdExpandVars c t .empty = .empty := by
        rw [scanChar]
        dsimp only
        rw [if_pos hplain]
        rfl
      rw [scanLoop_cons rrdExpandVars (hne rfl) (fun h => hne rfl h.1), hskip]
      exact ih
    · rfl

/-- What `scanargs` finds. -/
theorem scanargs_eq (line : Text) :
    (scanargs rrdExpandVars line).args = ((scanLoop rrdExpandVars line .empty).2.expandLast rrdExpandVars).reverse
      ∧ (scanargs rrdExpandVars line).stop =
        if (scanLoop rrdExpandVars line .empty).2.quote = none then
          some (line.length - (scanLoop rrdExpandVars line .empty).1.length)
        else none := by
  rw [scanargs, scanLoop_dropWhile]
  exact ⟨rfl, rfl⟩

theorem length_scanLoop (t : Text) (s : Scan) : (scanLoop rrdExpandVars t s).1.length ≤ t.length := by
  induction t generalizing s with
  | nil => exact le_rfl
  | cons c t ih =>
    rw [scanLoop]
    split_ifs
    · exact le_rfl
    · exact Nat.le_succ _
    · exact (ih _).trans (Nat.le_succ _)

/-- Nothing is looked at behind a character that is not in the mark of a directive. -/
theorem scanChar_lookahead {x : Char} (hx : x ∉ "RRD::".toList) (c : Char) (t rest : Text) (s : Scan) :
    scanChar rrdExpandVars c (t ++ x :: rest) s = scanChar rrdExpandVars c t s := by
  have hprefix : "RRD::".toList.isPrefixOf (t ++ x :: rest) = "RRD::".toList.isPrefixOf t := by
    rw [Bool.eq_iff_iff, List.isPrefixOf_iff_prefix, List.isPrefixOf_iff_prefix]
    exact ⟨prefix_of_append hx, fun h => h.trans (List.prefix_append _ _)⟩
  rw [scanChar, scanChar, hprefix]

/-- **A text of whole arguments**: the scanner reads it to its end, and leaves neither a quotation mark nor a tag
open. -/
def Complete (text : Text) : Prop :=
  let r := scanLoop rrdExpandVars (text ++ [' ']) .empty
  r.1 = [] ∧ r.2.quote = none ∧ r.2.tagcount = 0

instance (text : Text) : Decidable (Complete rrdExpandVars text) := inferInstanceAs (Decidable (_ ∧ _ ∧ _))

/-- The scanner goes on behind a text that it reads to its end. -/
theorem scanLoop_through (h : Orderly s) {t : Text} (hread : (scanLoop rrdExpandVars (t ++ [' ']) s).1 = []) :
    ∃ s', Orderly s' ∧ scanLoop rrdExpandVars t s = ([], s') ∧
      ∀ rest, scanLoop rrdExpandVars (t ++ ' ' :: rest) s = scanLoop rrdExpandVars rest (scanChar rrdExpandVars ' ' [] s') := by
  induction t generalizing s with
  | nil =>
    refine ⟨s, h, rfl, fun rest => ?_⟩
    rw [List.nil_append, scanLoop_cons rrdExpandVars (by decide) (fun h => absurd h.1 (by decide)),
      scanChar_quiet rrdExpandVars (fun h => absurd h (by decide))]
  | cons c t ih =>
    rw [List.cons_append, scanLoop] at hread
    split_ifs at hread with hc hstop
    · simp at hread
    · rw [scanChar_lookahead rrdExpandVars (by decide)] at hread
      have horderly := (scanChar_under rrdExpandVars h [] [] c t).2
      obtain ⟨s', hs', hloop, hrest⟩ := ih horderly hread
      refine ⟨s', hs', ?_, fun rest => ?_⟩
      · rw [scanLoop_cons rrdExpandVars hc hstop, hloop]
      · rw [List.cons_append, scanLoop_cons rrdExpandVars hc hstop,
          scanChar_lookahead rrdExpandVars (by decide), hrest]

/-- **Behind a blank an argument is complete**, and the scanner is as at the beginning. -/
theorem scanChar_blank (h : Orderly s) (hquote : (scanChar rrdExpandVars ' ' [] s).quote = none)
    (htag : (scanChar rrdExpandVars ' ' [] s).tagcount = 0) :
    ∃ w, scanChar rrdExpandVars ' ' [] s = Scan.empty.under w (s.expandLast rrdExpandVars) := by
  have hplain : plainChar ' ' = ' ' := rfl
  rw [scanChar] at hquote htag ⊢
  dsimp only at hquote htag ⊢
  rw [if_pos hplain] at hquote htag ⊢
  split_ifs at hquote htag ⊢ with hopen hin
  · exact absurd hopen (by rw [not_or, not_not, not_not]; exact ⟨hquote, htag⟩)
  · refine ⟨s.put ++ [nul], ?_⟩
    rw [hquote, htag, Scan.under, Scan.empty, List.append_nil]
    rfl
  · rw [Bool.not_eq_true] at hin
    refine ⟨s.put, ?_⟩
    have hargs : s.expandLast rrdExpandVars = s.args := by
      rw [Scan.expandLast, h.plain hin]
      cases s.args <;> rfl
    have hdirectives := h.plain hin
    rw [hargs, Scan.under, Scan.empty, List.append_nil]
    obtain ⟨put, args, quote, inArg, tagcount, directives⟩ := s
    obtain rfl : quote = none := hquote
    obtain rfl : tagcount = 0 := htag
    obtain rfl : inArg = false := hin
    obtain rfl : directives = false := hdirectives
    rfl

/-! ## The scanner on a quoted text -/

/-- In an argument, with a quotation mark open or not. -/
def Scan.within (quote : Option Char) (w arg : Text) : Scan := ⟨w, [arg], quote, true, 0, false⟩

/-- A character that is no tag, in an argument. -/
theorem scanLoop_within {quote : Option Char} {c : Char} (hc : c ≠ nul) (hgt : c ≠ '>') (w arg rest : Text) :
    scanLoop rrdExpandVars (c :: rest) (.within quote w arg)
      = scanLoop rrdExpandVars rest (scanChar rrdExpandVars c rest (.within quote w arg)) :=
  scanLoop_cons rrdExpandVars hc (fun h => hgt h.1) rest

/-- Between double quotation marks everything else stands for itself. -/
theorem scanChar_within {c : Char} (hlt : c ≠ '<') (hgt : c ≠ '>') (hquote : c ≠ dquote) (w arg rest : Text) :
    scanChar rrdExpandVars c rest (.within (some dquote) w arg)
      = .within (some dquote) (w ++ [plainChar c]) (arg ++ [plainChar c]) := by
  have hplain {d : Char} (hd : c ≠ d) (hspace : ' ' ≠ d) : plainChar c ≠ d := by
    unfold plainChar
    split_ifs
    · exact hspace
    · exact hd
  have hopen : (Scan.within (some dquote) w arg).quote ≠ none ∨ (Scan.within (some dquote) w arg).tagcount ≠ 0 :=
    .inl (Option.some_ne_none dquote)
  rw [scanChar]
  dsimp only
  by_cases hblank : plainChar c = ' '
  · rw [if_pos hblank, if_pos hopen]
    rfl
  · rw [if_neg hblank]
    by_cases hmark : isQuote (plainChar c) = true
    · rw [if_pos hmark]
      dsimp only [Scan.within]
      rw [if_neg (hplain hquote (by decide)).symm]
      rfl
    · rw [if_neg hmark, if_neg (hplain hgt (by decide)), if_neg (hplain hlt (by decide))]
      rfl

/-- What stands for a character is read as the character. -/
theorem scanLoop_quoteChar {c : Char} (hnul : c ≠ nul) (hlt : c ≠ '<') (hgt : c ≠ '>') (w arg rest : Text) :
    scanLoop rrdExpandVars (quoteChar c ++ rest) (.within (some dquote) w arg)
      = scanLoop rrdExpandVars rest (.within (some dquote) (w ++ [plainChar c]) (arg ++ [plainChar c])) := by
  have hd : dquote ≠ nul ∧ dquote ≠ '>' := by decide
  have hs : squote ≠ nul ∧ squote ≠ '>' := by decide
  rw [quoteChar]
  split_ifs with hc
  · subst hc
    -- the quotes end, and the mark stands between single ones
    simp only [List.cons_append, List.nil_append]
    rw [scanLoop_within rrdExpandVars hd.1 hd.2]
    change scanLoop rrdExpandVars _ (.within none w arg) = _
    rw [scanLoop_within rrdExpandVars hs.1 hs.2]
    change scanLoop rrdExpandVars _ (.within (some squote) w arg) = _
    rw [scanLoop_within rrdExpandVars hd.1 hd.2]
    change scanLoop rrdExpandVars _ (.within (some squote) (w ++ [dquote]) (arg ++ [dquote])) = _
    rw [scanLoop_within rrdExpandVars hs.1 hs.2]
    change scanLoop rrdExpandVars _ (.within none (w ++ [dquote]) (arg ++ [dquote])) = _
    rw [scanLoop_within rrdExpandVars hd.1 hd.2]
    rfl
  · rw [List.singleton_append, scanLoop_within rrdExpandVars hnul hgt, scanChar_within rrdExpandVars hlt hgt hc]

theorem scanLoop_quoteBody {v : Text} (hv : ∀ c ∈ v, c ≠ nul ∧ c ≠ '<' ∧ c ≠ '>') (w arg rest : Text) :
    scanLoop rrdExpandVars (quoteBody v ++ rest) (.within (some dquote) w arg)
      = scanLoop rrdExpandVars rest (.within (some dquote) (w ++ v.map plainChar) (arg ++ v.map plainChar)) := by
  induction v generalizing w arg with
  | nil => rw [List.map_nil, List.append_nil, List.append_nil, quoteBody, List.flatMap_nil, List.nil_append]
  | cons c v ih =>
    obtain ⟨hnul, hlt, hgt⟩ := hv c List.mem_cons_self
    rw [quoteBody, List.flatMap_cons, List.append_assoc, scanLoop_quoteChar rrdExpandVars hnul hlt hgt, ← quoteBody,
      ih fun d hd => hv d (List.mem_cons_of_mem c hd), List.map_cons, List.append_assoc, List.append_assoc,
      List.singleton_append]

/-- **A quoted text is one argument.** -/
theorem scanLoop_quote {v : Text} (hv : ∀ c ∈ v, c ≠ nul ∧ c ≠ '<' ∧ c ≠ '>') (rest : Text) :
    ∃ w, scanLoop rrdExpandVars (dquote :: quoteBody v ++ [dquote] ++ ' ' :: rest) .empty
      = scanLoop rrdExpandVars rest (Scan.empty.under w [v.map plainChar]) := by
  have hd : dquote ≠ nul ∧ dquote ≠ '>' := by decide
  refine ⟨v.map plainChar ++ [nul], ?_⟩
  rw [List.append_assoc, List.cons_append, scanLoop_cons rrdExpandVars hd.1 fun h => hd.2 h.1]
  change scanLoop rrdExpandVars _ (.within (some dquote) [] []) = _
  rw [scanLoop_quoteBody rrdExpandVars hv, List.nil_append, List.singleton_append,
    scanLoop_within rrdExpandVars hd.1 hd.2]
  change scanLoop rrdExpandVars _ (.within none (v.map plainChar) (v.map plainChar)) = _
  rw [scanLoop_within rrdExpandVars (by decide) (by decide), Scan.under, Scan.empty, List.append_nil]
  rfl

/-! ## A directive with a quoted value -/

/-- The value, as an argument: brackets are replaced, and control characters. -/
def plainValue (value : Text) : Text := (rrdstrip value).map plainChar

/-- **Behind whole arguments** the scanner finds what it finds at the beginning. -/
theorem scanLoop_complete {before : Text} (h : Complete rrdExpandVars before) :
    ∃ w, ∀ rest, scanLoop rrdExpandVars (before ++ ' ' :: rest) .empty
      = scanLoop rrdExpandVars rest (Scan.empty.under w (scanargs rrdExpandVars before).args.reverse) := by
  obtain ⟨hread, hquote, htag⟩ := h
  obtain ⟨s, hs, hloop, hrest⟩ := scanLoop_through rrdExpandVars Scan.orderly_empty hread
  rw [hrest, scanLoop] at hquote htag
  obtain ⟨w, hblank⟩ := scanChar_blank rrdExpandVars hs hquote htag
  refine ⟨w, fun rest => ?_⟩
  rw [hrest, hblank, (scanargs_eq rrdExpandVars before).1, hloop, List.reverse_reverse]

end Rrdtool.Cgi
