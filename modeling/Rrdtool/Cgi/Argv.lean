import Rrdtool.Cgi.Quote
import Rrdtool.Lib.Inplace

/-!
# The array of arguments

`scanargs` works in the line: what belongs to an argument is written behind a cursor, and the entries of `argv` point to
where the arguments begin. The array is made twice as long when it is full. `drawgraph` is handed the array without its
first entry and appends two entries to it.

* `scanArgv`, `drawgraph` — the code, with the line and the array;
* `Holds`, `scanArgv_eq` — the arguments are those of `scanargs`;
* `Fits` — the stores are inside of the array;
* `graphDirective_inside_iff` — when those of `drawgraph` are.
-/

namespace Rrdtool.Cgi

open CStr
open Daemon (nul cstr cstr_append)

/-! ## The code -/

/-- An entry of `argv`. -/
inductive Entry : Type where
  /-- a pointer into the line -/
  | inLine (p : ℕ)
  /-- a text of its own -/
  | text (t : Text)

/-- What `scanargs` works on. -/
structure ArgBuf : Type where
  /-- the line, with its terminator -/
  cells : Text
  /-- `putP` -/
  putP : ℕ
  /-- the entries of `argv` that are in use -/
  argv : List Entry
  /-- `argsz` -/
  argsz : ℕ
  /-- the stores into `argv`: the place, and how many entries were allocated -/
  stores : List (ℕ × ℕ)
  /-- `Quote` -/
  quote : Option Char
  /-- `in_arg` -/
  inArg : Bool
  /-- `tagcount` -/
  tagcount : ℕ
  /-- `curarg_contains_rrd_directives` -/
  directives : Bool

namespace ArgBuf

/-- `*putP++ = c` -/
def put (b : ArgBuf) (c : Char) : ArgBuf := { b with cells := b.cells.set b.putP c, putP := b.putP + 1 }

/-- `argv[argc++] = e` -/
def append (b : ArgBuf) (e : Entry) : ArgBuf :=
  { b with argv := b.argv ++ [e], stores := b.stores ++ [(b.argv.length, b.argsz)] }

/-- `if (!in_arg)`: a new argument -/
def begin (b : ArgBuf) : ArgBuf := if b.inArg then b else { b.append (.inLine b.putP) with inArg := true }

/-- The string an entry points to. -/
def deref (b : ArgBuf) : Entry → Text
  | .inLine p => cstr (b.cells.drop p)
  | .text t => t

/-- `if (curarg_contains_rrd_directives)`: the last entry is expanded -/
def expandLast (rrdExpandVars : Text → Text) (b : ArgBuf) : ArgBuf :=
  if b.directives then
    match b.argv.getLast? with
    | some e =>
      { b with
        argv := b.argv.dropLast ++ [.text (rrdExpandVars (b.deref e))]
        stores := b.stores ++ [(b.argv.length - 1, b.argsz)] }
    | none => b
  else b

/-- `if (argc == argsz)` -/
def resize (b : ArgBuf) : ArgBuf := if b.argv.length = b.argsz then { b with argsz := b.argsz * 2 } else b

/-- `switch (c)`; the cursor stands behind the character. -/
def switch (rrdExpandVars : Text → Text) (b : ArgBuf) (getP : ℕ) (c : Char) : ArgBuf :=
  if c = ' ' then
    if b.quote ≠ none ∨ b.tagcount ≠ 0 then b.put c
    else if b.inArg then { { b.put nul with inArg := false }.expandLast rrdExpandVars with directives := false }
    else b
  else if isQuote c then
    match b.quote with
    | some q => if q = c then { b with quote := none } else b.put c
    | none => { b.begin with quote := some c }
  else
    let b := b.begin
    let b := if c = '>' then { b with tagcount := b.tagcount - 1 } else b
    let b :=
      if c = '<' then
        { b with
          tagcount := b.tagcount + 1
          directives := b.directives || "RRD::".toList.isPrefixOf (b.cells.drop getP) }
      else b
    b.put c

/-- `while (*getP)`, when so many cells are left; `none` when there is no terminator. -/
def loop (rrdExpandVars : Text → Text) : ℕ → ℕ → ArgBuf → Option (ℕ × ArgBuf)
  | 0, _, _ => none
  | n + 1, getP, b =>
    match b.cells[getP]? with
    | none => none
    | some c =>
      if c = nul then some (getP, b)
      else if c = '>' ∧ b.quote = none ∧ b.tagcount = 0 then some (getP + 1, b)
      else loop rrdExpandVars n (getP + 1) (b.switch rrdExpandVars (getP + 1) (plainChar c)).resize

/-- `arguments`, as strings -/
def args (b : ArgBuf) : List Text := b.argv.tail.map b.deref

end ArgBuf

variable (rrdExpandVars : Text → Text)

/-- `scanargs`: where it stops reading, and what it leaves. -/
def scanArgv (line : Text) : Option (ℕ × ArgBuf) :=
  let cells := line ++ [nul]
  let blanks := (line.takeWhile isspace).length
  let b : ArgBuf := ⟨cells, blanks, [.text "rrdcgi".toList], 32, [(0, 32)], none, false, 0, false⟩
  (b.loop rrdExpandVars cells.length blanks).map fun r =>
    (r.1, { r.2 with cells := r.2.cells.set r.2.putP nul }.expandLast rrdExpandVars)

/-- `strcmp(args[i], "--imginfo") == 0 || strcmp(args[i], "-g") == 0` -/
def isImginfo (arg : Text) : Bool := arg = "--imginfo".toList || arg = "-g".toList

/-- `drawgraph`, before it calls `rrd_graph`; it knows the array without its first entry. -/
def drawgraph (b : ArgBuf) : ArgBuf :=
  if b.args.any isImginfo then b
  else (b.append (.text "--imginfo".toList)).append
    (.text "<IMG SRC=\"./%s\" WIDTH=\"%lu\" HEIGHT=\"%lu\">".toList)

/-- `parse` on a `RRD::GRAPH`: without quotes that are open, the graph is drawn. -/
def graphDirective (line : Text) : Option ArgBuf :=
  (scanArgv rrdExpandVars line).map fun r => if r.2.quote = none then drawgraph r.2 else r.2

/-! ## The array -/

/-- **The stores into the array are inside**, and the array is not longer than it had to be. -/
structure Fits (b : ArgBuf) : Prop where
  inside : ∀ w ∈ b.stores, w.1 < w.2
  pos : b.argv ≠ []
  le : b.argv.length ≤ b.argsz
  doubled : ∃ k, b.argsz = 32 * 2 ^ k ∧ (k = 0 ∨ 16 * 2 ^ k ≤ b.argv.length)

variable {b b' : ArgBuf}

theorem Fits.congr (h : Fits b) (hargv : b'.argv = b.argv) (hargsz : b'.argsz = b.argsz) (hstores : b'.stores = b.stores) :
    Fits b' where
  inside := hstores ▸ h.inside
  pos := hargv ▸ h.pos
  le := by rw [hargv, hargsz]; exact h.le
  doubled := by rw [hargv, hargsz]; exact h.doubled

/-- There is room for one more entry. -/
theorem Fits.append (h : Fits b) (hlt : b.argv.length < b.argsz) (e : Entry) : Fits (b.append e) where
  inside := by
    intro w hw
    rcases List.mem_append.mp hw with hw | hw
    · exact h.inside w hw
    · rw [List.mem_singleton.mp hw]
      exact hlt
  pos := by simp [ArgBuf.append]
  le := by
    rw [ArgBuf.append, List.length_append, List.length_singleton]
    exact hlt
  doubled := by
    obtain ⟨k, hk, hhalf⟩ := h.doubled
    refine ⟨k, hk, hhalf.imp id fun hle => hle.trans ?_⟩
    rw [ArgBuf.append, List.length_append]
    exact Nat.le_add_right _ _

theorem Fits.begin (h : Fits b) (hlt : b.argv.length < b.argsz) : Fits b.begin := by
  rw [ArgBuf.begin]
  split_ifs
  · exact h
  · exact (h.append hlt (.inLine b.putP)).congr rfl rfl rfl

/-- Only the last entry changes. -/
theorem expandLast_frame (b : ArgBuf) :
    (b.expandLast rrdExpandVars).cells = b.cells ∧ (b.expandLast rrdExpandVars).putP = b.putP
      ∧ (b.expandLast rrdExpandVars).quote = b.quote ∧ (b.expandLast rrdExpandVars).inArg = b.inArg
      ∧ (b.expandLast rrdExpandVars).tagcount = b.tagcount ∧ (b.expandLast rrdExpandVars).argsz = b.argsz
      ∧ (b.expandLast rrdExpandVars).argv.length = b.argv.length := by
  rw [ArgBuf.expandLast]
  split_ifs
  · rcases hlast : b.argv.getLast? with _ | e
    · exact ⟨rfl, rfl, rfl, rfl, rfl, rfl, rfl⟩
    · refine ⟨rfl, rfl, rfl, rfl, rfl, rfl, ?_⟩
      have hpos : 0 < b.argv.length := List.length_pos_iff.mpr fun h => by
        rw [h] at hlast
        cases hlast
      rw [List.length_append, List.length_dropLast, List.length_singleton]
      omega
  · exact ⟨rfl, rfl, rfl, rfl, rfl, rfl, rfl⟩

/-- The last entry is there. -/
theorem Fits.expandLast (h : Fits b) : Fits (b.expandLast rrdExpandVars) := by
  obtain ⟨-, -, -, -, -, hargsz, hlength⟩ := expandLast_frame rrdExpandVars b
  have hpos : 0 < b.argv.length := List.length_pos_iff.mpr h.pos
  refine ⟨?_, ?_, ?_, ?_⟩
  · rw [ArgBuf.expandLast]
    split_ifs
    · rcases hlast : b.argv.getLast? with _ | e
      · exact h.inside
      · intro w hw
        rcases List.mem_append.mp hw with hw | hw
        · exact h.inside w hw
        · rw [List.mem_singleton.mp hw]
          exact Nat.lt_of_lt_of_le (Nat.sub_lt hpos Nat.one_pos) h.le
    · exact h.inside
  · rw [← hlength] at hpos
    exact List.length_pos_iff.mp hpos
  · rw [hlength, hargsz]
    exact h.le
  · rw [hlength, hargsz]
    exact h.doubled

/-- **The array is made longer** when it is full. -/
theorem Fits.resize (h : Fits b) : Fits b.resize ∧ b.resize.argv.length < b.resize.argsz := by
  rw [ArgBuf.resize]
  split_ifs with hfull
  · obtain ⟨k, hk, -⟩ := h.doubled
    have hpos : 0 < 2 ^ k := Nat.two_pow_pos k
    refine ⟨⟨h.inside, h.pos, ?_, k + 1, ?_, .inr ?_⟩, ?_⟩
    · dsimp only
      omega
    · dsimp only
      rw [hk, pow_succ, Nat.mul_assoc]
    · dsimp only
      rw [hfull, hk, pow_succ]
      omega
    · dsimp only
      omega
  · exact ⟨h, lt_of_le_of_ne h.le hfull⟩

theorem Fits.switch (h : Fits b) (hlt : b.argv.length < b.argsz) (getP : ℕ) (c : Char) :
    Fits (b.switch rrdExpandVars getP c) := by
  have hput (b : ArgBuf) (h : Fits b) (c : Char) : Fits (b.put c) := h.congr rfl rfl rfl
  rw [ArgBuf.switch]
  split_ifs
  · exact hput b h c
  · refine Fits.congr (Fits.expandLast rrdExpandVars (b := { b.put nul with inArg := false }) ?_) rfl rfl rfl
    exact h.congr rfl rfl rfl
  · exact h
  · rcases b.quote with _ | q
    · exact (h.begin hlt).congr rfl rfl rfl
    · dsimp only
      split_ifs
      · exact h.congr rfl rfl rfl
      · exact hput b h c
  -- the tags are counted in the argument that has begun
  · exact (h.begin hlt).congr rfl rfl rfl
  · exact (h.begin hlt).congr rfl rfl rfl
  · exact (h.begin hlt).congr rfl rfl rfl
  · exact (h.begin hlt).congr rfl rfl rfl

/-- **Every store of the loop is inside**, and there is room for one entry more. -/
theorem Fits.loop (h : Fits b) (hlt : b.argv.length < b.argsz) {n getP : ℕ} {r : ℕ × ArgBuf}
    (hr : b.loop rrdExpandVars n getP = some r) : Fits r.2 ∧ r.2.argv.length < r.2.argsz := by
  induction n generalizing b getP with
  | zero => cases hr
  | succ n ih =>
    rw [ArgBuf.loop] at hr
    rcases hcell : b.cells[getP]? with _ | c
    · rw [hcell] at hr
      cases hr
    · rw [hcell] at hr
      dsimp only at hr
      split_ifs at hr
      · cases hr
        exact ⟨h, hlt⟩
      · cases hr
        exact ⟨h, hlt⟩
      · obtain ⟨hfits, hroom⟩ := (h.switch rrdExpandVars hlt (getP + 1) (plainChar c)).resize
        exact ih hfits hroom hr

/-! ## The line -/

/-- The string an entry points to, when `out` has been written. -/
def Denotes (out : Text) : Entry → Text → Prop
  | .inLine p, a => nul ∉ a ∧ ∃ r, out.drop p = a ++ nul :: r
  | .text t, a => t = a

/-- **The entries and their strings**; the last one is still being written, in an argument. -/
inductive ArgvHolds (out : Text) : Bool → List Entry → List Text → Prop
  | between {es : List Entry} {as : List Text} (h : List.Forall₂ (Denotes out) es as) : ArgvHolds out false es as
  | within {es : List Entry} {as : List Text} {p : ℕ} {a : Text} (h : List.Forall₂ (Denotes out) es as)
      (hle : p ≤ out.length) (ha : out.drop p = a) (hnul : nul ∉ a) :
      ArgvHolds out true (es ++ [.inLine p]) (as ++ [a])

theorem Denotes.append {out : Text} {e : Entry} {a : Text} (h : Denotes out e a) (x : Text) : Denotes (out ++ x) e a := by
  cases e with
  | inLine p =>
    obtain ⟨hnul, r, hr⟩ := h
    have hle : p ≤ out.length := by
      by_contra hlt
      rw [List.drop_eq_nil_of_le (Nat.le_of_not_le hlt)] at hr
      simp at hr
    refine ⟨hnul, r ++ x, ?_⟩
    rw [List.drop_append_of_le_length hle, hr, List.append_assoc, List.cons_append]
  | text t => exact h

/-- Nothing is lost when more is written. -/
theorem denotes_append {out : Text} {es : List Entry} {as : List Text} (h : List.Forall₂ (Denotes out) es as) (x : Text) :
    List.Forall₂ (Denotes (out ++ x)) es as := h.imp fun _ _ he => he.append x

/-- The string is found where the entry points to. -/
theorem Denotes.deref {out : Text} {e : Entry} {a : Text} (h : Denotes out e a) {n : ℕ} (hcells : b.cells.take n = out) :
    b.deref e = a := by
  cases e with
  | inLine p =>
    obtain ⟨hnul, r, hr⟩ := (hcells ▸ h).append (b.cells.drop n)
    rw [List.take_append_drop] at hr
    rw [ArgBuf.deref, hr, cstr_append hnul]
  | text t => exact h

/-- The argument that is being written. -/
theorem ArgvHolds.current {out : Text} {es : List Entry} {as : List Text} (h : ArgvHolds out true es as) :
    ∃ es' p as' a, es = es' ++ [.inLine p] ∧ as = as' ++ [a] ∧ List.Forall₂ (Denotes out) es' as' ∧ p ≤ out.length ∧
      out.drop p = a ∧ nul ∉ a := by
  cases h with
  | within h hle ha hnul => exact ⟨_, _, _, _, rfl, rfl, h, hle, ha, hnul⟩

theorem ArgvHolds.begin {out : Text} {es : List Entry} {as : List Text} (h : ArgvHolds out false es as) :
    ArgvHolds out true (es ++ [.inLine out.length]) (as ++ [[]]) := by
  cases h with
  | between h => exact .within h le_rfl List.drop_length List.not_mem_nil

/-- A terminator ends the argument. -/
theorem ArgvHolds.finish {out : Text} {inArg : Bool} {es : List Entry} {as : List Text} (h : ArgvHolds out inArg es as) :
    List.Forall₂ (Denotes (out ++ [nul])) es as := by
  cases h with
  | between h => exact denotes_append h [nul]
  | within h hle ha hnul =>
    refine List.rel_append (denotes_append h [nul]) (.cons ⟨hnul, [], ?_⟩ .nil)
    rw [List.drop_append_of_le_length hle, ha]

/-- A character is written into the argument. -/
theorem ArgvHolds.store {out : Text} {es : List Entry} {s : Scan} (h : ArgvHolds out true es s.args.reverse) {c : Char}
    (hc : c ≠ nul) : ArgvHolds (out ++ [c]) true es (s.store c).args.reverse := by
  obtain ⟨es', p, as, a, rfl, has, hes, hle, ha, hnul⟩ := h.current
  have hargs : s.args = a :: as.reverse := by
    rw [← List.reverse_reverse s.args, has, List.reverse_append]
    rfl
  rw [Scan.store, hargs]
  dsimp only
  rw [List.reverse_cons, List.reverse_reverse]
  refine .within (denotes_append hes [c]) ?_ ?_ ?_
  · rw [List.length_append]
    exact Nat.le_add_right_of_le hle
  · rw [List.drop_append_of_le_length hle, ha]
  · rw [List.mem_append, List.mem_singleton, not_or]
    exact ⟨hnul, hc.symm⟩

/-- **The line and the array while the line is read**: behind `front` stands what `scanargs` has written. -/
structure Holds (front : Text) (b : ArgBuf) (getP : ℕ) (rest : Text) (s : Scan) : Prop where
  line : Inplace b.cells b.putP getP (front ++ s.put) rest
  argv : ∃ es, b.argv = .text "rrdcgi".toList :: es ∧ ArgvHolds (front ++ s.put) s.inArg es s.args.reverse
  quote : b.quote = s.quote
  inArg : b.inArg = s.inArg
  tagcount : b.tagcount = s.tagcount
  directives : b.directives = s.directives

variable {front rest : Text} {getP : ℕ} {c : Char} {s : Scan}

theorem Holds.skip (h : Holds front b getP (c :: rest) s) : Holds front b (getP + 1) rest s :=
  ⟨h.line.skip, h.argv, h.quote, h.inArg, h.tagcount, h.directives⟩

theorem Holds.begin (h : Holds front b getP rest s) : Holds front b.begin getP rest s.begin := by
  rw [ArgBuf.begin, h.inArg, Scan.begin]
  split_ifs with hin
  · exact h
  · obtain ⟨es, hes, hargv⟩ := h.argv
    rw [Bool.eq_false_iff.mpr hin] at hargv
    refine ⟨h.line, ⟨es ++ [.inLine b.putP], ?_, ?_⟩, h.quote, rfl, h.tagcount, h.directives⟩
    · rw [ArgBuf.append, hes]
      rfl
    · rw [List.reverse_cons, h.line.putP]
      exact hargv.begin

theorem Holds.store (h : Holds front b getP (c :: rest) s) (hin : s.inArg = true) {x : Char} (hx : x ≠ nul) :
    Holds front (b.put x) (getP + 1) rest (s.store x) := by
  obtain ⟨es, hes, hargv⟩ := h.argv
  rw [hin] at hargv
  have hline := h.line.put x
  rw [List.append_assoc] at hline
  refine ⟨hline, ⟨es, hes, ?_⟩, h.quote, h.inArg, h.tagcount, h.directives⟩
  have hstore := hargv.store hx
  rw [List.append_assoc] at hstore
  rw [Scan.store]
  dsimp only
  rw [hin]
  exact hstore

/-- The last pair. -/
theorem forall₂_concat {α β : Type} {R : α → β → Prop} {es : List α} {as : List β} {a : β}
    (h : List.Forall₂ R es (as ++ [a])) : ∃ es' e, es = es' ++ [e] ∧ List.Forall₂ R es' as ∧ R e a := by
  rw [← List.forall₂_reverse_iff, List.reverse_append] at h
  rcases hes : es.reverse with _ | ⟨e, es'⟩
  · rw [hes] at h
    cases h
  · rw [hes] at h
    obtain ⟨hlast, hothers⟩ := List.forall₂_cons.mp h
    refine ⟨es'.reverse, e, ?_, ?_, hlast⟩
    · rw [← List.reverse_reverse es, hes, List.reverse_cons]
    · rw [← List.reverse_reverse as]
      exact List.rel_reverse hothers

/-- **The last argument is expanded**, as its string is. -/
theorem expandLast_argv {es : List Entry} {out : Text} (hes : b.argv = .text "rrdcgi".toList :: es)
    (h : List.Forall₂ (Denotes out) es s.args.reverse) {n : ℕ} (hcells : b.cells.take n = out)
    (hdirectives : b.directives = s.directives) (hargs : s.directives = true → s.args ≠ []) :
    ∃ es', (b.expandLast rrdExpandVars).argv = .text "rrdcgi".toList :: es' ∧
      List.Forall₂ (Denotes out) es' (s.expandLast rrdExpandVars).reverse := by
  rw [ArgBuf.expandLast, hdirectives, Scan.expandLast]
  rcases has : s.args with _ | ⟨a, as⟩
  · rw [if_neg fun hd => hargs hd has]
    rw [has] at h
    exact ⟨es, hes, h⟩
  · rw [has, List.reverse_cons] at h
    obtain ⟨es', e, rfl, hes', he⟩ := forall₂_concat h
    rw [hes, ← List.cons_append]
    split_ifs
    · rw [List.getLast?_concat]
      dsimp only
      rw [List.dropLast_concat, he.deref hcells]
      refine ⟨es' ++ [.text (rrdExpandVars a)], rfl, ?_⟩
      rw [List.reverse_cons]
      exact List.rel_append hes' (.cons rfl .nil)
    · refine ⟨es' ++ [e], hes, ?_⟩
      rw [List.reverse_cons]
      exact List.rel_append hes' (.cons he .nil)

/-- The argument ends, in the line and in the array. -/
theorem Holds.finish (h : Holds front b getP (c :: rest) s) (horderly : s.Orderly) (hin : s.inArg = true) :
    Holds front { { b.put nul with inArg := false }.expandLast rrdExpandVars with directives := false } (getP + 1) rest
      { s with
        put := s.put ++ [nul], args := s.expandLast rrdExpandVars, inArg := false, directives := false } := by
  obtain ⟨es, hes, hargv⟩ := h.argv
  rw [hin] at hargv
  have hline := h.line.put nul
  have hfinish := hargv.finish
  rw [List.append_assoc] at hline hfinish
  obtain ⟨es', hes', hexpanded⟩ := expandLast_argv rrdExpandVars (b := { b.put nul with inArg := false }) hes hfinish
    hline.written h.directives fun _ => horderly.args hin
  obtain ⟨hcells, hputP, hquote, hinArg, htagcount, -⟩ :=
    expandLast_frame rrdExpandVars { b.put nul with inArg := false }
  refine ⟨?_, ⟨es', hes', .between hexpanded⟩, hquote.trans h.quote, hinArg, htagcount.trans h.tagcount, rfl⟩
  dsimp only
  rw [hcells, hputP]
  exact hline

/-- **One character**, in the line. -/
theorem Holds.switch (h : Holds front b getP (c :: rest) s) (horderly : s.Orderly) :
    Holds front (b.switch rrdExpandVars (getP + 1) (plainChar c)) (getP + 1) rest (scanChar rrdExpandVars c rest s) := by
  rw [ArgBuf.switch, scanChar, h.quote, h.tagcount, h.inArg]
  dsimp only
  by_cases hblank : plainChar c = ' '
  · rw [if_pos hblank, if_pos hblank]
    split_ifs with hopen hin
    · exact h.store (hopen.elim horderly.quote horderly.tagged) plainChar_ne_nul
    · exact h.finish rrdExpandVars horderly hin
    · exact h.skip
  · rw [if_neg hblank, if_neg hblank]
    by_cases hmark : isQuote (plainChar c) = true
    · rw [if_pos hmark, if_pos hmark]
      rcases hquote : s.quote with _ | q
      · have hnext := h.begin.skip
        exact ⟨hnext.line, hnext.argv, rfl, hnext.inArg, hnext.tagcount, hnext.directives⟩
      · dsimp only
        split_ifs
        · exact ⟨h.line.skip, h.argv, rfl, rfl, rfl, h.directives⟩
        · exact h.store (horderly.quote (by rw [hquote]; exact Option.some_ne_none q)) plainChar_ne_nul
    · rw [if_neg hmark, if_neg hmark]
      have hbegun := h.begin
      have hin : s.begin.inArg = true := begin_inArg
      generalize b.begin = b' at hbegun
      generalize s.begin = s' at hbegun hin
      by_cases hgt : plainChar c = '>'
      · have hlt : ¬ plainChar c = '<' := by
          rw [hgt]
          decide
        rw [if_pos hgt, if_pos hgt, if_neg hlt, if_neg hlt]
        have htag : Holds front { b' with tagcount := b'.tagcount - 1 } getP (c :: rest)
            { s' with tagcount := s'.tagcount - 1 } :=
          ⟨hbegun.line, hbegun.argv, hbegun.quote, hbegun.inArg, congrArg (· - 1) hbegun.tagcount, hbegun.directives⟩
        exact htag.store hin plainChar_ne_nul
      · rw [if_neg hgt, if_neg hgt]
        split_ifs
        · have htag : Holds front
              { b' with
                tagcount := b'.tagcount + 1
                directives := b'.directives || "RRD::".toList.isPrefixOf (b'.cells.drop (getP + 1)) }
              getP (c :: rest)
              { s' with
                tagcount := s'.tagcount + 1
                directives := s'.directives || "RRD::".toList.isPrefixOf rest } := by
            refine ⟨hbegun.line, hbegun.argv, hbegun.quote, hbegun.inArg, congrArg (· + 1) hbegun.tagcount, ?_⟩
            dsimp only
            rw [hbegun.directives, hbegun.line.skip.unread]
          exact htag.store hin plainChar_ne_nul
        · exact hbegun.store hin plainChar_ne_nul

theorem Holds.resize (h : Holds front b getP rest s) : Holds front b.resize getP rest s := by
  rw [ArgBuf.resize]
  split_ifs
  · exact ⟨h.line, h.argv, h.quote, h.inArg, h.tagcount, h.directives⟩
  · exact h

/-- **The whole line**: the loop ends, with the writer in front of a cell that has been read. -/
theorem Holds.loop {t r : Text} (hnul : nul ∉ t) (h : Holds front b getP (t ++ nul :: r) s) (horderly : s.Orderly) {n : ℕ}
    (hn : t.length < n) :
    ∃ b' x rest' getP',
      b.loop rrdExpandVars n getP = some (getP + (t.length - (scanLoop rrdExpandVars t s).1.length), b') ∧
        Holds front b' getP' (x :: rest') (scanLoop rrdExpandVars t s).2 := by
  obtain ⟨n, rfl⟩ := Nat.exists_eq_add_one_of_ne_zero (Nat.ne_zero_of_lt hn)
  induction t generalizing b getP s n with
  | nil =>
    refine ⟨b, nul, r, getP, ?_, h⟩
    rw [ArgBuf.loop, h.line.cell]
    rfl
  | cons c t ih =>
    rw [List.mem_cons, not_or] at hnul
    have hc : c ≠ nul := Ne.symm hnul.1
    rw [List.cons_append] at h
    rw [ArgBuf.loop, h.line.cell, scanLoop]
    dsimp only
    rw [h.quote, h.tagcount, if_neg hc, if_neg hc]
    split_ifs with hstop
    · refine ⟨b, c, t ++ nul :: r, getP, ?_, h⟩
      rw [List.length_cons, Nat.add_sub_cancel_left]
    · obtain ⟨n, rfl⟩ := Nat.exists_eq_add_one_of_ne_zero (Nat.ne_zero_of_lt (Nat.lt_of_succ_lt_succ hn))
      have hnext := (h.switch rrdExpandVars horderly).resize
      rw [scanChar_lookahead rrdExpandVars (x := nul) (by decide)] at hnext
      have horderly' := (scanChar_under rrdExpandVars horderly [] [] c t).2
      obtain ⟨b', x, rest', getP', hloop, hholds⟩ := ih hnul.2 hnext horderly' n (Nat.lt_of_succ_lt_succ hn)
      refine ⟨b', x, rest', getP', ?_, hholds⟩
      have hle := length_scanLoop rrdExpandVars t (scanChar rrdExpandVars c t s)
      rw [hloop, List.length_cons]
      congr 2
      omega

/-! ## The arguments and the stores -/

/-- **The line and the array hold what `scanargs` finds**: the arguments, and where the directive ends. All stores are
inside of the array, which has room for one entry more and is not longer than it had to be. -/
theorem scanArgv_eq {line : Text} (hnul : nul ∉ line) :
    ∃ getP b, scanArgv rrdExpandVars line = some (getP, b) ∧ b.args = (scanargs rrdExpandVars line).args
      ∧ (if b.quote = none then some getP else none) = (scanargs rrdExpandVars line).stop
      ∧ b.argv.length = b.args.length + 1 ∧ Fits b ∧ b.argv.length < b.argsz := by
  set front := line.takeWhile isspace with hfront
  set t := line.dropWhile isspace with ht
  have hline : line ++ [nul] = front ++ (t ++ nul :: []) := by
    rw [← List.append_assoc, hfront, ht, List.takeWhile_append_dropWhile]
  have hstart : Holds front ⟨line ++ [nul], front.length, [.text "rrdcgi".toList], 32, [(0, 32)], none, false, 0, false⟩
      front.length (t ++ nul :: []) .empty := by
    refine ⟨?_, ⟨[], rfl, .between .nil⟩, rfl, rfl, rfl, rfl⟩
    rw [hline, show Scan.empty.put = [] from rfl, List.append_nil]
    exact Inplace.start front _
  have hnul' : nul ∉ t := fun h => hnul ((List.dropWhile_suffix isspace).subset h)
  have hlength : t.length < (line ++ [nul]).length := by
    rw [hline, List.length_append, List.length_append, List.length_cons]
    omega
  obtain ⟨b, x, rest, getP, hloop, hholds⟩ := hstart.loop rrdExpandVars hnul' Scan.orderly_empty hlength
  have hfits : Fits ⟨line ++ [nul], front.length, [.text "rrdcgi".toList], 32, [(0, 32)], none, false, 0, false⟩ :=
    ⟨by simp, by simp, by simp, 0, rfl, .inl rfl⟩
  obtain ⟨hfits, hroom⟩ := hfits.loop rrdExpandVars (by simp) hloop
  have hscan : scanLoop rrdExpandVars t .empty = scanLoop rrdExpandVars line .empty := scanLoop_dropWhile rrdExpandVars line
  have hrest := length_scanLoop rrdExpandVars t .empty
  have horderly := (scanLoop_under rrdExpandVars Scan.orderly_empty [] [] t).2
  obtain ⟨hargs, hstop⟩ := scanargs_eq rrdExpandVars line
  rw [← hscan] at hargs hstop
  generalize scanLoop rrdExpandVars t .empty = found at hloop hholds hrest horderly hargs hstop
  obtain ⟨es, hes, hargv⟩ := hholds.argv
  obtain ⟨es', hes', hexpanded⟩ := expandLast_argv rrdExpandVars (b := { b with cells := b.cells.set b.putP nul }) hes
    hargv.finish (hholds.line.put nul).written hholds.directives fun hdirectives =>
      horderly.args (by
        by_contra hout
        rw [horderly.plain (Bool.eq_false_iff.mpr hout)] at hdirectives
        cases hdirectives)
  obtain ⟨hcells, -, hquote, -, -, hargsz, hlen⟩ :=
    expandLast_frame rrdExpandVars { b with cells := b.cells.set b.putP nul }
  have hfits' : Fits ({ b with cells := b.cells.set b.putP nul }.expandLast rrdExpandVars) :=
    Fits.expandLast rrdExpandVars (hfits.congr rfl rfl rfl)
  rw [scanArgv]
  dsimp only
  rw [← hfront, hloop]
  refine ⟨_, _, rfl, ?_, ?_, ?_, hfits', ?_⟩
  · have hwritten := (congrArg (List.take _) hcells).trans (hholds.line.put nul).written
    rw [ArgBuf.args, hes', hargs, List.tail_cons]
    have hderef := hexpanded.imp fun _ _ he => he.deref hwritten
    rw [← List.forall₂_map_left_iff, List.forall₂_eq_eq_eq] at hderef
    exact hderef
  · rw [hquote, hholds.quote, hstop]
    have hsplit : line.length = front.length + t.length := by
      rw [← List.length_append, hfront, ht, List.takeWhile_append_dropWhile]
    split_ifs
    · rw [hsplit, Nat.add_sub_assoc hrest]
    · rfl
  · rw [ArgBuf.args, List.length_map, hes', List.tail_cons, List.length_cons]
  · rw [hlen, hargsz]
    exact hroom

/-- The length of the array is told from the entries, when there is room for one more only. -/
theorem Fits.full_iff (h : Fits b) (hroom : b.argv.length < b.argsz) :
    (∃ k, b.argv.length + 1 = 32 * 2 ^ k) ↔ b.argv.length + 1 = b.argsz := by
  obtain ⟨k, hk, hhalf⟩ := h.doubled
  constructor
  · rintro ⟨j, hj⟩
    have hle : j ≤ k := by
      rw [← Nat.pow_le_pow_iff_right (a := 2) (by decide)]
      omega
    rcases Nat.eq_or_lt_of_le hle with rfl | hlt
    · rw [hj, hk]
    · -- the array would not have been made longer
      have hpow : 2 * 2 ^ j ≤ 2 ^ k := by
        rw [← Nat.pow_succ']
        exact Nat.pow_le_pow_right (by decide) hlt
      omega
  · intro hfull
    exact ⟨k, hfull.trans hk⟩

/-- **When the entries of `drawgraph` are inside.** The stores of `scanargs` are, for every directive. Those of
`drawgraph` are not, if it appends its two entries and their number with that of the arguments is a length that the array
grows to. -/
theorem graphDirective_inside_iff (line : Text) (hnul : nul ∉ line) :
    ∃ b, graphDirective rrdExpandVars line = some b ∧
      ((∀ w ∈ b.stores, w.1 < w.2) ↔
        ¬ ((scanargs rrdExpandVars line).stop ≠ none ∧ (scanargs rrdExpandVars line).args.any isImginfo = false ∧
          ∃ k, (scanargs rrdExpandVars line).args.length + 2 = 32 * 2 ^ k)) := by
  obtain ⟨getP, b, hscan, hargs, hstop, hlength, hfits, hroom⟩ := scanArgv_eq rrdExpandVars hnul
  rw [← hargs, ← hstop, graphDirective, hscan]
  refine ⟨_, rfl, ?_⟩
  dsimp only
  by_cases hquote : b.quote = none
  · rw [if_pos hquote, if_pos hquote, drawgraph]
    by_cases himginfo : b.args.any isImginfo = true
    · rw [if_pos himginfo]
      refine iff_of_true hfits.inside fun h => ?_
      rw [himginfo] at h
      cases h.2.1
    · rw [Bool.not_eq_true] at himginfo
      have hcount : b.args.length + 2 = b.argv.length + 1 := by rw [hlength]
      rw [himginfo, if_neg Bool.false_ne_true, hcount, hfits.full_iff hroom]
      have hstores : ∀ (e e' : Entry), ((b.append e).append e').stores
          = b.stores ++ [(b.argv.length, b.argsz), (b.argv.length + 1, b.argsz)] := by
        intro e e'
        simp [ArgBuf.append]
      rw [hstores]
      constructor
      · intro hinside hfull
        have hlast := hinside (b.argv.length + 1, b.argsz) (by simp)
        exact Nat.ne_of_lt hlast hfull.2.2
      · intro hnot w hw
        have hne : b.argv.length + 1 ≠ b.argsz := fun hfull => hnot ⟨Option.some_ne_none getP, rfl, hfull⟩
        simp only [List.mem_append, List.mem_cons, List.not_mem_nil, or_false] at hw
        rcases hw with hw | rfl | rfl
        · exact hfits.inside w hw
        · exact hroom
        · exact Nat.lt_of_le_of_ne hroom hne
  · rw [if_neg hquote, if_neg hquote]
    exact iff_of_true hfits.inside fun h => h.1 rfl

/-- A directive with so many arguments. -/
def manyArguments (n : ℕ) : Text := (List.replicate n " x".toList).flatten ++ [' ', '>']

/-- With three arguments there is room. -/
theorem graphDirective_three : ∃ b, graphDirective id (manyArguments 3) = some b ∧
    ((∀ w ∈ b.stores, w.1 < w.2) ↔
      ¬ ((scanargs id (manyArguments 3)).stop ≠ none ∧ (scanargs id (manyArguments 3)).args.any isImginfo = false ∧
        ∃ k, (scanargs id (manyArguments 3)).args.length + 2 = 32 * 2 ^ k)) :=
  graphDirective_inside_iff id _ (by decide)

/-- With 30 arguments the second entry of `drawgraph` is behind the array. -/
theorem graphDirective_thirty :
    ¬ ∀ line : Text, nul ∉ line → ∃ b, graphDirective id line = some b ∧ ∀ w ∈ b.stores, w.1 < w.2 := by
  intro hall
  obtain ⟨b, hb, hinside⟩ := hall (manyArguments 30) (by decide)
  have hstores : (graphDirective id (manyArguments 30)).map (fun b => b.stores.getLast?) = some (some (32, 32)) := by
    decide
  rw [hb, Option.map_some, Option.some.injEq] at hstores
  exact absurd (hinside (32, 32) (List.mem_of_mem_getLast? hstores)) (by decide)

end Rrdtool.Cgi
