import Mathlib.Data.List.DropRight
import Rrdtool.Lib.Printf

/-!
# The formats of `PRINT` and `GPRINT`

`print_calc` turns the first `%S` of a format into `%s`, asks `bad_format`, and hands the format to `printf` with a
number and a string. `bad_format` counts the numbers; `%s` and `%S` do not count, and `%c` counts as one whatever was
before.

* `badFormat`, `rewriteS`, `printFormat` — the code;
* `printfArgs_eq` — what the directives of an accepted format take;
* `print_iff` — when the arguments are those that `print_calc` hands over.
-/

namespace Rrdtool

open CStr Printf

/-! ## The code -/

/-- What `bad_format` tells apart, behind a percent sign. -/
inductive Directive : Type where
  /-- `%%` -/
  | percent
  /-- `%s` -/
  | string
  /-- `%S` -/
  | magnitude
  /-- `%c` -/
  | char
  /-- a number -/
  | number
  deriving DecidableEq

/-- The optional padding character. -/
def skipPad : Text → Text
  | c :: s => if c = ' ' ∨ c = '+' ∨ c = '-' then s else c :: s
  | [] => []

/-- What follows a number: a padding character, `m.n` with all three optional, and `le`, `lf` or `lg`. -/
def numberDirective (s : Text) : Option Text :=
  match (dropPoint ((skipPad s).dropWhile isdigit)).dropWhile isdigit with
  | 'l' :: c :: rest => if c = 'e' ∨ c = 'f' ∨ c = 'g' then some rest else none
  | _ => none

/-- What stands behind a percent sign. -/
def directive (s : Text) : Option (Directive × Text) :=
  match s with
  | [] => none
  | c :: rest =>
    if c = 's' then some (.string, rest)
    else if c = 'S' then some (.magnitude, rest)
    else if c = '%' then some (.percent, rest)
    else if c = 'c' then some (.char, rest)
    else (numberDirective s).map fun rest => (.number, rest)

/-- The counter. -/
def Directive.count (n : ℤ) : Directive → ℤ
  | .char => 1
  | .number => (n + 1).bmod (2 ^ 32)
  | .percent | .string | .magnitude => n

theorem numberDirective_length {s rest : Text} (h : numberDirective s = some rest) : rest.length < s.length + 1 := by
  have hpad : (skipPad s).length ≤ s.length := by
    unfold skipPad
    grind
  have hpoint (t : Text) : (dropPoint t).length ≤ t.length := by
    unfold dropPoint
    split <;> simp
  have hdigits (t : Text) : (t.dropWhile isdigit).length ≤ t.length := (List.dropWhile_suffix _).length_le
  have hlast := hdigits (dropPoint ((skipPad s).dropWhile isdigit))
  unfold numberDirective at h
  split at h
  · rename_i c rest' heq
    split_ifs at h
    cases h
    rw [heq, List.length_cons, List.length_cons] at hlast
    have := hpoint ((skipPad s).dropWhile isdigit)
    have := hdigits (skipPad s)
    omega
  · cases h

theorem directive_length {s rest : Text} {d : Directive} (h : directive s = some (d, rest)) :
    rest.length < s.length + 1 := by
  cases s with
  | nil => cases h
  | cons c s =>
    unfold directive at h
    dsimp only at h
    split_ifs at h
    · cases h
      rw [List.length_cons]
      omega
    · cases h
      rw [List.length_cons]
      omega
    · cases h
      rw [List.length_cons]
      omega
    · cases h
      rw [List.length_cons]
      omega
    · obtain ⟨rest', hnumber, hpair⟩ := Option.map_eq_some_iff.mp h
      cases hpair
      exact numberDirective_length hnumber

/-- The loop of `bad_format` -/
def badFormatLoop (n : ℤ) : Text → Bool
  | [] => n ≠ 1
  | c :: s =>
    if c = '%' then
      match h : directive s with
      | none => true
      | some (d, rest) =>
        have := directive_length h
        badFormatLoop (d.count n) rest
    else badFormatLoop n s
termination_by s => s.length

/-- `bad_format` -/
def badFormat (fmt : Text) : Bool := badFormatLoop 0 fmt

/-- `if ((percent_s = strstr(format, "%S")) != NULL) *(++percent_s) = 's'` -/
def rewriteS : Text → Text
  | '%' :: 'S' :: s => '%' :: 's' :: s
  | c :: s => c :: rewriteS s
  | [] => []

/-- The format that `print_calc` hands to `printf`, or its error. -/
def printFormat (element format : Text) : Except Text Text :=
  let format := rewriteS format
  if badFormat format then .error ("bad format for ".toList ++ element ++ " in '".toList ++ format ++ "'".toList)
  else .ok format

/-- **What `printf` is given**: `printval` and `si_symb`. -/
def TakesValue (format : Text) : Prop :=
  printfArgs format = some [.double] ∨ printfArgs format = some [.double, .string]

/-! ## The directives -/

/-- The directives of a format, as `bad_format` walks over it. -/
def formatDirectives : Text → Option (List Directive)
  | [] => some []
  | c :: s =>
    if c = '%' then
      match h : directive s with
      | none => none
      | some (d, rest) =>
        have := directive_length h
        (formatDirectives rest).map (d :: ·)
    else formatDirectives s
termination_by s => s.length

theorem formatDirectives_of_ne {c : Char} (hc : c ≠ '%') (s : Text) : formatDirectives (c :: s) = formatDirectives s := by
  rw [formatDirectives, if_neg hc]

theorem formatDirectives_percent {s rest : Text} {d : Directive} (h : directive s = some (d, rest)) :
    formatDirectives ('%' :: s) = (formatDirectives rest).map (d :: ·) := by
  rw [formatDirectives, if_pos rfl]
  split
  · rename_i heq
    rw [h] at heq
    cases heq
  · rename_i heq
    rw [h] at heq
    cases heq
    rfl

theorem formatDirectives_bad {s : Text} (h : directive s = none) : formatDirectives ('%' :: s) = none := by
  rw [formatDirectives, if_pos rfl]
  split
  · rfl
  · rename_i heq
    rw [h] at heq
    cases heq

theorem badFormatLoop_of_ne {c : Char} (hc : c ≠ '%') (n : ℤ) (s : Text) : badFormatLoop n (c :: s) = badFormatLoop n s := by
  rw [badFormatLoop, if_neg hc]

theorem badFormatLoop_percent {s rest : Text} {d : Directive} (h : directive s = some (d, rest)) (n : ℤ) :
    badFormatLoop n ('%' :: s) = badFormatLoop (d.count n) rest := by
  rw [badFormatLoop, if_pos rfl]
  split
  · rename_i heq
    rw [h] at heq
    cases heq
  · rename_i heq
    rw [h] at heq
    cases heq
    rfl

theorem badFormatLoop_bad {s : Text} (h : directive s = none) (n : ℤ) : badFormatLoop n ('%' :: s) = true := by
  rw [badFormatLoop, if_pos rfl]
  split
  · rfl
  · rename_i heq
    rw [h] at heq
    cases heq

/-- **The loop counts the directives.** -/
theorem badFormatLoop_eq (n : ℤ) (s : Text) :
    badFormatLoop n s = (formatDirectives s).all fun ds => decide (ds.foldl Directive.count n ≠ 1) := by
  induction s using formatDirectives.induct generalizing n with
  | case1 => 
    rw [badFormatLoop, formatDirectives]
    rfl
  | case2 s h =>
    rw [badFormatLoop_bad h, formatDirectives_bad h]
    rfl
  | case3 s d rest h this ih =>
    rw [badFormatLoop_percent h, formatDirectives_percent h, ih, Option.all_map]
    rfl
  | case4 c s hc ih => rw [badFormatLoop_of_ne hc, formatDirectives_of_ne hc, ih]

/-- What is accepted. -/
theorem badFormat_eq_false {fmt : Text} :
    badFormat fmt = false → ∃ ds, formatDirectives fmt = some ds ∧ ds.foldl Directive.count 0 = 1 := by
  intro h
  rw [badFormat, badFormatLoop_eq] at h
  cases hds : formatDirectives fmt with
  | none =>
    rw [hds] at h
    cases h
  | some ds =>
    rw [hds] at h
    exact ⟨ds, rfl, by simpa using h⟩

/-! ## The arguments -/

/-- A number is one of the C standard. -/
theorem numberDirective_eq {s rest : Text} (h : numberDirective s = some rest) :
    ∃ pad digits prec c, s = pad ++ (digits ++ (prec ++ 'l' :: c :: rest)) ∧ (∀ x ∈ pad, isFlag x = true)
      ∧ (∀ x ∈ digits, isdigit x = true) ∧ IsPrecision prec ∧ (c = 'e' ∨ c = 'f' ∨ c = 'g') := by
  have hdigits (t : Text) : ∀ x ∈ t.takeWhile isdigit, isdigit x = true := fun x hx => List.mem_takeWhile_imp hx
  obtain ⟨pad, hs, hpad⟩ : ∃ pad, s = pad ++ skipPad s ∧ ∀ x ∈ pad, isFlag x = true := by
    cases s with
    | nil => exact ⟨[], rfl, by simp⟩
    | cons c s =>
      rw [skipPad]
      split_ifs with hc
      · refine ⟨[c], rfl, fun x hx => ?_⟩
        rw [List.mem_singleton.mp hx]
        rcases hc with rfl | rfl | rfl <;> rfl
      · exact ⟨[], rfl, by simp⟩
  obtain ⟨u, hu⟩ : ∃ u, u = (skipPad s).dropWhile isdigit := ⟨_, rfl⟩
  have hskip : skipPad s = (skipPad s).takeWhile isdigit ++ u := by
    rw [hu]
    exact List.takeWhile_append_dropWhile.symm
  obtain ⟨prec, hprec, hu'⟩ : ∃ prec, IsPrecision prec ∧ u = prec ++ (dropPoint u).dropWhile isdigit := by
    by_cases hpoint : ∃ r, u = '.' :: r
    · obtain ⟨r, hr⟩ := hpoint
      refine ⟨'.' :: r.takeWhile isdigit, .inr ⟨_, rfl, hdigits r⟩, ?_⟩
      rw [hr, dropPoint, List.cons_append, List.takeWhile_append_dropWhile]
    · have hdrop : dropPoint u = u := by
        unfold dropPoint
        split
        · exact absurd ⟨_, rfl⟩ hpoint
        · rfl
      refine ⟨[], .inl rfl, ?_⟩
      rw [hdrop, hu, List.dropWhile_idempotent]
      rfl
  rw [numberDirective, ← hu] at h
  split at h
  · rename_i c rest' heq
    split_ifs at h with hc
    cases h
    refine ⟨pad, (skipPad s).takeWhile isdigit, prec, c, ?_, hpad, hdigits _, hprec, hc⟩
    rw [← heq, ← hu', ← hskip]
    exact hs
  · cases h

/-- What a directive takes. -/
def Directive.args : Directive → List CArg
  | .percent => []
  | .string => [.string]
  | .magnitude => [.wideString]
  | .char => [.integer .none]
  | .number => [.double]

/-- **A directive is a conversion.** -/
theorem conversion_of_directive {s rest : Text} {d : Directive} (h : directive s = some (d, rest)) :
    conversion s = some (d.args, rest) := by
  cases s with
  | nil => cases h
  | cons c s =>
    unfold directive at h
    dsimp only at h
    split_ifs at h with hs hS hpercent hchar
    · cases h
      rw [hs]
      rfl
    · cases h
      rw [hS]
      rfl
    · cases h
      rw [hpercent]
      rfl
    · cases h
      rw [hchar]
      rfl
    · obtain ⟨rest', hnumber, hpair⟩ := Option.map_eq_some_iff.mp h
      cases hpair
      obtain ⟨pad, digits, prec, c', heq, hpad, hdigits, hprec, hc'⟩ := numberDirective_eq hnumber
      rw [heq]
      exact conversion_number hpad hdigits hprec hc'

/-- **What the directives of a format take.** -/
theorem printfArgs_eq {s : Text} {ds : List Directive} (h : formatDirectives s = some ds) :
    printfArgs s = some (ds.flatMap Directive.args) := by
  induction s using formatDirectives.induct generalizing ds with
  | case1 =>
    rw [formatDirectives] at h
    cases h
    rw [printfArgs]
    rfl
  | case2 s hbad =>
    rw [formatDirectives_bad hbad] at h
    cases h
  | case3 s d rest hd this ih =>
    rw [formatDirectives_percent hd] at h
    obtain ⟨ds', hds', rfl⟩ := Option.map_eq_some_iff.mp h
    rw [printfArgs_percent (conversion_of_directive hd), ih hds']
    rfl
  | case4 c s hc ih =>
    rw [formatDirectives_of_ne hc] at h
    rw [printfArgs_of_ne hc]
    exact ih h

/-! ## The first `%S` -/

theorem rewriteS_of_ne {c : Char} (hc : c ≠ '%') (s : Text) : rewriteS (c :: s) = c :: rewriteS s := by
  rw [rewriteS]
  intro s' h
  exact absurd h hc

theorem rewriteS_percent {s : Text} (hs : s.head? ≠ some 'S') : rewriteS ('%' :: s) = '%' :: rewriteS s := by
  rw [rewriteS]
  rintro s' - rfl
  exact hs rfl

/-- The first character stays. -/
theorem rewriteS_cons (c : Char) (s : Text) : ∃ s', rewriteS (c :: s) = c :: s' := by
  by_cases hc : c = '%'
  · rw [hc]
    by_cases hs : s.head? = some 'S'
    · obtain ⟨s', rfl⟩ : ∃ s', s = 'S' :: s' := List.head?_eq_some_iff.mp hs
      exact ⟨'s' :: s', rfl⟩
    · exact ⟨_, rewriteS_percent hs⟩
  · exact ⟨_, rewriteS_of_ne hc s⟩

theorem rewriteS_dropWhile {p : Char → Bool} (hp : p '%' = false) (s : Text) :
    (rewriteS s).dropWhile p = rewriteS (s.dropWhile p) := by
  induction s with
  | nil => rfl
  | cons c s ih =>
    cases hc : p c with
    | true =>
      have hne : c ≠ '%' := by
        rintro rfl
        rw [hp] at hc
        cases hc
      rw [rewriteS_of_ne hne, List.dropWhile_cons_of_pos hc, List.dropWhile_cons_of_pos hc, ih]
    | false =>
      have hstop : ¬ p c = true := by simp [hc]
      obtain ⟨s', hs'⟩ := rewriteS_cons c s
      rw [List.dropWhile_cons_of_neg hstop, hs', List.dropWhile_cons_of_neg hstop]

theorem rewriteS_skipPad (s : Text) : skipPad (rewriteS s) = rewriteS (skipPad s) := by
  cases s with
  | nil => rfl
  | cons c s =>
    by_cases hc : c = ' ' ∨ c = '+' ∨ c = '-'
    · have hne : c ≠ '%' := by
        rcases hc with rfl | rfl | rfl <;> decide
      rw [rewriteS_of_ne hne, skipPad, if_pos hc, skipPad, if_pos hc]
    · obtain ⟨s', hs'⟩ := rewriteS_cons c s
      rw [hs', skipPad, if_neg hc, skipPad, if_neg hc, hs']

theorem rewriteS_dropPoint (s : Text) : dropPoint (rewriteS s) = rewriteS (dropPoint s) := by
  cases s with
  | nil => rfl
  | cons c s =>
    by_cases hc : c = '.'
    · rw [hc, rewriteS_of_ne (by decide), dropPoint, dropPoint]
    · obtain ⟨s', hs'⟩ := rewriteS_cons c s
      rw [hs', dropPoint_of_ne hc, dropPoint_of_ne hc, hs']

/-- **Numbers are not touched.** -/
theorem numberDirective_rewriteS (s : Text) : numberDirective (rewriteS s) = (numberDirective s).map rewriteS := by
  rw [numberDirective, numberDirective, rewriteS_skipPad, rewriteS_dropWhile (by decide), rewriteS_dropPoint,
    rewriteS_dropWhile (by decide)]
  generalize (dropPoint ((skipPad s).dropWhile isdigit)).dropWhile isdigit = u
  cases u with
  | nil => rfl
  | cons x u =>
    by_cases hx : x = 'l'
    · rw [hx, rewriteS_of_ne (by decide)]
      cases u with
      | nil => rfl
      | cons c rest =>
        by_cases hc : c = 'e' ∨ c = 'f' ∨ c = 'g'
        · have hne : c ≠ '%' := by
            rcases hc with rfl | rfl | rfl <;> decide
          rw [rewriteS_of_ne hne]
          change (if _ then _ else _) = Option.map rewriteS (if _ then _ else _)
          rw [if_pos hc, if_pos hc]
          rfl
        · obtain ⟨s', hs'⟩ := rewriteS_cons c rest
          rw [hs']
          change (if _ then _ else _) = Option.map rewriteS (if _ then _ else _)
          rw [if_neg hc, if_neg hc]
          rfl
    · obtain ⟨s', hs'⟩ := rewriteS_cons x u
      rw [hs']
      split
      · rename_i heq
        exact absurd (List.cons.inj heq).1 hx
      · split
        · rename_i heq
          exact absurd (List.cons.inj heq).1 hx
        · rfl

/-- A directive in a format without its first `%S` behind it. -/
theorem directive_rewriteS {s : Text} (hs : s.head? ≠ some 'S') (hs' : s.head? ≠ some '%') :
    directive (rewriteS s) = (directive s).map fun r => (r.1, rewriteS r.2) := by
  cases s with
  | nil => rfl
  | cons c s =>
    have hS : c ≠ 'S' := fun h => hs (congrArg some h)
    have hpercent : c ≠ '%' := fun h => hs' (congrArg some h)
    have hnumber := numberDirective_rewriteS (c :: s)
    rw [rewriteS_of_ne hpercent] at hnumber ⊢
    rw [directive, directive, if_neg hS, if_neg hS, if_neg hpercent, if_neg hpercent, hnumber]
    split_ifs
    · rfl
    · rfl
    · cases numberDirective (c :: s) <;> rfl

/-- **The new format is accepted if the old one is.** -/
theorem badFormatLoop_rewriteS (n : ℤ) (s : Text) : badFormatLoop n (rewriteS s) = badFormatLoop n s := by
  induction s using formatDirectives.induct generalizing n with
  | case1 => rfl
  | case2 s h =>
    have hs : s.head? ≠ some 'S' := by
      intro hs
      obtain ⟨s', rfl⟩ : ∃ s', s = 'S' :: s' := List.head?_eq_some_iff.mp hs
      cases h
    have hs' : s.head? ≠ some '%' := by
      intro hs'
      obtain ⟨s', rfl⟩ : ∃ s', s = '%' :: s' := List.head?_eq_some_iff.mp hs'
      cases h
    have hbad : directive (rewriteS s) = none := by rw [directive_rewriteS hs hs', h]; rfl
    rw [rewriteS_percent hs, badFormatLoop_bad hbad, badFormatLoop_bad h]
  | case3 s d rest h this ih =>
    by_cases hs : s.head? = some 'S'
    · -- the `%S` that is rewritten
      obtain ⟨s', rfl⟩ : ∃ s', s = 'S' :: s' := List.head?_eq_some_iff.mp hs
      cases h
      exact (badFormatLoop_percent (d := .string) rfl n).trans (badFormatLoop_percent (d := .magnitude) rfl n).symm
    · by_cases hs' : s.head? = some '%'
      · obtain ⟨s', rfl⟩ : ∃ s', s = '%' :: s' := List.head?_eq_some_iff.mp hs'
        cases h
        have hpair (t : Text) : badFormatLoop n ('%' :: '%' :: t) = badFormatLoop n t :=
          badFormatLoop_percent (d := .percent) rfl n
        rw [rewriteS_percent hs, hpair]
        by_cases hrest : rest.head? = some 'S'
        · -- the `S` behind two percent signs is a character
          obtain ⟨s', rfl⟩ : ∃ s', rest = 'S' :: s' := List.head?_eq_some_iff.mp hrest
          rw [rewriteS, hpair, badFormatLoop_of_ne (by decide), badFormatLoop_of_ne (by decide)]
        · rw [rewriteS_percent hrest, hpair, ih]
      · have hd : directive (rewriteS s) = some (d, rewriteS rest) := by
          rw [directive_rewriteS hs hs', h]
          rfl
        rw [rewriteS_percent hs, badFormatLoop_percent hd, badFormatLoop_percent h, ih]
  | case4 c s hc ih => rw [rewriteS_of_ne hc, badFormatLoop_of_ne hc, badFormatLoop_of_ne hc, ih]

/-! ## The arguments of an accepted format -/

/-- **A number and, behind it, a string**: there is no character and no `%S` (left), nothing but percent signs stands in
front of the number, there are no two strings, and the counter has not run over. -/
structure Ordinary (ds : List Directive) : Prop where
  char : .char ∉ ds
  magnitude : .magnitude ∉ ds
  first : (ds.filter (· ≠ .percent)).head? = some .number
  strings : ds.count .string ≤ 1
  few : ds.count .number < 2 ^ 32

/-- The counter, without characters. -/
theorem foldl_count {ds : List Directive} (h : .char ∉ ds) (n : ℤ) :
    (ds.foldl Directive.count n).bmod (2 ^ 32) = (n + ds.count .number).bmod (2 ^ 32) := by
  induction ds generalizing n with
  | nil => simp
  | cons d ds ih =>
    obtain ⟨hd, hds⟩ := not_or.mp (List.mem_cons.not.mp h)
    rw [List.foldl_cons, ih hds]
    cases d with
    | char => exact absurd rfl hd
    | number =>
      rw [List.count_cons_self, Directive.count, Int.bmod_add_bmod]
      push_cast
      ring_nf
    | percent => rfl
    | string => rfl
    | magnitude => rfl

/-- A directive takes its own argument, and no other. -/
theorem count_flatMap {d : Directive} {a : CArg} (h : ∀ e : Directive, e.args.count a = if e = d then 1 else 0)
    (ds : List Directive) : (ds.flatMap Directive.args).count a = ds.count d := by
  induction ds with
  | nil => rfl
  | cons e ds ih =>
    rw [List.flatMap_cons, List.count_append, ih, h, List.count_cons]
    simp only [beq_iff_eq]
    omega

theorem head?_flatMap (ds : List Directive) :
    (ds.flatMap Directive.args).head? = some .double ↔ (ds.filter (· ≠ .percent)).head? = some .number := by
  induction ds with
  | nil => simp
  | cons d ds ih =>
    cases d with
    | percent => exact ih
    | string => simp [Directive.args]
    | magnitude => simp [Directive.args]
    | char => simp [Directive.args]
    | number => simp [Directive.args]

/-- **The arguments of an accepted format** are a number and a string exactly for the ordinary ones. -/
theorem takes_iff {ds : List Directive} (h : ds.foldl Directive.count 0 = 1) :
    (ds.flatMap Directive.args = [.double] ∨ ds.flatMap Directive.args = [.double, .string]) ↔ Ordinary ds := by
  have hchar := count_flatMap (d := .char) (a := .integer .none) (fun e => by cases e <;> rfl) ds
  have hmagnitude := count_flatMap (d := .magnitude) (a := .wideString) (fun e => by cases e <;> rfl) ds
  have hnumber := count_flatMap (d := .number) (a := .double) (fun e => by cases e <;> rfl) ds
  have hstring := count_flatMap (d := .string) (a := .string) (fun e => by cases e <;> rfl) ds
  have hfirst := head?_flatMap ds
  generalize hargs : ds.flatMap Directive.args = args at hchar hmagnitude hnumber hstring hfirst ⊢
  constructor
  · intro hcases
    have hcounts : args.count (.integer .none) = 0 ∧ args.count .wideString = 0 ∧ args.count .double = 1
        ∧ args.count .string ≤ 1 ∧ args.head? = some .double := by
      rcases hcases with rfl | rfl <;> decide
    exact {
      char := List.count_eq_zero.mp (by omega)
      magnitude := List.count_eq_zero.mp (by omega)
      first := hfirst.mp hcounts.2.2.2.2
      strings := by omega
      few := by omega }
  · intro hordinary
    have hone : ds.count .number = 1 := by
      have hmod := foldl_count hordinary.char 0
      rw [h, zero_add] at hmod
      have hfew := hordinary.few
      rw [Int.bmod_eq_bmod_iff_bmod_sub_eq_zero, ← Int.dvd_iff_bmod_eq_zero] at hmod
      omega
    obtain ⟨rest, rfl⟩ := List.head?_eq_some_iff.mp (hfirst.mpr hordinary.first)
    have hdouble : CArg.double ∉ rest := by
      rw [List.count_cons_self] at hnumber
      exact List.count_eq_zero.mp (by omega)
    -- nothing but strings is left
    have hrest : ∀ a ∈ rest, a = .string := by
      intro a ha
      have hmem : a ∈ ds.flatMap Directive.args := by
        rw [hargs]
        exact List.mem_cons_of_mem _ ha
      obtain ⟨d, hd, had⟩ := List.mem_flatMap.mp hmem
      cases d with
      | percent => cases had
      | string => exact List.mem_singleton.mp had
      | magnitude => exact absurd hd hordinary.magnitude
      | char => exact absurd hd hordinary.char
      | number =>
        obtain rfl := List.mem_singleton.mp had
        exact absurd ha hdouble
    rw [List.count_cons_of_ne (by decide)] at hstring
    have hall := List.eq_replicate_of_mem hrest
    have hshort : rest.length ≤ 1 := by
      rw [hall, List.count_replicate_self] at hstring
      have := hordinary.strings
      omega
    rcases Nat.le_one_iff_eq_zero_or_eq_one.mp hshort with hlength | hlength
    · left
      rw [hall, hlength]
      rfl
    · right
      rw [hall, hlength]
      rfl

/-- **A format that is accepted takes a number and then at most a string** exactly if its directives are ordinary. That
is so before and after the first `%S` is rewritten, and the rewritten format is accepted as well. -/
theorem print_iff (element format : Text) (h : badFormat format = false) :
    printFormat element format = .ok (rewriteS format)
      ∧ (TakesValue format ↔ Ordinary ((formatDirectives format).getD []))
      ∧ (TakesValue (rewriteS format) ↔ Ordinary ((formatDirectives (rewriteS format)).getD [])) := by
  have htakes {fmt : Text} (hfmt : badFormat fmt = false) :
      TakesValue fmt ↔ Ordinary ((formatDirectives fmt).getD []) := by
    obtain ⟨ds, hds, hcount⟩ := badFormat_eq_false hfmt
    rw [TakesValue, printfArgs_eq hds, hds, Option.getD_some, ← takes_iff hcount]
    simp only [Option.some.injEq]
  have h' : badFormat (rewriteS format) = false := (badFormatLoop_rewriteS 0 format).trans h
  refine ⟨?_, htakes h, htakes h'⟩
  rw [printFormat, if_neg (by rw [h']; decide)]

theorem formatDirectives_scaled : formatDirectives "%6.2lf %S".toList = some [.number, .magnitude] := by
  have hnumber : directive "6.2lf %S".toList = some (.number, " %S".toList) := by decide
  have hmagnitude : directive "S".toList = some (.magnitude, []) := rfl
  refine (formatDirectives_percent hnumber).trans ?_
  rw [show " %S".toList = ' ' :: '%' :: "S".toList from rfl, formatDirectives_of_ne (by decide),
    formatDirectives_percent hmagnitude, formatDirectives]
  rfl

theorem formatDirectives_rewritten : formatDirectives (rewriteS "%6.2lf %S".toList) = some [.number, .string] := by
  have hnumber : directive "6.2lf %s".toList = some (.number, " %s".toList) := by decide
  have hstring : directive "s".toList = some (.string, []) := rfl
  refine (formatDirectives_percent hnumber).trans ?_
  rw [show " %s".toList = ' ' :: '%' :: "s".toList from rfl, formatDirectives_of_ne (by decide),
    formatDirectives_percent hstring, formatDirectives]
  rfl

/-- A number with the symbol of its magnitude. -/
theorem print_scaled : TakesValue (rewriteS "%6.2lf %S".toList) := by
  have haccepted : badFormat "%6.2lf %S".toList = false := by
    rw [badFormat, badFormatLoop_eq, formatDirectives_scaled]
    decide
  refine (print_iff "PRINT".toList _ haccepted).2.2.mpr ?_
  rw [formatDirectives_rewritten]
  exact ⟨by decide, by decide, by decide, by decide, by decide⟩

/-- The string in front of the number. -/
theorem print_string_first :
    badFormat "%s%lf".toList = false ∧ rewriteS "%s%lf".toList = "%s%lf".toList
      ∧ printfArgs "%s%lf".toList = some [.string, .double] ∧ ¬ TakesValue "%s%lf".toList := by
  have hstring : directive "s%lf".toList = some (.string, "%lf".toList) := rfl
  have hnumber : directive "lf".toList = some (.number, []) := by decide
  have hds : formatDirectives "%s%lf".toList = some [.string, .number] := by
    refine (formatDirectives_percent hstring).trans ?_
    rw [show "%lf".toList = '%' :: "lf".toList from rfl, formatDirectives_percent hnumber, formatDirectives]
    rfl
  refine ⟨?_, by decide, printfArgs_eq hds, ?_⟩
  · rw [badFormat, badFormatLoop_eq, hds]
    decide
  · rw [TakesValue, printfArgs_eq hds]
    decide

end Rrdtool
