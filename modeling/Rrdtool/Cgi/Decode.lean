import Rrdtool.Daemon.Encoding
import Rrdtool.Lib.Scan

/-!
# `rrdcgiDecodeString`

The decoder works in the buffer of the string: `cp` reads, `xp` writes behind it. A `%` that two digits follow
becomes the byte they denote, and any other `%` is left out. The digits are looked up with `strchr`, which finds
the terminator as well, so that the decoder reads on behind a string that ends within an escape.

* `decodeLoop_eq` — the loop in place, as a function of what is left of the buffer;
* `decodeValue_eq_none_iff` — when it reads behind the buffer;
* `decodeValue_of_wellEscaped` — what it makes of a well-formed string.
-/

namespace Rrdtool.Cgi

open CStr
open Daemon (nul cstr cstr_cons cstr_append cstr_of_not_mem)

/-! ## The loop -/

/-- A digit of an escape. -/
def isHex (c : Char) : Bool := "0123456789ABCDEFabcdef".toList.contains c

/-- `strchr("0123456789ABCDEFabcdef", c)`. It finds the terminator, too. -/
def strchrHex (c : Char) : Bool := isHex c || decide (c = nul)

/-- `toupper`, of a lower case letter -/
def toupper (c : Char) : Char := if 'a' ≤ c ∧ c ≤ 'z' then Char.ofNat (c.toNat - 32) else c

/-- What a digit in upper case adds to the byte. -/
def hexPart (c : Char) : ℤ := if 'A' ≤ c then c.toNat - 65 + 10 else c.toNat - 48

/-- The byte that two digits denote, as a `char`. -/
def hexByte (a b : Char) : Char := Char.ofNat ((hexPart (toupper a) * 16 + hexPart (toupper b)) % 256).toNat

theorem left_lt {text : List Char} {cp k : ℕ} {c : Char} (h : text[cp]? = some c) (hk : 0 < k) :
    text.length - (cp + k) < text.length - cp := by
  have := (List.getElem?_eq_some_iff.mp h).1
  omega

/-- `for (cp = text, xp = text; *cp; cp++)`, and the `memset` behind it. There is no result when a byte behind the
buffer is read. -/
def decodeLoop (text : List Char) (cp xp : ℕ) : Option (List Char) :=
  match _h : text[cp]? with
  | none => none
  | some c =>
    if c = nul then some (text.take xp ++ List.replicate (cp - xp) nul ++ text.drop cp)
    else if c = '%' then
      match text[cp + 1]? with
      | none => none
      | some a =>
        if strchrHex a then
          match text[cp + 2]? with
          | none => none
          | some b =>
            if strchrHex b then
              decodeLoop ((((text.set (cp + 1) (toupper a)).set (cp + 2) (toupper b))).set xp (hexByte a b)) (cp + 3)
                (xp + 1)
            else decodeLoop text (cp + 1) xp
        else decodeLoop text (cp + 1) xp
    else decodeLoop (text.set xp c) (cp + 1) (xp + 1)
termination_by text.length - cp
decreasing_by
  · simpa only [List.length_set] using left_lt _h (Nat.succ_pos 2)
  · exact left_lt _h Nat.one_pos
  · exact left_lt _h Nat.one_pos
  · simpa only [List.length_set] using left_lt _h Nat.one_pos

/-- `rrdcgiDecodeString`, in a buffer that has room for the terminator and no more. -/
def decodeValue (s : Text) : Option Text := (decodeLoop (s ++ [nul]) 0 0).map cstr

/-! ## The loop, by what is left -/

/-- What is decoded from here on. -/
def unescape : List Char → Option Text
  | [] => none
  | c :: s =>
    if c = nul then some []
    else if c = '%' then
      match s with
      | [] => none
      | a :: t =>
        if strchrHex a then
          match t with
          | [] => none
          | b :: u => if strchrHex b then (unescape u).map (hexByte a b :: ·) else unescape (a :: b :: u)
        else unescape (a :: t)
    else (unescape s).map (c :: ·)

/-- Storing at the write position moves it on. -/
theorem set_append (out gap rest : List Char) (x v : Char) :
    (out ++ gap ++ x :: rest).set out.length v = (out ++ [v]) ++ (gap ++ [x]).tail ++ rest := by
  have hsplit : out ++ gap ++ x :: rest = out ++ ((gap ++ [x]) ++ rest) := by simp
  obtain ⟨y, ys, hys⟩ := List.exists_cons_of_ne_nil (List.append_ne_nil_of_right_ne_nil gap (List.cons_ne_nil x []))
  rw [hsplit, hys, List.set_append_right _ _ le_rfl, Nat.sub_self]
  simp

theorem getElem?_rest (out gap rest : List Char) (k : ℕ) :
    (out ++ gap ++ rest)[out.length + gap.length + k]? = rest[k]? := by
  rw [List.getElem?_append_right (by simp), List.length_append, Nat.add_sub_cancel_left]

theorem cstr_append_nul (t r : Text) : cstr (t ++ nul :: r) = cstr t := by
  induction t with
  | nil => rw [List.nil_append, Daemon.cstr_nul]; rfl
  | cons c t ih =>
    by_cases hc : c = nul
    · rw [hc, List.cons_append, Daemon.cstr_nul, Daemon.cstr_nul]
    · rw [List.cons_append, cstr_cons hc, cstr_cons hc, ih]

theorem decodeLoop_of_some {text : List Char} {cp xp : ℕ} {c : Char} (h : text[cp]? = some c) :
    decodeLoop text cp xp =
      if c = nul then some (text.take xp ++ List.replicate (cp - xp) nul ++ text.drop cp)
      else if c = '%' then
        match text[cp + 1]? with
        | none => none
        | some a =>
          if strchrHex a then
            match text[cp + 2]? with
            | none => none
            | some b =>
              if strchrHex b then
                decodeLoop ((((text.set (cp + 1) (toupper a)).set (cp + 2) (toupper b))).set xp (hexByte a b)) (cp + 3)
                  (xp + 1)
              else decodeLoop text (cp + 1) xp
          else decodeLoop text (cp + 1) xp
      else decodeLoop (text.set xp c) (cp + 1) (xp + 1) := by
  rw [decodeLoop]
  split
  · rename_i hnone
    rw [h] at hnone
    cases hnone
  · rename_i c' hc'
    rw [h] at hc'
    obtain rfl := Option.some.inj hc'
    rfl

section

variable {out gap s : List Char} {c : Char}

theorem getElem?_first : (out ++ gap ++ c :: s)[out.length + gap.length]? = some c := getElem?_rest out gap (c :: s) 0

theorem decodeLoop_nul :
    (decodeLoop (out ++ gap ++ nul :: s) (out.length + gap.length) out.length).map cstr = some (cstr out) := by
  rw [decodeLoop_of_some getElem?_first, if_pos rfl, Option.map_some, List.append_assoc out,
    List.take_left, Nat.add_sub_cancel_left]
  cases hgap : gap.length with
  | zero =>
    obtain rfl := List.length_eq_zero_iff.mp hgap
    rw [List.replicate_zero, List.append_nil, List.nil_append, Nat.add_zero, List.drop_left, cstr_append_nul]
  | succ n => rw [List.replicate_succ, List.append_assoc, List.cons_append, cstr_append_nul]

/-- A character is kept. -/
theorem decodeLoop_keep (hc : c ≠ nul) (hp : c ≠ '%') :
    decodeLoop (out ++ gap ++ c :: s) (out.length + gap.length) out.length =
      decodeLoop ((out ++ [c]) ++ (gap ++ [c]).tail ++ s) ((out ++ [c]).length + (gap ++ [c]).tail.length)
        (out ++ [c]).length := by
  have hcp : (out ++ [c]).length + (gap ++ [c]).tail.length = out.length + gap.length + 1 := by
    simp
    omega
  have hxp : (out ++ [c]).length = out.length + 1 := by simp
  rw [hcp, hxp, ← set_append, decodeLoop_of_some getElem?_first, if_neg hc, if_neg hp]

/-- A `%` that is left out. -/
theorem skip_eq (out gap : List Char) (c : Char) (s : List Char) :
    decodeLoop (out ++ gap ++ c :: s) (out.length + gap.length + 1) out.length =
      decodeLoop (out ++ (gap ++ [c]) ++ s) (out.length + (gap ++ [c]).length) out.length := by
  have htext : out ++ gap ++ c :: s = out ++ (gap ++ [c]) ++ s := by simp
  have hcp : out.length + gap.length + 1 = out.length + (gap ++ [c]).length := by
    rw [List.length_append, List.length_singleton, Nat.add_assoc]
  rw [htext, hcp]

/-- An escape. -/
theorem escape_eq (out gap : List Char) (a b : Char) (s : List Char) :
    decodeLoop (((((out ++ gap ++ '%' :: a :: b :: s).set (out.length + gap.length + 1) (toupper a)).set
        (out.length + gap.length + 2) (toupper b))).set out.length (hexByte a b)) (out.length + gap.length + 3)
        (out.length + 1) =
      decodeLoop ((out ++ [hexByte a b]) ++ ((gap ++ ['%']).tail ++ [toupper a, toupper b]) ++ s)
        ((out ++ [hexByte a b]).length + ((gap ++ ['%']).tail ++ [toupper a, toupper b]).length)
        (out ++ [hexByte a b]).length := by
  have hdigits : ((out ++ gap ++ '%' :: a :: b :: s).set (out.length + gap.length + 1) (toupper a)).set
      (out.length + gap.length + 2) (toupper b) = out ++ gap ++ '%' :: toupper a :: toupper b :: s := by
    rw [List.set_append_right _ _ (by simp), List.set_append_right _ _ (by simp), List.length_append,
      Nat.add_sub_cancel_left, Nat.add_sub_cancel_left]
    rfl
  have hcp : (out ++ [hexByte a b]).length + ((gap ++ ['%']).tail ++ [toupper a, toupper b]).length =
      out.length + gap.length + 3 := by
    simp
    omega
  have hxp : (out ++ [hexByte a b]).length = out.length + 1 := by simp
  rw [hdigits, hcp, hxp, set_append]
  simp

end

/-- **The loop in place.** What has been written stands in front of the write position, and what is left is as it
was. -/
theorem decodeLoop_eq (out gap rest : List Char) :
    (decodeLoop (out ++ gap ++ rest) (out.length + gap.length) out.length).map cstr =
      (unescape rest).map fun d => cstr (out ++ d) := by
  have hpercent : ¬ '%' = nul := by decide
  fun_induction unescape rest generalizing out gap with
  | case1 =>
    have hnone : (out ++ gap ++ [])[out.length + gap.length]? = none := getElem?_rest out gap [] 0
    rw [decodeLoop]
    split
    · rfl
    · rename_i hsome
      rw [hnone] at hsome
      cases hsome
  | case2 s => rw [decodeLoop_nul, Option.map_some, List.append_nil]
  | case3 =>
    rw [decodeLoop_of_some getElem?_first, if_neg hpercent, if_pos rfl, getElem?_rest out gap _ 1]
    rfl
  | case4 a ha =>
    rw [decodeLoop_of_some getElem?_first, if_neg hpercent, if_pos rfl, getElem?_rest out gap _ 1,
      getElem?_rest out gap _ 2]
    simp [ha]
  | case5 a ha b u hb _ ih =>
    rw [decodeLoop_of_some getElem?_first, if_neg hpercent, if_pos rfl, getElem?_rest out gap _ 1,
      getElem?_rest out gap _ 2]
    simp only [List.getElem?_cons_succ, List.getElem?_cons_zero, ha, hb, if_true]
    rw [escape_eq, ih, Option.map_map]
    simp only [List.append_assoc, List.singleton_append]
    rfl
  | case6 a ha b u hb _ ih =>
    rw [decodeLoop_of_some getElem?_first, if_neg hpercent, if_pos rfl, getElem?_rest out gap _ 1,
      getElem?_rest out gap _ 2]
    simp only [List.getElem?_cons_succ, List.getElem?_cons_zero, ha, hb, if_true]
    rw [if_neg (by decide), skip_eq, ih]
  | case7 a t ha _ ih =>
    rw [decodeLoop_of_some getElem?_first, if_neg hpercent, if_pos rfl, getElem?_rest out gap _ 1]
    simp only [List.getElem?_cons_succ, List.getElem?_cons_zero, ha]
    rw [if_neg (by decide), skip_eq, ih]
  | case8 c s h hc ih =>
    rw [decodeLoop_keep h hc, ih, Option.map_map]
    simp only [List.append_assoc, List.singleton_append]
    rfl

/-- What the decoder makes of a string. -/
theorem decodeValue_eq (s : Text) : decodeValue s = (unescape (s ++ [nul])).map cstr :=
  decodeLoop_eq [] [] (s ++ [nul])

section

variable {a b c : Char} {s t u : List Char}

theorem unescape_keep (hc : c ≠ nul) (hp : c ≠ '%') : unescape (c :: s) = (unescape s).map (c :: ·) := by
  rw [unescape.eq_def]
  simp only [if_neg hc, if_neg hp]

theorem unescape_escape (ha : strchrHex a = true) (hb : strchrHex b = true) :
    unescape ('%' :: a :: b :: u) = (unescape u).map (hexByte a b :: ·) := by
  rw [unescape.eq_def]
  simp only [ha, hb, if_true]
  rfl

theorem unescape_skip (ha : strchrHex a = false) : unescape ('%' :: a :: t) = unescape (a :: t) := by
  rw [unescape.eq_def]
  simp only [ha]
  rfl

theorem unescape_skip_digit (ha : strchrHex a = true) (hb : strchrHex b = false) :
    unescape ('%' :: a :: b :: u) = unescape (a :: b :: u) := by
  rw [unescape.eq_def]
  simp only [ha, hb, if_true]
  rfl

end

/-! ## Strings that end within an escape -/

/-- The string ends with a `%`, or with a `%` and one digit. -/
def StrayEnd (s : Text) : Prop := ['%'] <:+ s ∨ ∃ a, isHex a = true ∧ ['%', a] <:+ s

theorem strayEnd_cons {c : Char} {s : Text} :
    StrayEnd (c :: s) ↔ c = '%' ∧ (s = [] ∨ ∃ a, isHex a = true ∧ s = [a]) ∨ StrayEnd s := by
  simp only [StrayEnd, List.suffix_cons_iff, List.cons.injEq]
  constructor
  · rintro ((⟨rfl, rfl⟩ | h) | ⟨a, ha, ⟨rfl, rfl⟩ | h⟩)
    · exact .inl ⟨rfl, .inl rfl⟩
    · exact .inr (.inl h)
    · exact .inl ⟨rfl, .inr ⟨a, ha, rfl⟩⟩
    · exact .inr (.inr ⟨a, ha, h⟩)
  · rintro (⟨rfl, rfl | ⟨a, ha, rfl⟩⟩ | h | ⟨a, ha, h⟩)
    · exact .inl (.inl ⟨rfl, rfl⟩)
    · exact .inr ⟨a, ha, .inl ⟨rfl, rfl⟩⟩
    · exact .inl (.inr h)
    · exact .inr ⟨a, ha, .inr h⟩

theorem not_strayEnd_nil : ¬ StrayEnd [] := by
  simp [StrayEnd]

theorem strayEnd_cons_of_ne {c : Char} (hc : c ≠ '%') {s : Text} : StrayEnd (c :: s) ↔ StrayEnd s := by
  rw [strayEnd_cons]
  exact or_iff_right fun h => hc h.1

theorem isHex_ne {a c : Char} (ha : isHex a = true) (hc : isHex c = false) : a ≠ c := by
  rintro rfl
  rw [ha] at hc
  cases hc

theorem strchrHex_of_ne {a : Char} (ha : a ≠ nul) : strchrHex a = isHex a := by
  rw [strchrHex, decide_eq_false ha, Bool.or_false]

/-- **The decoder reads behind the buffer** of the strings that end within an escape, and of no others. -/
theorem unescape_eq_none_iff {s : Text} (hs : nul ∉ s) : unescape (s ++ [nul]) = none ↔ StrayEnd s := by
  have hpercent : ¬ '%' = nul := by decide
  induction hn : s.length using Nat.strong_induction_on generalizing s with
  | _ n ih =>
    subst hn
    cases s with
    | nil => simp [unescape, not_strayEnd_nil]
    | cons c s =>
      rw [List.mem_cons, not_or] at hs
      obtain ⟨hc, hs⟩ := hs
      have hrest : unescape (s ++ [nul]) = none ↔ StrayEnd s := ih s.length (Nat.lt_succ_self _) hs rfl
      by_cases hp : c = '%'
      · subst hp
        cases s with
        | nil => simp [unescape, strchrHex, strayEnd_cons, hpercent]
        | cons a t =>
          rw [List.mem_cons, not_or] at hs
          obtain ⟨ha, ht⟩ := hs
          rw [List.cons_append, List.cons_append]
          by_cases hhex : isHex a = true
          · have ha' : a ≠ '%' := isHex_ne hhex (by decide)
            have hdigit : strchrHex a = true := by rw [strchrHex, hhex, Bool.true_or]
            cases t with
            | nil => simp [unescape, strchrHex, strayEnd_cons, hhex, hpercent]
            | cons b u =>
              rw [List.mem_cons, not_or] at ht
              obtain ⟨hb, hu⟩ := ht
              have hnot : ¬('%' = '%' ∧ (a :: b :: u = [] ∨ ∃ a', isHex a' = true ∧ a :: b :: u = [a'])) := by simp
              rw [strayEnd_cons, or_iff_right hnot, strayEnd_cons_of_ne ha', List.cons_append]
              by_cases hhex' : isHex b = true
              · have hb' : b ≠ '%' := isHex_ne hhex' (by decide)
                have hdigit' : strchrHex b = true := by rw [strchrHex, hhex', Bool.true_or]
                rw [strayEnd_cons_of_ne hb', unescape_escape hdigit hdigit', Option.map_eq_none_iff]
                exact ih u.length (by simp only [List.length_cons]; omega) hu rfl
              · have hdigit' : strchrHex b = false := by
                  rw [strchrHex_of_ne (Ne.symm hb)]
                  exact Bool.eq_false_iff.mpr hhex'
                rw [unescape_skip_digit hdigit hdigit', ← strayEnd_cons_of_ne ha']
                exact hrest
          · have hnot : ¬('%' = '%' ∧ (a :: t = [] ∨ ∃ a', isHex a' = true ∧ a :: t = [a'])) := by
              rintro ⟨-, hnil | ⟨a', ha', heq⟩⟩
              · cases hnil
              · obtain ⟨rfl, -⟩ := List.cons.inj heq
                exact hhex ha'
            have hdigit : strchrHex a = false := by
              rw [strchrHex_of_ne (Ne.symm ha)]
              exact Bool.eq_false_iff.mpr hhex
            rw [strayEnd_cons, or_iff_right hnot, unescape_skip hdigit]
            exact hrest
      · rw [strayEnd_cons_of_ne hp, List.cons_append, unescape_keep (Ne.symm hc) hp, Option.map_eq_none_iff]
        exact hrest

theorem decodeValue_eq_none_iff {s : Text} (hs : nul ∉ s) : decodeValue s = none ↔ StrayEnd s := by
  rw [decodeValue_eq, Option.map_eq_none_iff, unescape_eq_none_iff hs]

/-! ## Well-formed strings -/

/-- **Every `%` is followed by two digits**, and they do not denote the terminator. -/
def WellEscaped (s : Text) : Prop :=
  ∀ i, s[i]? = some '%' → ∃ a b, s[i + 1]? = some a ∧ s[i + 2]? = some b ∧ isHex a = true ∧ isHex b = true ∧
    ¬(a = '0' ∧ b = '0')

/-- The string that was escaped. -/
def percentDecode : Text → Text
  | [] => []
  | [a] => [a]
  | [a, b] => [a, b]
  | c :: a :: b :: s =>
    if c = '%' then Char.ofNat (16 * (hexVal a).getD 0 + (hexVal b).getD 0) :: percentDecode s
    else c :: percentDecode (a :: b :: s)

theorem percentDecode_cons_of_ne {c : Char} (hc : c ≠ '%') (s : Text) : percentDecode (c :: s) = c :: percentDecode s := by
  match s with
  | [] => rfl
  | [a] => rfl
  | a :: b :: s => rw [percentDecode, if_neg hc]

theorem WellEscaped.tail {c : Char} {s : Text} (h : WellEscaped (c :: s)) : WellEscaped s := fun i hi => h (i + 1) hi

theorem wellEscaped_nil : WellEscaped [] := fun _ hi => absurd hi (by simp)

theorem WellEscaped.cons {c : Char} (hc : c ≠ '%') {s : Text} (h : WellEscaped s) : WellEscaped (c :: s) := by
  intro i hi
  cases i with
  | zero => exact absurd (Option.some.inj hi) hc
  | succ i => exact h i hi

theorem WellEscaped.cons_escape {a b : Char} (ha : isHex a = true) (hb : isHex b = true) (hzero : ¬(a = '0' ∧ b = '0'))
    {s : Text} (h : WellEscaped s) : WellEscaped ('%' :: a :: b :: s) := by
  intro i hi
  cases i with
  | zero => exact ⟨a, b, rfl, rfl, ha, hb, hzero⟩
  | succ i => exact (h.cons (isHex_ne hb (by decide))).cons (isHex_ne ha (by decide)) i hi

/-- A string that begins with an escape. -/
theorem WellEscaped.escape {s : Text} (h : WellEscaped ('%' :: s)) :
    ∃ a b u, s = a :: b :: u ∧ isHex a = true ∧ isHex b = true ∧ ¬(a = '0' ∧ b = '0') ∧ WellEscaped u := by
  obtain ⟨a, b, ha, hb, hhex, hhex', hzero⟩ := h 0 rfl
  match s, h, ha, hb with
  | x :: y :: u, h, ha, hb =>
    obtain rfl := Option.some.inj ha
    obtain rfl := Option.some.inj hb
    exact ⟨x, y, u, rfl, hhex, hhex', hzero, h.tail.tail.tail⟩

/-- Induction along a well-formed string, an escape at a time. -/
theorem WellEscaped.induct {motive : (s : Text) → WellEscaped s → Prop} (nil : ∀ h, motive [] h)
    (keep : ∀ c s h, c ≠ '%' → motive s h.tail → motive (c :: s) h)
    (escape : ∀ a b s h hs, isHex a = true → isHex b = true → ¬(a = '0' ∧ b = '0') → motive s hs →
      motive ('%' :: a :: b :: s) h) {s : Text} (h : WellEscaped s) : motive s h := by
  induction hn : s.length using Nat.strong_induction_on generalizing s with
  | _ n ih =>
    subst hn
    cases s with
    | nil => exact nil h
    | cons c s =>
      by_cases hp : c = '%'
      · subst hp
        obtain ⟨a, b, u, rfl, ha, hb, hzero, hu⟩ := h.escape
        exact escape a b u h hu ha hb hzero (ih u.length (by simp only [List.length_cons]; omega) hu rfl)
      · exact keep c s h hp (ih s.length (Nat.lt_succ_self _) h.tail rfl)

/-- What one digit denotes. -/
theorem hexPart_toupper {a : Char} (ha : isHex a = true) :
    hexPart (toupper a) = ((hexVal a).getD 0 : ℕ) ∧ (hexVal a).getD 0 < 16 ∧ ((hexVal a).getD 0 = 0 ↔ a = '0') := by
  have hall : ∀ a ∈ "0123456789ABCDEFabcdef".toList,
      hexPart (toupper a) = ((hexVal a).getD 0 : ℕ) ∧ (hexVal a).getD 0 < 16 ∧ ((hexVal a).getD 0 = 0 ↔ a = '0') := by
    exact forall_mem_of_all (by decide)
  exact hall a (List.contains_iff_mem.mp ha)

theorem hexByte_eq {a b : Char} (ha : isHex a = true) (hb : isHex b = true) :
    hexByte a b = Char.ofNat (16 * (hexVal a).getD 0 + (hexVal b).getD 0) := by
  obtain ⟨hpart, hlt, -⟩ := hexPart_toupper ha
  obtain ⟨hpart', hlt', -⟩ := hexPart_toupper hb
  rw [hexByte, hpart, hpart']
  congr 1
  omega

theorem ofNat_ne_nul {n : ℕ} (hpos : n ≠ 0) (hlt : n < 256) : Char.ofNat n ≠ nul := by
  have hvalid : n.isValidChar := .inl (by omega)
  intro h
  rw [Char.ofNat, dif_pos hvalid] at h
  exact hpos (congrArg Char.toNat h)

theorem hexByte_ne_nul {a b : Char} (ha : isHex a = true) (hb : isHex b = true) (hzero : ¬(a = '0' ∧ b = '0')) :
    hexByte a b ≠ nul := by
  obtain ⟨-, hlt, hiff⟩ := hexPart_toupper ha
  obtain ⟨-, hlt', hiff'⟩ := hexPart_toupper hb
  rw [hexByte_eq ha hb]
  refine ofNat_ne_nul (fun h => hzero ?_) (by omega)
  exact ⟨hiff.mp (by omega), hiff'.mp (by omega)⟩

theorem strchrHex_of_isHex {a : Char} (ha : isHex a = true) : strchrHex a = true := by
  rw [strchrHex, ha, Bool.true_or]

/-- **A well-formed string is decoded**, whatever stands behind it. -/
theorem unescape_of_wellEscaped {s : Text} (h : WellEscaped s) (hs : nul ∉ s) (rest : List Char) :
    unescape (s ++ rest) = (unescape rest).map (percentDecode s ++ ·) := by
  induction h using WellEscaped.induct with
  | nil => simp [percentDecode]
  | keep c s _ hp ih =>
    rw [List.mem_cons, not_or] at hs
    rw [percentDecode_cons_of_ne hp, List.cons_append, unescape_keep (Ne.symm hs.1) hp, ih hs.2, Option.map_map]
    rfl
  | escape a b s _ _ ha hb hzero ih =>
    simp only [List.mem_cons, not_or] at hs
    rw [percentDecode, if_pos rfl, ← hexByte_eq ha hb, List.cons_append, List.cons_append, List.cons_append,
      unescape_escape (strchrHex_of_isHex ha) (strchrHex_of_isHex hb), ih hs.2.2.2, Option.map_map]
    rfl

theorem nul_not_mem_percentDecode {s : Text} (h : WellEscaped s) (hs : nul ∉ s) : nul ∉ percentDecode s := by
  induction h using WellEscaped.induct with
  | nil => exact List.not_mem_nil
  | keep c s _ hp ih =>
    rw [List.mem_cons, not_or] at hs
    rw [percentDecode_cons_of_ne hp, List.mem_cons, not_or]
    exact ⟨hs.1, ih hs.2⟩
  | escape a b s _ _ ha hb hzero ih =>
    simp only [List.mem_cons, not_or] at hs
    rw [percentDecode, if_pos rfl, ← hexByte_eq ha hb, List.mem_cons, not_or]
    exact ⟨Ne.symm (hexByte_ne_nul ha hb hzero), ih hs.2.2.2⟩

theorem unescape_nul (s : List Char) : unescape (nul :: s) = some [] := by
  rw [unescape.eq_def]
  exact if_pos rfl

/-- **A well-formed string** comes out unescaped. -/
theorem decodeValue_of_wellEscaped {s : Text} (h : WellEscaped s) (hs : nul ∉ s) :
    decodeValue s = some (percentDecode s) := by
  rw [decodeValue_eq, unescape_of_wellEscaped h hs, unescape_nul, Option.map_some, Option.map_some, List.append_nil,
    cstr_of_not_mem (nul_not_mem_percentDecode h hs)]

/-! ## A line that is decoded with what follows it -/

/-- What the decoder makes of a text in front of a line break. -/
def decodeLine : Text → Text
  | [] => []
  | c :: s =>
    if c = '%' then
      match s with
      | [] => []
      | a :: t =>
        match t with
        | [] => decodeLine [a]
        | b :: u => if isHex a = true ∧ isHex b = true then hexByte a b :: decodeLine u else decodeLine (a :: b :: u)
    else c :: decodeLine s

/-- **The decoder goes on behind a line break** as if nothing stood in front of it. -/
theorem unescape_line {w : Text} (hw : nul ∉ w) (rest : List Char) :
    unescape (w ++ '\n' :: rest) = (unescape rest).map (decodeLine w ++ '\n' :: ·) := by
  have hbreak : unescape ('\n' :: rest) = (unescape rest).map ('\n' :: ·) := unescape_keep (by decide) (by decide)
  fun_induction decodeLine w with
  | case1 => exact hbreak
  | case2 => rw [List.cons_append, List.nil_append, unescape_skip (by decide), hbreak]; rfl
  | case3 a ih =>
    simp only [List.mem_cons, not_or] at hw
    have hrest := ih (by simpa using hw.2.1)
    -- the line break is no digit
    rw [← hrest, List.cons_append, List.cons_append, List.nil_append]
    cases ha : strchrHex a with
    | false => exact unescape_skip ha
    | true => exact unescape_skip_digit ha (by decide)
  | case4 a b u h ih =>
    simp only [List.mem_cons, not_or] at hw
    rw [List.cons_append, List.cons_append, List.cons_append, unescape_escape (strchrHex_of_isHex h.1)
      (strchrHex_of_isHex h.2), ih hw.2.2.2, Option.map_map]
    rfl
  | case5 a b u h ih =>
    simp only [List.mem_cons, not_or] at hw
    rw [← ih (by simpa [not_or] using hw.2), List.cons_append, List.cons_append, List.cons_append]
    cases ha : strchrHex a with
    | false => exact unescape_skip ha
    | true =>
      rw [strchrHex_of_ne (Ne.symm hw.2.1)] at ha
      refine unescape_skip_digit (strchrHex_of_isHex ha) ?_
      rw [strchrHex_of_ne (Ne.symm hw.2.2.1)]
      exact Bool.eq_false_iff.mpr fun hb => h ⟨ha, hb⟩
  | case6 c s hp ih =>
    rw [List.mem_cons, not_or] at hw
    rw [List.cons_append, unescape_keep (Ne.symm hw.1) hp, ih hw.2, Option.map_map]
    rfl

theorem decodeLine_of_not_mem {w : Text} (hw : '%' ∉ w) : decodeLine w = w := by
  induction w with
  | nil => rfl
  | cons c w ih =>
    rw [List.mem_cons, not_or] at hw
    rw [decodeLine.eq_def]
    simp only [if_neg (Ne.symm hw.1), ih hw.2]

/-- **A `%` makes it shorter.** -/
theorem length_decodeLine (w : Text) :
    (decodeLine w).length ≤ w.length ∧ ('%' ∈ w → (decodeLine w).length < w.length) := by
  fun_induction decodeLine w with
  | case1 => simp
  | case2 => simp
  | case3 a ih =>
    simp only [List.length_cons] at ih ⊢
    omega
  | case4 a b u h ih =>
    simp only [List.length_cons]
    omega
  | case5 a b u h ih =>
    simp only [List.length_cons] at ih ⊢
    omega
  | case6 c s hp ih =>
    refine ⟨Nat.succ_le_succ ih.1, fun hmem => Nat.succ_lt_succ (ih.2 ?_)⟩
    exact (List.mem_cons.mp hmem).resolve_left (Ne.symm hp)

end Rrdtool.Cgi
