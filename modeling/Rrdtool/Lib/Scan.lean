import Rrdtool.Lib.Decimal

/-!
# Scanning up to a separator

A number or a word that `sscanf` reads ends before a character that cannot be part of it. So the conversions
of a text with a separator in it are those of the part in front of the separator.

* `Separator` — a character that no number goes on with;
* `scanDouble_append`, `scanSet_append`, `scanWord_append` — the conversions, up to a separator.
-/

namespace CStr

/-- To be decided along the text. -/
theorem forall_mem_of_all {p : Char → Prop} [DecidablePred p] {w : Text} (h : w.all (p ·) = true) : ∀ c ∈ w, p c :=
  fun c hc => of_decide_eq_true (List.all_eq_true.mp h c hc)

/-- **No number and no word of a number goes on with this character.** -/
structure Separator (sep : Char) : Prop where
  space : isspace sep = false
  digit : isdigit sep = false
  hex : (hexVal sep).isSome = false
  sign : sep ≠ '+' ∧ sep ≠ '-'
  point : sep ≠ '.'
  letter : ∀ c ∈ "0xinftyaep".toList, tolower sep ≠ c

theorem separator_comma : Separator ',' where
  space := by decide
  digit := by decide
  hex := by decide
  sign := by decide
  point := by decide
  letter := forall_mem_of_all (by decide)

variable {sep : Char}

/-- A run of characters ends at the separator. -/
theorem span_append {p : Char → Bool} (hp : p sep = false) (t s : Text) :
    (t ++ sep :: s).span p = ((t.span p).1, (t.span p).2 ++ sep :: s) := by
  rw [List.span_eq_takeWhile_dropWhile, List.span_eq_takeWhile_dropWhile]
  induction t with
  | nil => simp [hp]
  | cons c t ih =>
    obtain ⟨htake, hdrop⟩ := Prod.mk.inj ih
    rw [List.cons_append, List.takeWhile_cons, List.dropWhile_cons, List.takeWhile_cons,
      List.dropWhile_cons]
    split_ifs
    · rw [htake, hdrop]
    · rfl

theorem dropWhile_append {p : Char → Bool} (hp : p sep = false) (t s : Text) :
    (t ++ sep :: s).dropWhile p = t.dropWhile p ++ sep :: s := by
  have h := congrArg Prod.snd (span_append hp t s)
  rwa [List.span_eq_takeWhile_dropWhile, List.span_eq_takeWhile_dropWhile] at h

theorem takeWhile_append {p : Char → Bool} (hp : p sep = false) (t s : Text) :
    (t ++ sep :: s).takeWhile p = t.takeWhile p := by
  have h := congrArg Prod.fst (span_append hp t s)
  rwa [List.span_eq_takeWhile_dropWhile, List.span_eq_takeWhile_dropWhile] at h

theorem takeSign_append (h : Separator sep) (t s : Text) :
    takeSign (t ++ sep :: s) = ((takeSign t).1, (takeSign t).2 ++ sep :: s) := by
  obtain ⟨hplus, hminus⟩ := h.sign
  cases t with
  | nil => simp [takeSign, hplus, hminus]
  | cons c t =>
    by_cases hp : c = '+'
    · subst hp
      rfl
    · by_cases hm : c = '-'
      · subst hm
        rfl
      · simp [takeSign, hp, hm]

theorem dropPrefixCI_append {w : Text} (hw : tolower sep ∉ w) (t s : Text) :
    dropPrefixCI w (t ++ sep :: s) = (dropPrefixCI w t).map (· ++ sep :: s) := by
  induction w generalizing t with
  | nil => rfl
  | cons p w ih =>
    rw [List.mem_cons, not_or] at hw
    cases t with
    | nil => simp [dropPrefixCI, hw.1]
    | cons c t =>
      rw [List.cons_append, dropPrefixCI, dropPrefixCI]
      split_ifs
      · exact ih hw.2 t
      · rfl

/-- The digits after the point, and what follows them. -/
def fraction (isdig : Char → Bool) : Text → Text × Text
  | '.' :: r => r.span isdig
  | r => ([], r)

/-- What follows a point without digits. -/
def dropPoint : Text → Text
  | '.' :: r => r
  | r => r

theorem fraction_of_ne {isdig : Char → Bool} {c : Char} (hc : c ≠ '.') (r : Text) :
    fraction isdig (c :: r) = ([], c :: r) := by
  rw [fraction.eq_def]
  split
  · rename_i heq
    exact absurd (List.cons.inj heq).1 hc
  · rfl

theorem dropPoint_of_ne {c : Char} (hc : c ≠ '.') (r : Text) : dropPoint (c :: r) = c :: r := by
  rw [dropPoint.eq_def]
  split
  · rename_i heq
    exact absurd (List.cons.inj heq).1 hc
  · rfl

theorem takeMantissa_eq (isdig : Char → Bool) (s : Text) :
    takeMantissa isdig s =
      if (s.span isdig).1 = [] ∧ (fraction isdig (s.span isdig).2).1 = [] then none
      else some ((s.span isdig).1, (fraction isdig (s.span isdig).2).1,
        if (s.span isdig).1 ≠ [] ∧ (fraction isdig (s.span isdig).2).1 = [] then dropPoint (s.span isdig).2
        else (fraction isdig (s.span isdig).2).2) := by
  rw [takeMantissa]
  dsimp only
  cases (s.span isdig).2 with
  | nil => rfl
  | cons c r =>
    by_cases hc : c = '.'
    · subst hc
      rfl
    · rw [fraction_of_ne hc, dropPoint_of_ne hc]
      simp [hc]

theorem fraction_append {isdig : Char → Bool} (h : Separator sep) (hdig : isdig sep = false) (t s : Text) :
    fraction isdig (t ++ sep :: s) = ((fraction isdig t).1, (fraction isdig t).2 ++ sep :: s) := by
  cases t with
  | nil => exact fraction_of_ne h.point s
  | cons c t =>
    by_cases hc : c = '.'
    · subst hc
      exact span_append hdig t s
    · rw [List.cons_append, fraction_of_ne hc, fraction_of_ne hc]
      rfl

theorem dropPoint_append (h : Separator sep) (t s : Text) :
    dropPoint (t ++ sep :: s) = dropPoint t ++ sep :: s := by
  cases t with
  | nil => exact dropPoint_of_ne h.point s
  | cons c t =>
    by_cases hc : c = '.'
    · subst hc
      rfl
    · rw [List.cons_append, dropPoint_of_ne hc, dropPoint_of_ne hc]
      rfl

theorem takeMantissa_append {isdig : Char → Bool} (h : Separator sep) (hdig : isdig sep = false) (t s : Text) :
    takeMantissa isdig (t ++ sep :: s) =
      (takeMantissa isdig t).map fun m => (m.1, m.2.1, m.2.2 ++ sep :: s) := by
  rw [takeMantissa_eq, takeMantissa_eq, span_append hdig]
  dsimp only
  rw [fraction_append h hdig, dropPoint_append h]
  split_ifs
  · rfl
  · rfl
  · rfl

theorem takeExponent_append {mark : Char} (h : Separator sep) (hmark : tolower sep ≠ mark) (t s : Text) :
    takeExponent mark (t ++ sep :: s) = ((takeExponent mark t).1, (takeExponent mark t).2 ++ sep :: s) := by
  cases t with
  | nil => simp [takeExponent, hmark]
  | cons c t =>
    rw [List.cons_append, takeExponent, takeExponent]
    dsimp only
    by_cases hc : tolower c = mark
    · rw [if_pos hc, if_pos hc, takeSign_append h]
      dsimp only
      rw [span_append h.digit]
      cases hspan : (takeSign t).2.span isdigit with
      | mk ds rest =>
        cases ds with
        | nil => rfl
        | cons d ds => rfl
    · rw [if_neg hc, if_neg hc]
      rfl

theorem finishStrtod_append (neg : Bool) (q : ℚ) (r s : Text) :
    finishStrtod neg q (r ++ s) = { finishStrtod neg q r with rest := (finishStrtod neg q r).rest ++ s } := by
  rw [finishStrtod, finishStrtod]
  split_ifs
  · rfl
  · rfl
  · rfl
  · rfl

theorem strtodUnsigned_append (h : Separator sep) (neg : Bool) (t s : Text) :
    strtodUnsigned neg (t ++ sep :: s) =
      (strtodUnsigned neg t).map fun r => { r with rest := r.rest ++ sep :: s } := by
  have hword (w : String) (hw : ∀ c ∈ w.toList, c ∈ "0xinftyaep".toList) : tolower sep ∉ w.toList :=
    fun hmem => h.letter _ (hw _ hmem) rfl
  have hhex : (dropPrefixCI "0x".toList (t ++ sep :: s) >>= takeMantissa fun c => (hexVal c).isSome) =
      (dropPrefixCI "0x".toList t >>= takeMantissa fun c => (hexVal c).isSome).map
        fun m => (m.1, m.2.1, m.2.2 ++ sep :: s) := by
    rw [dropPrefixCI_append (hword "0x" (forall_mem_of_all (by decide)))]
    cases dropPrefixCI "0x".toList t with
    | none => rfl
    | some r => exact takeMantissa_append h h.hex r s
  rw [strtodUnsigned, strtodUnsigned, hhex]
  cases dropPrefixCI "0x".toList t >>= takeMantissa fun c => (hexVal c).isSome with
  | some m =>
    obtain ⟨ip, fp, r⟩ := m
    simp only [Option.map_some, takeExponent_append h (h.letter 'p' (by decide)),
      finishStrtod_append]
  | none =>
    simp only [Option.map_none, takeMantissa_append h h.digit]
    cases takeMantissa isdigit t with
    | some m =>
      obtain ⟨ip, fp, r⟩ := m
      simp only [Option.map_some, takeExponent_append h (h.letter 'e' (by decide)),
        finishStrtod_append]
    | none =>
      simp only [Option.map_none, dropPrefixCI_append (hword "infinity" (forall_mem_of_all (by decide))),
        dropPrefixCI_append (hword "inf" (forall_mem_of_all (by decide))),
        dropPrefixCI_append (hword "nan" (forall_mem_of_all (by decide)))]
      cases dropPrefixCI "infinity".toList t with
      | some r => rfl
      | none =>
        cases dropPrefixCI "inf".toList t with
        | some r => rfl
        | none =>
          cases dropPrefixCI "nan".toList t with
          | some r => rfl
          | none => rfl

theorem strtod_append (h : Separator sep) (t s : Text) :
    strtod (t ++ sep :: s) = { strtod t with rest := (strtod t).rest ++ sep :: s } := by
  rw [strtod, strtod, dropWhile_append h.space]
  dsimp only
  rw [takeSign_append h]
  dsimp only
  rw [strtodUnsigned_append h]
  cases strtodUnsigned (takeSign (t.dropWhile isspace)).1 (takeSign (t.dropWhile isspace)).2 with
  | none => rfl
  | some r => rfl

/-! ## What is left is a part of the text -/

theorem takeSign_suffix (s : Text) : (takeSign s).2 <:+ s := by
  cases s with
  | nil => exact List.suffix_rfl
  | cons c s =>
    by_cases hp : c = '+'
    · subst hp
      exact List.suffix_cons _ _
    · by_cases hm : c = '-'
      · subst hm
        exact List.suffix_cons _ _
      · simp [takeSign, hp, hm]

theorem dropPrefixCI_suffix {w s r : Text} (h : dropPrefixCI w s = some r) : r <:+ s := by
  induction w generalizing s with
  | nil =>
    obtain rfl := Option.some.inj h
    exact List.suffix_rfl
  | cons p w ih =>
    cases s with
    | nil => exact absurd h (by simp [dropPrefixCI])
    | cons c s =>
      rw [dropPrefixCI] at h
      split_ifs at h
      exact (ih h).trans (List.suffix_cons c s)

theorem span_suffix (p : Char → Bool) (s : Text) : (s.span p).2 <:+ s := by
  rw [List.span_eq_takeWhile_dropWhile]
  exact List.dropWhile_suffix p

theorem fraction_suffix (isdig : Char → Bool) (s : Text) : (fraction isdig s).2 <:+ s := by
  cases s with
  | nil => exact List.suffix_rfl
  | cons c s =>
    by_cases hc : c = '.'
    · subst hc
      exact (span_suffix isdig s).trans (List.suffix_cons _ s)
    · exact fraction_of_ne hc s ▸ List.suffix_rfl

theorem dropPoint_suffix (s : Text) : dropPoint s <:+ s := by
  cases s with
  | nil => exact List.suffix_rfl
  | cons c s =>
    by_cases hc : c = '.'
    · subst hc
      exact List.suffix_cons _ s
    · exact ⟨[], dropPoint_of_ne hc s⟩

theorem takeMantissa_suffix {isdig : Char → Bool} {s : Text} {m : Text × Text × Text}
    (h : takeMantissa isdig s = some m) : m.2.2 <:+ s := by
  rw [takeMantissa_eq] at h
  split_ifs at h
  · obtain rfl := Option.some.inj h
    exact (dropPoint_suffix _).trans (span_suffix isdig s)
  · obtain rfl := Option.some.inj h
    exact (fraction_suffix isdig _).trans (span_suffix isdig s)

theorem takeExponent_suffix (mark : Char) (s : Text) : (takeExponent mark s).2 <:+ s := by
  cases s with
  | nil => exact List.suffix_rfl
  | cons c s =>
    rw [takeExponent]
    dsimp only
    split_ifs
    · cases hspan : (takeSign s).2.span isdigit with
      | mk ds rest =>
        cases ds with
        | nil => exact List.suffix_rfl
        | cons d ds =>
          have hrest : rest <:+ (takeSign s).2 := by
            have h := span_suffix isdigit (takeSign s).2
            rwa [hspan] at h
          exact (hrest.trans (takeSign_suffix s)).trans (List.suffix_cons c s)
    · cases hspan : (takeSign s).2.span isdigit with
      | mk ds rest =>
        cases ds with
        | nil => exact List.suffix_rfl
        | cons d ds =>
          have hrest : rest <:+ (takeSign s).2 := by
            have h := span_suffix isdigit (takeSign s).2
            rwa [hspan] at h
          exact (hrest.trans (takeSign_suffix s)).trans (List.suffix_cons c s)
    · exact List.suffix_rfl

theorem finishStrtod_rest (neg : Bool) (q : ℚ) (r : Text) : (finishStrtod neg q r).rest = r := by
  rw [finishStrtod]
  split_ifs
  · rfl
  · rfl
  · rfl
  · rfl

theorem strtodUnsigned_suffix {neg : Bool} {s : Text} {r : Strtod} (h : strtodUnsigned neg s = some r) :
    r.rest <:+ s := by
  rw [strtodUnsigned] at h
  cases hhex : dropPrefixCI "0x".toList s >>= takeMantissa fun c => (hexVal c).isSome with
  | some m =>
    obtain ⟨ip, fp, t⟩ := m
    simp only [hhex] at h
    obtain rfl := Option.some.inj h
    rw [finishStrtod_rest]
    obtain ⟨u, hu, hm⟩ := Option.bind_eq_some_iff.mp hhex
    exact ((takeExponent_suffix 'p' t).trans (takeMantissa_suffix hm)).trans (dropPrefixCI_suffix hu)
  | none =>
    simp only [hhex] at h
    cases hm : takeMantissa isdigit s with
    | some m =>
      obtain ⟨ip, fp, t⟩ := m
      simp only [hm] at h
      obtain rfl := Option.some.inj h
      rw [finishStrtod_rest]
      exact (takeExponent_suffix 'e' t).trans (takeMantissa_suffix hm)
    | none =>
      simp only [hm] at h
      cases h1 : dropPrefixCI "infinity".toList s with
      | some t =>
        simp only [h1] at h
        obtain rfl := Option.some.inj h
        exact dropPrefixCI_suffix h1
      | none =>
        cases h2 : dropPrefixCI "inf".toList s with
        | some t =>
          simp only [h1, h2] at h
          obtain rfl := Option.some.inj h
          exact dropPrefixCI_suffix h2
        | none =>
          cases h3 : dropPrefixCI "nan".toList s with
          | some t =>
            simp only [h1, h2, h3] at h
            obtain rfl := Option.some.inj h
            exact dropPrefixCI_suffix h3
          | none =>
            simp only [h1, h2, h3] at h
            exact absurd h (by simp)

theorem strtod_suffix (s : Text) : (strtod s).rest <:+ s := by
  rw [strtod]
  dsimp only
  cases h : strtodUnsigned (takeSign (s.dropWhile isspace)).1 (takeSign (s.dropWhile isspace)).2 with
  | none => exact List.suffix_rfl
  | some r =>
    exact ((strtodUnsigned_suffix h).trans (takeSign_suffix _)).trans (List.dropWhile_suffix _)

theorem scanDouble_suffix {s r : Text} {v : Dbl} (h : scanDouble s = some (v, r)) : r <:+ s := by
  rw [scanDouble] at h
  split_ifs at h
  obtain ⟨-, rfl⟩ := Prod.mk.inj (Option.some.inj h)
  exact strtod_suffix s

/-! ## `sscanf` up to a separator -/

/-- Only the first character that is left matters. -/
theorem breaksOff_cons (item r s : Text) (c : Char) : breaksOff item (c :: r) = breaksOff item (c :: s) := by
  simp only [breaksOff, List.map_cons]
  generalize tolower c = d
  by_cases he : d = 'e'
  · subst he
    rfl
  by_cases hp : d = 'p'
  · subst hp
    rfl
  by_cases hx : d = 'x'
  · subst hx
    rfl
  by_cases hi : d = 'i'
  · subst hi
    rfl
  simp [he, hp, hx, hi]

theorem breaksOff_append (h : Separator sep) (item r s : Text) :
    breaksOff item (r ++ sep :: s) = breaksOff item r := by
  cases r with
  | nil =>
    have he := h.letter 'e' (by decide)
    have hp := h.letter 'p' (by decide)
    have hx := h.letter 'x' (by decide)
    have hi := h.letter 'i' (by decide)
    simp [breaksOff, he, hp, hx, hi]
  | cons c r => exact breaksOff_cons item (r ++ sep :: s) r c

/-- **A number is read up to the separator.** -/
theorem scanDouble_append (h : Separator sep) (t s : Text) :
    scanDouble (t ++ sep :: s) = (scanDouble t).map fun p => (p.1, p.2 ++ sep :: s) := by
  have hle := (strtod_suffix t).length_le
  have hitem : (t ++ sep :: s).take ((t ++ sep :: s).length - ((strtod t).rest ++ sep :: s).length) =
      t.take (t.length - (strtod t).rest.length) := by
    have hlen : (t ++ sep :: s).length - ((strtod t).rest ++ sep :: s).length =
        t.length - (strtod t).rest.length := by
      simp only [List.length_append]
      omega
    rw [hlen, List.take_append_of_le_length (by omega)]
  rw [scanDouble, scanDouble, strtod_append h]
  dsimp only
  rw [hitem, breaksOff_append h]
  have hlen : ((strtod t).rest ++ sep :: s).length < (t ++ sep :: s).length ↔
      (strtod t).rest.length < t.length := by
    simp only [List.length_append]
    omega
  simp only [hlen]
  split_ifs
  · rfl
  · rfl

theorem take_append_sep {t s : Text} {n : ℕ} :
    (t ++ sep :: s).take n = t.take n ∨ ∃ u, (t ++ sep :: s).take n = t ++ sep :: u ∧ t.take n = t := by
  rcases Nat.lt_or_ge t.length n with hn | hn
  · refine .inr ⟨s.take (n - t.length - 1), ?_, List.take_of_length_le (by omega)⟩
    rw [List.take_append, List.take_of_length_le (by omega)]
    obtain ⟨k, hk⟩ : ∃ k, n - t.length = k + 1 := ⟨n - t.length - 1, by omega⟩
    rw [hk, List.take_succ_cons, Nat.add_sub_cancel]
  · exact .inl (List.take_append_of_le_length hn)

/-- **A field is read up to the separator.** -/
theorem scanSet_append {width : ℕ} {p : Char → Bool} (hp : p sep = false) (t s : Text) :
    scanSet width p (t ++ sep :: s) = (scanSet width p t).map fun f => (f.1, f.2 ++ sep :: s) := by
  have hfield : ((t ++ sep :: s).take width).takeWhile p = (t.take width).takeWhile p := by
    rcases @take_append_sep sep t s width with h | ⟨u, h, ht⟩
    · rw [h]
    · rw [h, ht]
      exact takeWhile_append hp t u
  have hle : ((t.take width).takeWhile p).length ≤ t.length :=
    (List.takeWhile_prefix p).length_le.trans (List.length_take_le' width t)
  rw [scanSet, scanSet, hfield]
  split_ifs
  · rfl
  · rw [List.drop_append_of_le_length hle]
    rfl

/-- A word of the format in front of the separator. -/
theorem scanWord_append {w : Text} (hw : sep ∉ w) (t s : Text) :
    scanWord w (t ++ sep :: s) = (scanWord w t).map (· ++ sep :: s) := by
  induction w generalizing t with
  | nil => rfl
  | cons c w ih =>
    rw [List.mem_cons, not_or] at hw
    rw [scanWord, scanWord]
    cases t with
    | nil => simp [scanChar, hw.1]
    | cons d t =>
      rw [List.cons_append, scanChar, scanChar]
      split_ifs
      · exact ih hw.2 t
      · rfl

/-! ## Decimal numbers -/

/-- **A decimal number**: a sign, digits with a point, an exponent. -/
def isDecimal (t : Text) : Bool :=
  match takeMantissa isdigit (takeSign t).2 with
  | some (_, _, r) => decide ((takeExponent 'e' r).2 = [])
  | none => false

theorem takeMantissa_cons_none {c : Char} (hdigit : isdigit c = false) (hpoint : c ≠ '.') (s : Text) :
    takeMantissa isdigit (c :: s) = none := by
  have hspan : (c :: s).span isdigit = ([], c :: s) := by
    rw [List.span_eq_takeWhile_dropWhile]
    simp [hdigit]
  rw [takeMantissa_eq, hspan]
  dsimp only
  rw [fraction_of_ne hpoint]
  simp

/-- A character that is no capital letter is its own small letter. -/
theorem tolower_of_digit {c : Char} (h : isdigit c = true) : tolower c = c := by
  have hbounds := Decimal.isdigit_bounds h
  rw [tolower, if_neg]
  rintro ⟨hA, -⟩
  have hge : 65 ≤ c.toNat := hA
  omega

theorem tolower_eq_zero {c : Char} (h : tolower c = '0') : c = '0' := by
  rw [tolower] at h
  split_ifs at h with hupper
  · obtain ⟨hA, hZ⟩ := hupper
    have hge : 65 ≤ c.toNat := hA
    have hle : c.toNat ≤ 90 := hZ
    generalize c.toNat = n at h hge hle
    interval_cases n <;> exact absurd h (by decide)
  · exact h

/-- A hexadecimal number is no decimal one. -/
theorem takeMantissa_hex {s r : Text} (h : dropPrefixCI "0x".toList s = some r) :
    ∃ x, tolower x = 'x' ∧ takeMantissa isdigit s = some (['0'], [], x :: r) := by
  cases s with
  | nil => exact absurd h (by simp [dropPrefixCI])
  | cons c s =>
    change dropPrefixCI ('0' :: ['x']) (c :: s) = some r at h
    rw [dropPrefixCI] at h
    split_ifs at h with h0
    obtain rfl := tolower_eq_zero h0
    cases s with
    | nil => exact absurd h (by simp [dropPrefixCI])
    | cons x s =>
      rw [dropPrefixCI] at h
      split_ifs at h with hx
      obtain rfl : s = r := Option.some.inj h
      have hdigit : isdigit x = false := by
        cases hd : isdigit x with
        | false => rfl
        | true =>
          rw [tolower_of_digit hd] at hx
          subst hx
          exact absurd hd (by decide)
      have hpoint : x ≠ '.' := by
        rintro rfl
        exact absurd hx (by decide)
      have hspan : ('0' :: x :: s).span isdigit = (['0'], x :: s) := by
        rw [List.span_eq_takeWhile_dropWhile]
        simp [hdigit, show isdigit '0' = true from by decide]
      refine ⟨x, hx, ?_⟩
      rw [takeMantissa_eq, hspan]
      dsimp only
      rw [fraction_of_ne hpoint, dropPoint_of_ne hpoint]
      simp

/-- **A decimal number is scanned as a whole.** -/
theorem scanDouble_of_isDecimal {t : Text} (h : isDecimal t = true) : ∃ v, scanDouble t = some (v, []) := by
  rw [isDecimal] at h
  cases hm : takeMantissa isdigit (takeSign t).2 with
  | none => simp [hm] at h
  | some m =>
    obtain ⟨ip, fp, r⟩ := m
    simp only [hm, decide_eq_true_eq] at h
    -- a number does not begin with white space
    have hspace : t.dropWhile isspace = t := by
      cases t with
      | nil => rfl
      | cons c t =>
        rw [List.dropWhile_cons_of_neg]
        intro hc
        have hp : c ≠ '+' := by
          rintro rfl
          exact absurd hc (by decide)
        have hn : c ≠ '-' := by
          rintro rfl
          exact absurd hc (by decide)
        have hsign : takeSign (c :: t) = (false, c :: t) := by simp [takeSign, hp, hn]
        rw [hsign, takeMantissa_cons_none] at hm
        · exact absurd hm (by simp)
        · cases hdigit : isdigit c with
          | false => rfl
          | true =>
            rw [Decimal.not_isspace_of_isdigit hdigit] at hc
            exact absurd hc (by decide)
        · rintro rfl
          exact absurd hc (by decide)
    have hhex : (dropPrefixCI "0x".toList (takeSign t).2 >>= takeMantissa fun c => (hexVal c).isSome) = none := by
      cases hx : dropPrefixCI "0x".toList (takeSign t).2 with
      | none => rfl
      | some u =>
        obtain ⟨x, hxx, hmx⟩ := takeMantissa_hex hx
        rw [hm] at hmx
        obtain ⟨-, -, rfl⟩ : ip = ['0'] ∧ fp = [] ∧ r = x :: u := by simpa using hmx
        rw [takeExponent] at h
        simp [hxx] at h
    have hrest : (strtod t).rest = [] := by
      rw [strtod, hspace]
      dsimp only
      rw [strtodUnsigned, hhex]
      simp only [hm, Option.getD_some, finishStrtod_rest, h]
    have hne : t ≠ [] := by
      rintro rfl
      simp [takeSign, takeMantissa] at hm
    refine ⟨(strtod t).value, ?_⟩
    rw [scanDouble]
    rw [if_pos, hrest]
    rw [hrest]
    exact ⟨List.length_pos_iff.mpr hne, rfl⟩

/-! ## Digits -/

theorem takeMantissa_digits {ds : Text} (hds : ∀ c ∈ ds, isdigit c = true) (hne : ds ≠ []) :
    takeMantissa isdigit ds = some (ds, [], []) := by
  have hspan : ds.span isdigit = (ds, []) := by
    rw [List.span_eq_takeWhile_dropWhile, List.takeWhile_eq_self_iff.mpr hds, List.dropWhile_eq_nil_iff.mpr hds]
  rw [takeMantissa_eq, hspan]
  simp [fraction, dropPoint, hne]

/-- **`strtod` takes a run of digits as a whole.** -/
theorem strtodUnsigned_digits (neg : Bool) {ds : Text} (hds : ∀ c ∈ ds, isdigit c = true) (hne : ds ≠ []) :
    strtodUnsigned neg ds = some (finishStrtod neg (digitsVal ds) []) := by
  have hhex : dropPrefixCI "0x".toList ds = none := by
    cases h : dropPrefixCI "0x".toList ds with
    | none => rfl
    | some r =>
      obtain ⟨x, -, hm⟩ := takeMantissa_hex h
      rw [takeMantissa_digits hds hne] at hm
      simp at hm
  rw [strtodUnsigned, hhex, takeMantissa_digits hds hne]
  simp [takeExponent, powInt]

/-! ## Printed integers -/

theorem strtodUnsigned_printNat (neg : Bool) (n : ℕ) :
    strtodUnsigned neg (Decimal.printNat n) = some (finishStrtod neg n []) := by
  rw [strtodUnsigned_digits neg (Decimal.allDigits_printNat n) (Decimal.printNat_ne_nil n), Decimal.digitsVal_printNat]

theorem dropWhile_printInt (z : ℤ) : (Decimal.printInt z).dropWhile isspace = Decimal.printInt z := by
  rw [Decimal.printInt]
  split_ifs
  · exact List.dropWhile_cons_of_neg (by decide)
  · cases h : Decimal.printNat z.natAbs with
    | nil => rfl
    | cons c s =>
      have hd := Decimal.allDigits_printNat z.natAbs c (by simp [h])
      exact List.dropWhile_cons_of_neg (by simp [Decimal.not_isspace_of_isdigit hd])

theorem takeSign_printInt (z : ℤ) :
    takeSign (Decimal.printInt z) = (decide (z < 0), Decimal.printNat z.natAbs) := by
  rw [Decimal.printInt]
  split_ifs with hz
  · rw [decide_eq_true hz]
    rfl
  · rw [decide_eq_false hz]
    cases h : Decimal.printNat z.natAbs with
    | nil => rfl
    | cons c s =>
      exact Decimal.takeSign_digit (Decimal.allDigits_printNat z.natAbs c (by simp [h])) s

/-- **`%lf` reads back what `%d` wrote.** -/
theorem scanDouble_printInt {z : ℤ} (hz : (z.natAbs : ℚ) < dblOverflow) :
    scanDouble (Decimal.printInt z) = some (.num (z : ℚ), []) := by
  have hstrtod : strtod (Decimal.printInt z) = finishStrtod (decide (z < 0)) z.natAbs [] := by
    rw [strtod, dropWhile_printInt, takeSign_printInt]
    dsimp only
    rw [strtodUnsigned_printNat, Option.getD_some]
  have hvalue : (finishStrtod (decide (z < 0)) z.natAbs []).value = .num (z : ℚ) := by
    rw [finishStrtod, if_neg (not_le.mpr hz)]
    dsimp only
    congr 1
    by_cases hneg : z < 0
    · have habs : ((z.natAbs : ℕ) : ℤ) = -z := Int.ofNat_natAbs_of_nonpos hneg.le
      rw [decide_eq_true hneg, if_pos rfl, ← Int.cast_natCast, habs, Int.cast_neg, neg_neg]
    · have habs : ((z.natAbs : ℕ) : ℤ) = z := Int.natAbs_of_nonneg (not_lt.mp hneg)
      rw [decide_eq_false hneg, if_neg (by decide), ← Int.cast_natCast, habs]
  have hne : Decimal.printInt z ≠ [] := by
    rw [Decimal.printInt]
    split_ifs
    · simp
    · exact Decimal.printNat_ne_nil _
  rw [scanDouble, hstrtod, finishStrtod_rest, if_pos, hvalue]
  exact ⟨List.length_pos_iff.mpr hne, rfl⟩

end CStr
