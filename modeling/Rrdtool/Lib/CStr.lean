import Rrdtool.Lib.Dbl

/-!
# C strings and number conversion

A C string is the list of its characters, without the terminator. `strtod` follows the
C99 description in the `"C"` locale: leading white space, a sign, then a decimal number
with an optional exponent, a hexadecimal one, an infinity or a NaN. It hands back the
value, the unread rest (`*endptr`) and whether `errno` was set to `ERANGE`; where nothing
can be converted the value is zero and the rest is the whole input.
-/

/-- The text of a C string. -/
abbrev Text : Type := List Char

namespace CStr

/-- `isspace`. -/
def isspace (c : Char) : Bool :=
  c = ' ' || c = '\t' || c = '\n' || c = '\r' || c.toNat = 11 || c.toNat = 12

/-- `isdigit`. -/
def isdigit (c : Char) : Bool := decide ('0' ≤ c) && decide (c ≤ '9')

/-- The numeral of a decimal digit. -/
def digitVal (c : Char) : ℕ := c.toNat - '0'.toNat

/-- The number a run of decimal digits denotes. -/
def digitsVal (ds : Text) : ℕ := ds.foldl (fun n c => 10 * n + digitVal c) 0

/-- The numeral of a hexadecimal digit, if it is one. -/
def hexVal (c : Char) : Option ℕ :=
  if isdigit c then some (digitVal c)
  else if 'a' ≤ c ∧ c ≤ 'f' then some (c.toNat - 'a'.toNat + 10)
  else if 'A' ≤ c ∧ c ≤ 'F' then some (c.toNat - 'A'.toNat + 10)
  else none

/-- The number a run of hexadecimal digits denotes. -/
def hexDigitsVal (ds : Text) : ℕ := ds.foldl (fun n c => 16 * n + (hexVal c).getD 0) 0

/-- `tolower` on the letters of the C locale. -/
def tolower (c : Char) : Char := if 'A' ≤ c ∧ c ≤ 'Z' then Char.ofNat (c.toNat + 32) else c

/-- Strip `pat`, compared without case, from the front of `s`. -/
def dropPrefixCI : Text → Text → Option Text
  | [], s => some s
  | p :: ps, c :: s => if tolower c = p then dropPrefixCI ps s else none
  | _ :: _, [] => none

/-- An optional sign: is it a minus, and what follows. -/
def takeSign : Text → Bool × Text
  | '-' :: s => (true, s)
  | '+' :: s => (false, s)
  | s => (false, s)

/-- `base ^ z` for an integer exponent. -/
def powInt (base : ℚ) : ℤ → ℚ
  | .ofNat n => base ^ n
  | .negSucc n => 1 / base ^ (n + 1)

/-- The exponent part after the marker `mark` (`e` or `p`), if it is complete. -/
def takeExponent (mark : Char) (s : Text) : ℤ × Text :=
  match s with
  | c :: r =>
    if tolower c = mark then
      let (neg, r₁) := takeSign r
      match r₁.span isdigit with
      | ([], _) => (0, s)
      | (ds, rest) => (if neg then -(digitsVal ds : ℤ) else digitsVal ds, rest)
    else (0, s)
  | [] => (0, [])

/-- Digits with an optional point; `none` when there is no digit at all. -/
def takeMantissa (isdig : Char → Bool) (s : Text) : Option (Text × Text × Text) :=
  let (ip, r₁) := s.span isdig
  let (fp, r₂) := match r₁ with
    | '.' :: r => r.span isdig
    | _ => ([], r₁)
  if ip = [] ∧ fp = [] then none
  else some (ip, fp, if ip ≠ [] ∧ fp = [] then (match r₁ with | '.' :: r => r | _ => r₁) else r₂)

/-- What `strtod` hands back. -/
structure Strtod where
  /-- the converted value -/
  value : Dbl
  /-- the text `endptr` points to -/
  rest : Text
  /-- was `errno` set? -/
  erange : Bool
  deriving DecidableEq

/-- The least magnitude that rounds past the largest finite double. -/
def dblOverflow : ℚ := 2 ^ 1024 - 2 ^ 970

/-- The least positive normal double. -/
def dblMin : ℚ := 1 / 2 ^ 1022

/-- Sign and range check of a converted magnitude. -/
def finishStrtod (neg : Bool) (q : ℚ) (rest : Text) : Strtod :=
  if dblOverflow ≤ q then ⟨if neg then .neginf else .inf, rest, true⟩
  else ⟨.num (if neg then -q else q), rest, decide (0 < q ∧ q < dblMin)⟩

/-- `strtod` after the white space and the sign; `none` when there is no number. -/
def strtodUnsigned (neg : Bool) (s : Text) : Option Strtod :=
  match dropPrefixCI "0x".toList s >>= takeMantissa (fun c => (hexVal c).isSome) with
  | some (ip, fp, r) =>
    let (e, rest) := takeExponent 'p' r
    some (finishStrtod neg
      ((hexDigitsVal (ip ++ fp) : ℚ) * powInt 2 (e - 4 * fp.length)) rest)
  | none =>
    match takeMantissa isdigit s with
    | some (ip, fp, r) =>
      let (e, rest) := takeExponent 'e' r
      some (finishStrtod neg ((digitsVal (ip ++ fp) : ℚ) * powInt 10 (e - fp.length)) rest)
    | none =>
      match dropPrefixCI "infinity".toList s, dropPrefixCI "inf".toList s,
          dropPrefixCI "nan".toList s with
      | some rest, _, _ => some ⟨if neg then .neginf else .inf, rest, false⟩
      | none, some rest, _ => some ⟨if neg then .neginf else .inf, rest, false⟩
      | none, none, some rest => some ⟨.nan, rest, false⟩
      | none, none, none => none

/-- `strtod(s, &endptr)`. -/
def strtod (s : Text) : Strtod :=
  let (neg, r) := takeSign (s.dropWhile isspace)
  (strtodUnsigned neg r).getD ⟨.num 0, s, false⟩

/-- The digits of base `base` that `s` starts with. -/
def takeDigits (base : ℕ) (s : Text) : Text :=
  s.takeWhile fun c => (hexVal c).any fun d => decide (d < base)

/-- The number a run of digits of base `base` denotes. -/
def baseDigitsVal (base : ℕ) (ds : Text) : ℕ :=
  ds.foldl (fun n c => base * n + (hexVal c).getD 0) 0

/-- Base `0`: the text itself says in which base it is written. -/
def detectBase (s : Text) : ℕ × Text :=
  match dropPrefixCI "0x".toList s with
  | some r => if takeDigits 16 r = [] then (8, s) else (16, r)
  | none => if s.head? = some '0' then (8, s) else (10, s)

/-- The sign and the magnitude that `strtoul` and `strtoll` read in base `0`. -/
def readInteger (s : Text) : Bool × ℕ :=
  let (neg, r) := takeSign (s.dropWhile isspace)
  let (base, t) := detectBase r
  (neg, baseDigitsVal base (takeDigits base t))

/-- `strtoul(s, NULL, 0)`; `none` when `errno` is set. -/
def strtoul (s : Text) : Option ℕ :=
  let (neg, v) := readInteger s
  if 2 ^ 64 ≤ v then none else some (if neg then (2 ^ 64 - v) % 2 ^ 64 else v)

/-- `strtoll(s, NULL, 0)`; `none` when `errno` is set. -/
def strtoll (s : Text) : Option ℤ :=
  let (neg, v) := readInteger s
  if neg then (if 2 ^ 63 < v then none else some (-(v : ℤ)))
  else if 2 ^ 63 ≤ v then none else some v

/-- `strtol(s, NULL, 0)`; what does not fit is clamped. -/
def strtol (s : Text) : ℤ :=
  let (neg, v) := readInteger s
  if neg then max (-2 ^ 63) (-(v : ℤ)) else min (2 ^ 63 - 1) v

/-- `isupper` in the C locale. -/
def isupper (c : Char) : Bool := decide ('A' ≤ c) && decide (c ≤ 'Z')

/-- `isalpha` in the C locale. -/
def isalpha (c : Char) : Bool := isupper c || (decide ('a' ≤ c) && decide (c ≤ 'z'))

/-- `atof`. -/
def atof (s : Text) : Dbl := (strtod s).value

/-- A decimal integer, its sign and magnitude, and what follows it. -/
def scanDecimal (s : Text) : Option (Bool × ℕ × Text) :=
  let (neg, r) := takeSign (s.dropWhile isspace)
  match r.span isdigit with
  | ([], _) => none
  | (ds, rest) => some (neg, digitsVal ds, rest)

/-- `%lu` of `sscanf`; what does not fit is clamped. -/
def scanUlong (s : Text) : Option (ℕ × Text) :=
  (scanDecimal s).map fun (neg, v, rest) =>
    (if 2 ^ 64 ≤ v then 2 ^ 64 - 1 else if neg then (2 ^ 64 - v) % 2 ^ 64 else v, rest)

/-- `%ld` of `sscanf`; what does not fit is clamped. -/
def scanLong (s : Text) : Option (ℤ × Text) :=
  (scanDecimal s).map fun (neg, v, rest) =>
    (if neg then max (-2 ^ 63) (-(v : ℤ)) else min (2 ^ 63 - 1) (v : ℤ), rest)

/-- `atoi`: `strtol` in base ten, cut down to an `int`. -/
def atoi (s : Text) : ℤ := (((scanLong s).map Prod.fst).getD 0).bmod (2 ^ 32)

/-- Does a floating point number break off in the middle (`1e`, `0x`, `infin`)? `strtod` goes
back to the last complete number there, `sscanf` has already read past it and fails. -/
def breaksOff (item rest : Text) : Bool :=
  let item := item.map tolower
  match rest.map tolower with
  | 'e' :: _ => item.any isdigit && !item.contains 'e' && !item.contains 'x'
  | 'p' :: _ => item.contains 'x' && !item.contains 'p'
  | 'x' :: _ => item.filter isdigit = ['0'] && !item.contains '.'
  | 'i' :: _ => item.contains 'f' && !item.contains 'y'
  | _ => false

/-- `%lf` of `sscanf`. -/
def scanDouble (s : Text) : Option (Dbl × Text) :=
  let conv := strtod s
  if conv.rest.length < s.length ∧
      breaksOff (s.take (s.length - conv.rest.length)) conv.rest = false then
    some (conv.value, conv.rest)
  else none

/-- `%<width>[...]` of `sscanf`: the field, which is not empty, and what follows it. -/
def scanSet (width : ℕ) (p : Char → Bool) (s : Text) : Option (Text × Text) :=
  let w := (s.take width).takeWhile p
  if w = [] then none else some (w, s.drop w.length)

/-- A character of the format that has to come next. -/
def scanChar (c : Char) : Text → Option Text
  | [] => none
  | d :: s => if d = c then some s else none

/-- Strip a word of the format from the front of `s`. -/
def scanWord : Text → Text → Option Text
  | [], s => some s
  | c :: w, s => (scanChar c s).bind (scanWord w)

/-- `strncpy(dst, s, n)` followed by the terminator: the first `n` characters. -/
def strncpy (s : Text) (n : ℕ) : Text := s.take n

/-- Split at every occurrence of `sep`; there is always a first piece. -/
def splitOn (sep : Char) : Text → List Text
  | [] => [[]]
  | c :: s =>
    if c = sep then [] :: splitOn sep s
    else match splitOn sep s with
      | w :: ws => (c :: w) :: ws
      | [] => [[c]]

theorem splitOn_ne_nil (sep : Char) (s : Text) : splitOn sep s ≠ [] := by
  cases s with
  | nil => simp [splitOn]
  | cons c s =>
    rw [splitOn]
    split_ifs
    · simp
    · split <;> simp

/-- The pieces on both sides of a separator. -/
theorem splitOn_append (sep : Char) (s t : Text) :
    splitOn sep (s ++ sep :: t) = splitOn sep s ++ splitOn sep t := by
  induction s with
  | nil => simp [splitOn]
  | cons c s ih =>
    rw [List.cons_append, splitOn, splitOn, ih]
    split_ifs
    · rfl
    · cases hs : splitOn sep s with
      | nil => exact absurd hs (splitOn_ne_nil sep s)
      | cons w ws => rfl

/-- A separator follows every piece but the last one; the first piece is at the front. -/
theorem splitOn_piece {sep : Char} {s w : Text} {before after : List Text}
    (h : splitOn sep s = before ++ w :: after) (hafter : after ≠ []) :
    ∃ a b, s = a ++ w ++ sep :: b ∧ (before = [] → a = []) := by
  induction s generalizing before w with
  | nil =>
    have hlen := congrArg List.length h
    have hpos := List.length_pos_iff.mpr hafter
    simp only [splitOn, List.length_append, List.length_cons, List.length_nil] at hlen
    omega
  | cons c s ih =>
    rw [splitOn] at h
    split_ifs at h with hc
    · subst hc
      cases before with
      | nil =>
        obtain ⟨rfl, rfl⟩ := List.cons.inj h
        exact ⟨[], s, rfl, fun _ => rfl⟩
      | cons v before =>
        obtain ⟨a, b, rfl, -⟩ := ih (List.cons.inj h).2
        exact ⟨c :: a, b, rfl, fun hnil => absurd hnil (by simp)⟩
    · cases hs : splitOn sep s with
      | nil => exact absurd hs (splitOn_ne_nil sep s)
      | cons v ws =>
        simp only [hs] at h
        cases before with
        | nil =>
          obtain ⟨rfl, rfl⟩ := List.cons.inj h
          have hfirst : splitOn sep s = [] ++ v :: ws := hs
          obtain ⟨a, b, rfl, ha⟩ := ih hfirst
          obtain rfl := ha rfl
          exact ⟨[], b, rfl, fun _ => rfl⟩
        | cons v' before =>
          obtain ⟨rfl, rfl⟩ := List.cons.inj h
          have hlater : splitOn sep s = (v :: before) ++ w :: after := hs
          obtain ⟨a, b, rfl, -⟩ := ih hlater
          exact ⟨c :: a, b, rfl, fun hnil => absurd hnil (by simp)⟩

/-- This is `List.splitOn`. -/
theorem splitOn_eq (sep : Char) (s : Text) : splitOn sep s = List.splitOn sep s := by
  induction s with
  | nil => rfl
  | cons c s ih =>
    rw [splitOn, List.splitOn_cons_eq_if_modifyHead, ih]
    by_cases hc : c = sep
    · rw [if_pos hc, if_pos (beq_iff_eq.mpr hc)]
    · rw [if_neg hc, if_neg fun h => hc (beq_iff_eq.mp h)]
      cases hs : List.splitOn sep s with
      | nil => exact absurd hs (List.splitOn_ne_nil sep s)
      | cons w ws => rfl

/-- Pieces without a separator come back as they have been joined. -/
theorem splitOn_intercalate {sep : Char} {ws : List Text} (h : ∀ w ∈ ws, sep ∉ w) (hne : ws ≠ []) :
    splitOn sep ([sep].intercalate ws) = ws := by
  rw [splitOn_eq]
  exact List.splitOn_intercalate sep h hne

theorem mem_intercalate {c sep : Char} {ws : List Text} (h : c ∈ [sep].intercalate ws) :
    c = sep ∨ ∃ w ∈ ws, c ∈ w := by
  induction ws with
  | nil => simp at h
  | cons w ws ih =>
    cases ws with
    | nil => exact .inr ⟨w, List.mem_singleton_self w, by simpa using h⟩
    | cons v ws =>
      rw [List.intercalate_cons_cons] at h
      rcases List.mem_append.mp h with h | h
      · rcases List.mem_append.mp h with h | h
        · exact .inr ⟨w, List.mem_cons_self, h⟩
        · exact .inl (List.mem_singleton.mp h)
      · rcases ih h with rfl | ⟨u, hu, hc⟩
        · exact .inl rfl
        · exact .inr ⟨u, List.mem_cons_of_mem _ hu, hc⟩

/-- A piece has no separator, and only characters of the text. -/
theorem mem_splitOn {sep : Char} {s w : Text} (h : w ∈ splitOn sep s) :
    ∀ c ∈ w, c ≠ sep ∧ c ∈ s := by
  induction s generalizing w with
  | nil =>
    obtain rfl := List.mem_singleton.mp h
    simp
  | cons c s ih =>
    rw [splitOn] at h
    split_ifs at h with hc
    · rcases List.mem_cons.mp h with rfl | h
      · simp
      · exact fun d hd => ⟨(ih h d hd).1, List.mem_cons_of_mem _ (ih h d hd).2⟩
    · cases hs : splitOn sep s with
      | nil => exact absurd hs (splitOn_ne_nil sep s)
      | cons v ws =>
        rw [hs] at h ih
        rcases List.mem_cons.mp h with rfl | h
        · intro d hd
          rcases List.mem_cons.mp hd with rfl | hd
          · exact ⟨hc, List.mem_cons_self⟩
          · have hv := ih List.mem_cons_self d hd
            exact ⟨hv.1, List.mem_cons_of_mem _ hv.2⟩
        · have hw := ih (List.mem_cons_of_mem _ h)
          exact fun d hd => ⟨(hw d hd).1, List.mem_cons_of_mem _ (hw d hd).2⟩

/-- The tokens that `strtok` finds: the pieces that are not empty. -/
def strtok (sep : Char) (s : Text) : List Text := (splitOn sep s).filter fun w => w ≠ []

/-- Cut at the first occurrence of `sep` (`strchr`); `none` when there is none. -/
def cutAt (sep : Char) : Text → Option (Text × Text)
  | [] => none
  | c :: s => if c = sep then some ([], s) else (cutAt sep s).map fun p => (c :: p.1, p.2)

theorem cutAt_eq_none {sep : Char} {s : Text} : cutAt sep s = none ↔ sep ∉ s := by
  induction s with
  | nil => simp [cutAt]
  | cons c s ih =>
    rw [cutAt]
    split_ifs with hc
    · simp [hc]
    · rw [Option.map_eq_none_iff, ih, List.mem_cons, not_or]
      exact ⟨fun h => ⟨Ne.symm hc, h⟩, And.right⟩

theorem cutAt_eq_some {sep : Char} {s a b : Text} :
    cutAt sep s = some (a, b) ↔ s = a ++ sep :: b ∧ sep ∉ a := by
  induction s generalizing a with
  | nil => simp [cutAt]
  | cons c s ih =>
    rw [cutAt]
    split_ifs with hc
    · subst hc
      cases a with
      | nil => simp
      | cons x a =>
        refine ⟨fun h => absurd h (by simp), fun ⟨h, hnot⟩ => ?_⟩
        obtain ⟨rfl, -⟩ := List.cons.inj h
        exact absurd List.mem_cons_self hnot
    · rw [Option.map_eq_some_iff]
      constructor
      · rintro ⟨⟨a', b'⟩, hcut, heq⟩
        obtain ⟨rfl, rfl⟩ := Prod.mk.inj heq
        obtain ⟨rfl, hnot⟩ := ih.mp hcut
        exact ⟨rfl, by simpa using ⟨Ne.symm hc, hnot⟩⟩
      · rintro ⟨heq, hnot⟩
        cases a with
        | nil => exact absurd (List.cons.inj heq).1 hc
        | cons x a =>
          obtain ⟨rfl, rfl⟩ := List.cons.inj heq
          rw [List.mem_cons, not_or] at hnot
          exact ⟨(a, b), ih.mpr ⟨rfl, hnot.2⟩, rfl⟩

end CStr
