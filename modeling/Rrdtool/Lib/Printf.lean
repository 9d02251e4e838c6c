import Rrdtool.Lib.Scan

/-!
# The arguments of `printf`

What the conversions of a format take from the arguments, by the grammar of the C standard: a conversion is made of
flags, a width, a precision, a length and a letter. Where the standard does not define the conversion there is no
answer.

* `CArg` — the types of the arguments;
* `printfArgs` — the arguments of a whole format;
* `conversion_number` — a number with at most one sign or blank, a width and a precision.
-/

namespace Printf

open CStr

/-- The length in front of a letter. -/
inductive Length : Type where
  | none | hh | h | l | ll | j | z | t | longDouble
  deriving DecidableEq

/-- What a conversion takes. -/
inductive CArg : Type where
  /-- an integer, of a length, or a character -/
  | integer (length : Length)
  /-- a `double` -/
  | double
  /-- a `long double` -/
  | longDouble
  /-- a `wint_t` -/
  | wideChar
  /-- a `char *` -/
  | string
  /-- a `wchar_t *` -/
  | wideString
  /-- a `void *` -/
  | pointer
  /-- the address of an integer -/
  | counter (length : Length)
  deriving DecidableEq

/-- What a letter takes, behind a length. -/
def letterArg (length : Length) (c : Char) : Option CArg :=
  if c ∈ "diouxX".toList then if length = .longDouble then none else some (.integer length)
  else if c ∈ "fFeEgGaA".toList then
    if length = .none ∨ length = .l then some .double
    else if length = .longDouble then some .longDouble else none
  else if c = 'c' then
    if length = .none then some (.integer .none) else if length = .l then some .wideChar else none
  else if c = 's' then
    if length = .none then some .string else if length = .l then some .wideString else none
  else if c = 'C' then if length = .none then some .wideChar else none
  else if c = 'S' then if length = .none then some .wideString else none
  else if c = 'p' then if length = .none then some .pointer else none
  else if c = 'n' then if length = .longDouble then none else some (.counter length)
  else none

/-- The length. -/
def takeLength : Text → Length × Text
  | 'h' :: 'h' :: s => (.hh, s)
  | 'h' :: s => (.h, s)
  | 'l' :: 'l' :: s => (.ll, s)
  | 'l' :: s => (.l, s)
  | 'j' :: s => (.j, s)
  | 'z' :: s => (.z, s)
  | 't' :: s => (.t, s)
  | 'L' :: s => (.longDouble, s)
  | s => (.none, s)

/-- A flag. -/
def isFlag (c : Char) : Bool := c ∈ "-+ #0".toList

/-- A width, or the digits of a precision: an asterisk takes it from the arguments. -/
def takeWidth : Text → List CArg × Text
  | '*' :: s => ([.integer .none], s)
  | s => ([], s.dropWhile isdigit)

/-- A precision. -/
def takePrecision : Text → List CArg × Text
  | '.' :: s => takeWidth s
  | s => ([], s)

/-- **A conversion**, behind its percent sign, and what follows it. -/
def conversion (s : Text) : Option (List CArg × Text) :=
  if s.head? = some '%' then some ([], s.tail)
  else
    let width := takeWidth (s.dropWhile isFlag)
    let prec := takePrecision width.2
    let len := takeLength prec.2
    match len.2 with
    | [] => none
    | c :: rest => (letterArg len.1 c).map fun arg => (width.1 ++ prec.1 ++ [arg], rest)

/-! ## What is left gets shorter -/

theorem length_takeWidth (s : Text) : (takeWidth s).2.length ≤ s.length := by
  unfold takeWidth
  split
  · simp
  · exact (List.dropWhile_suffix _).length_le

theorem length_takePrecision (s : Text) : (takePrecision s).2.length ≤ s.length := by
  unfold takePrecision
  split
  · exact (length_takeWidth _).trans (by simp)
  · exact le_rfl

theorem length_takeLength (s : Text) : (takeLength s).2.length ≤ s.length := by
  unfold takeLength
  split <;> grind

theorem conversion_length {s rest : Text} {args : List CArg} (h : conversion s = some (args, rest)) :
    rest.length < s.length + 1 := by
  unfold conversion at h
  split_ifs at h
  · cases h
    rw [List.length_tail]
    omega
  · dsimp only at h
    have hflags : (s.dropWhile isFlag).length ≤ s.length := (List.dropWhile_suffix _).length_le
    have hwidth := length_takeWidth (s.dropWhile isFlag)
    have hprec := length_takePrecision (takeWidth (s.dropWhile isFlag)).2
    have hlen := length_takeLength (takePrecision (takeWidth (s.dropWhile isFlag)).2).2
    split at h
    · cases h
    · rename_i c rest' heq
      rw [heq] at hlen
      obtain ⟨arg, -, hpair⟩ := Option.map_eq_some_iff.mp h
      cases hpair
      rw [List.length_cons] at hlen
      omega

/-- **What a format takes from the arguments**, in order. -/
def printfArgs : Text → Option (List CArg)
  | [] => some []
  | c :: s =>
    if c = '%' then
      match h : conversion s with
      | none => none
      | some (args, rest) =>
        have := conversion_length h
        (printfArgs rest).map (args ++ ·)
    else printfArgs s
termination_by s => s.length

theorem printfArgs_of_ne {c : Char} (hc : c ≠ '%') (s : Text) : printfArgs (c :: s) = printfArgs s := by
  rw [printfArgs, if_neg hc]

theorem printfArgs_percent {s rest : Text} {args : List CArg} (h : conversion s = some (args, rest)) :
    printfArgs ('%' :: s) = (printfArgs rest).map (args ++ ·) := by
  rw [printfArgs, if_pos rfl]
  split
  · rename_i heq
    rw [h] at heq
    cases heq
  · rename_i heq
    rw [h] at heq
    cases heq
    rfl

/-! ## Numbers -/

theorem dropWhile_append_of_all {p : Char → Bool} {u v : Text} (hu : ∀ c ∈ u, p c = true) (hv : ∀ c ∈ v.head?, p c = false) :
    (u ++ v).dropWhile p = v := by
  rw [List.dropWhile_append_of_pos hu]
  cases v with
  | nil => rfl
  | cons c v => exact List.dropWhile_cons_of_neg (by simp [hv c rfl])

/-- The digits that are left behind a flag are digits. -/
theorem dropWhile_isFlag {pad digits v : Text} (hpad : ∀ c ∈ pad, isFlag c = true) (hv : ∀ c ∈ v.head?, isFlag c = false) :
    (pad ++ (digits ++ v)).dropWhile isFlag = digits.dropWhile isFlag ++ v := by
  rw [List.dropWhile_append_of_pos hpad]
  induction digits with
  | nil => simpa using dropWhile_append_of_all (u := []) (by simp) hv
  | cons c digits ih =>
    rw [List.cons_append, List.dropWhile_cons, List.dropWhile_cons]
    split_ifs
    · exact ih
    · rfl

/-- A width. -/
theorem takeWidth_digits {digits v : Text} (hdigits : ∀ c ∈ digits, isdigit c = true) (hv : ∀ c ∈ v.head?, isdigit c = false)
    (hstar : v.head? ≠ some '*') : takeWidth (digits ++ v) = ([], v) := by
  have hhead : (digits ++ v).head? ≠ some '*' := by
    cases digits with
    | nil => exact hstar
    | cons c digits =>
      intro h
      obtain rfl : c = '*' := Option.some.inj h
      exact absurd (hdigits '*' List.mem_cons_self) (by decide)
  unfold takeWidth
  split
  · rename_i heq
    rw [heq] at hhead
    exact absurd rfl hhead
  · rw [dropWhile_append_of_all hdigits hv]

/-- The digits of a precision, if there is a point. -/
def IsPrecision (prec : Text) : Prop := prec = [] ∨ ∃ digits, prec = '.' :: digits ∧ ∀ c ∈ digits, isdigit c = true

/-- **A number takes a `double`**: flags, a width, a precision, an `l`, and one of the letters. -/
theorem conversion_number {pad digits prec rest : Text} {c : Char} (hpad : ∀ c ∈ pad, isFlag c = true)
    (hdigits : ∀ c ∈ digits, isdigit c = true) (hprec : IsPrecision prec) (hc : c = 'e' ∨ c = 'f' ∨ c = 'g') :
    conversion (pad ++ (digits ++ (prec ++ 'l' :: c :: rest))) = some ([.double], rest) := by
  -- what stands behind the width
  obtain ⟨v, hv⟩ : ∃ v, v = prec ++ 'l' :: c :: rest := ⟨_, rfl⟩
  have hhead : v.head? = some '.' ∨ v.head? = some 'l' := by
    rcases hprec with rfl | ⟨digits, rfl, -⟩
    · exact .inr (by rw [hv]; rfl)
    · exact .inl (by rw [hv]; rfl)
  have hnext {p : Char → Bool} (hp : p '.' = false) (hp' : p 'l' = false) : ∀ c ∈ v.head?, p c = false := by
    intro c hmem
    rcases hhead with h | h
    · rw [h] at hmem
      cases hmem
      exact hp
    · rw [h] at hmem
      cases hmem
      exact hp'
  have hpercent : (pad ++ (digits ++ v)).head? ≠ some '%' := by
    intro h
    cases pad with
    | cons x pad => exact absurd (hpad '%' (by rw [Option.some.inj h.symm]; exact List.mem_cons_self)) (by decide)
    | nil =>
      cases digits with
      | cons x digits => exact absurd (hdigits '%' (by rw [Option.some.inj h.symm]; exact List.mem_cons_self)) (by decide)
      | nil =>
        have := hnext (p := (· == '%')) rfl rfl '%' h
        exact absurd this (by decide)
  have hwidth : takeWidth ((pad ++ (digits ++ v)).dropWhile isFlag) = ([], v) := by
    rw [dropWhile_isFlag hpad (hnext rfl rfl)]
    refine takeWidth_digits (fun x hx => hdigits x ((List.dropWhile_suffix _).mem hx)) (hnext rfl rfl) ?_
    rcases hhead with h | h
    · rw [h]
      decide
    · rw [h]
      decide
  have hprecision : takePrecision v = ([], 'l' :: c :: rest) := by
    rw [hv]
    rcases hprec with rfl | ⟨digits, rfl, hdigits⟩
    · rfl
    · exact takeWidth_digits hdigits (by rintro c ⟨⟩; rfl) (by simp)
  have hlength : takeLength ('l' :: c :: rest) = (.l, c :: rest) := by
    rcases hc with rfl | rfl | rfl <;> rfl
  have hletter : letterArg .l c = some .double := by
    rcases hc with rfl | rfl | rfl <;> rfl
  rw [← hv, conversion, if_neg hpercent, hwidth]
  dsimp only
  rw [hprecision, hlength]
  dsimp only
  rw [hletter]
  rfl

end Printf
