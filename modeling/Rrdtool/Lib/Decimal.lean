import Mathlib.Data.List.TakeWhile
import Mathlib.Tactic.IntervalCases
import Rrdtool.Lib.CStr

/-!
# Printing integers

What `printf` writes for `%d`, and what `strtol` reads back when other text follows.

* `scanInteger_printInt` — `strtol` stops behind the number, and the number comes back as it is.
-/

namespace Decimal

open CStr

/-- `%u` -/
def printNat (n : ℕ) : Text := Nat.toDigits 10 n

/-- `%d` -/
def printInt (z : ℤ) : Text := if z < 0 then '-' :: printNat z.natAbs else printNat z.natAbs

/-- `strtol(s, &end, 0)`: the number, and the text from `end` on; `none` if there is no number. -/
def scanInteger (s : Text) : Option (ℤ × Text) :=
  let (neg, r) := takeSign (s.dropWhile isspace)
  let (base, t) := detectBase r
  let ds := takeDigits base t
  let v : ℤ := baseDigitsVal base ds
  if ds = [] then none
  else some (if neg then max (-2 ^ 63) (-v) else min (2 ^ 63 - 1) v, t.drop ds.length)

/-! ## Digits -/

/-- Is this a text of decimal digits? -/
def AllDigits (s : Text) : Prop := ∀ c ∈ s, isdigit c = true

theorem allDigits_printNat (n : ℕ) : AllDigits (printNat n) := by
  intro c hc
  have h := Nat.isDigit_of_mem_toDigits (by decide) (by decide) hc
  simp only [Char.isDigit, Bool.and_eq_true, decide_eq_true_eq] at h
  simp only [isdigit, Bool.and_eq_true, decide_eq_true_eq]
  exact h

theorem printNat_ne_nil (n : ℕ) : printNat n ≠ [] := Nat.toDigits_ne_nil

theorem digitsVal_printNat (n : ℕ) : digitsVal (printNat n) = n := Nat.ofDigitChars_ten_toDigits

theorem isdigit_bounds {c : Char} (h : isdigit c = true) : 48 ≤ c.toNat ∧ c.toNat ≤ 57 := by
  simp only [isdigit, Bool.and_eq_true, decide_eq_true_eq] at h
  exact h

theorem hexVal_of_isdigit {c : Char} (h : isdigit c = true) : hexVal c = some (digitVal c) := by
  rw [hexVal, if_pos h]

theorem digitVal_lt {c : Char} (h : isdigit c = true) : digitVal c < 10 := by
  obtain ⟨-, h9⟩ := isdigit_bounds h
  change c.toNat - 48 < 10
  omega

/-- The digits end where a character follows that is none. -/
theorem takeDigits_ten {s rest : Text} {c : Char} (h : AllDigits s) (hc : hexVal c = none) :
    takeDigits 10 (s ++ c :: rest) = s := by
  have hp : ∀ d ∈ s, ((hexVal d).any fun v => decide (v < 10)) = true := by
    intro d hd
    simp [hexVal_of_isdigit (h d hd), digitVal_lt (h d hd)]
  rw [takeDigits, List.takeWhile_append_of_pos hp, List.takeWhile_cons_of_neg (by simp [hc]),
    List.append_nil]

theorem baseDigitsVal_ten {s : Text} (h : AllDigits s) : baseDigitsVal 10 s = digitsVal s := by
  unfold baseDigitsVal digitsVal
  refine List.foldl_ext _ _ _ fun n c hc => ?_
  simp [hexVal_of_isdigit (h c hc)]

/-- A positive number does not start with a zero. -/
theorem head_printNat {n : ℕ} (hn : 0 < n) : ∃ c s, printNat n = c :: s ∧ c ≠ '0' := by
  induction n using Nat.strong_induction_on with
  | _ n ih =>
    rcases Nat.lt_or_ge n 10 with hlt | hge
    · refine ⟨n.digitChar, [], Nat.toDigits_of_lt_base hlt, ?_⟩
      interval_cases n <;> decide
    · obtain ⟨c, s, hs, hc⟩ := ih (n / 10) (by omega) (by omega)
      refine ⟨c, s ++ [(n % 10).digitChar], ?_, hc⟩
      rw [printNat, Nat.toDigits_of_base_le (by decide) hge]
      exact congrArg (· ++ [(n % 10).digitChar]) hs

theorem isdigit_ne {c d : Char} (h : isdigit c = true) (hd : isdigit d = false) : c ≠ d := by
  rintro rfl
  rw [h] at hd
  cases hd

theorem not_isspace_of_isdigit {c : Char} (h : isdigit c = true) : isspace c = false := by
  obtain ⟨h0, -⟩ := isdigit_bounds h
  have hne (d : Char) (hd : isdigit d = false) : c ≠ d := isdigit_ne h hd
  simp [isspace, hne ' ' (by decide), hne '\t' (by decide), hne '\n' (by decide),
    hne '\r' (by decide), show c.toNat ≠ 11 by omega, show c.toNat ≠ 12 by omega]

/-- White space and sign before a digit: there is none. -/
theorem takeSign_digit {c : Char} (h : isdigit c = true) (s : Text) :
    takeSign (c :: s) = (false, c :: s) := by
  have h1 : c ≠ '-' := isdigit_ne h (by decide)
  have h2 : c ≠ '+' := isdigit_ne h (by decide)
  unfold takeSign
  split <;> simp_all

/-- A hexadecimal number starts with a zero. -/
theorem not_hex_of_ne {c : Char} (h : isdigit c = true) (hc : c ≠ '0') (s : Text) :
    dropPrefixCI ['0', 'x'] (c :: s) = none := by
  have hlower : tolower c = c := by
    obtain ⟨-, h9⟩ := isdigit_bounds h
    unfold tolower
    rw [if_neg]
    rintro ⟨hA, -⟩
    have hA : 65 ≤ c.toNat := hA
    omega
  rw [dropPrefixCI, hlower, if_neg hc]

/-! ## Round trip -/

/-- The base and the digits of a number, with a blank behind it. -/
theorem detectBase_printNat (n : ℕ) (rest : Text) :
    ∃ base, detectBase (printNat n ++ ' ' :: rest) = (base, printNat n ++ ' ' :: rest) ∧
      takeDigits base (printNat n ++ ' ' :: rest) = printNat n ∧
      baseDigitsVal base (printNat n) = n := by
  rcases Nat.eq_zero_or_pos n with rfl | hn
  · refine ⟨8, ?_, ?_, by decide⟩
    · have hx : dropPrefixCI ['0', 'x'] ('0' :: ' ' :: rest) = none := by
        rw [dropPrefixCI, if_pos (by decide), dropPrefixCI, if_neg (by decide)]
      simp [printNat, detectBase, hx]
    · simp [printNat, takeDigits, hexVal, isdigit, digitVal]
  · obtain ⟨c, s, hs, hc⟩ := head_printNat hn
    have hd : AllDigits (c :: s) := hs ▸ allDigits_printNat n
    have hval := digitsVal_printNat n
    rw [hs] at hval ⊢
    refine ⟨10, ?_, takeDigits_ten hd (by decide), (baseDigitsVal_ten hd).trans hval⟩
    simp [detectBase, not_hex_of_ne (hd c List.mem_cons_self) hc, hc]

/-- White space in front of a number: there is none. -/
theorem takeSign_printNat (n : ℕ) (rest : Text) :
    takeSign ((printNat n ++ rest).dropWhile isspace) = (false, printNat n ++ rest) := by
  cases hs : printNat n with
  | nil => exact absurd hs (printNat_ne_nil n)
  | cons c s =>
    have hd : isdigit c = true := allDigits_printNat n c (by simp [hs])
    rw [List.cons_append, List.dropWhile_cons_of_neg (by simp [not_isspace_of_isdigit hd])]
    exact takeSign_digit hd _

/-- **`strtol` reads back what `%d` wrote**, up to the blank behind it. -/
theorem scanInteger_printInt {z : ℤ} (hlo : -2 ^ 63 ≤ z) (hhi : z < 2 ^ 63) (rest : Text) :
    scanInteger (printInt z ++ ' ' :: rest) = some (z, ' ' :: rest) := by
  obtain ⟨base, hbase, hdigits, hval⟩ := detectBase_printNat z.natAbs rest
  by_cases hz : z < 0
  · have hsign : takeSign ((printInt z ++ ' ' :: rest).dropWhile isspace) =
        (true, printNat z.natAbs ++ ' ' :: rest) := by
      rw [printInt, if_pos hz, List.cons_append, List.dropWhile_cons_of_neg (by decide)]
      rfl
    simp only [scanInteger, hsign, hbase, hdigits, hval, if_neg (printNat_ne_nil _), if_true,
      List.drop_left]
    rw [Int.ofNat_natAbs_of_nonpos hz.le, neg_neg, max_eq_right hlo]
  · have hsign : takeSign ((printInt z ++ ' ' :: rest).dropWhile isspace) =
        (false, printNat z.natAbs ++ ' ' :: rest) := by
      rw [printInt, if_neg hz]
      exact takeSign_printNat _ _
    simp only [scanInteger, hsign, hbase, hdigits, hval, if_neg (printNat_ne_nil _),
      Bool.false_eq_true, if_false, List.drop_left]
    rw [Int.natAbs_of_nonneg (not_lt.mp hz), min_eq_right (by omega)]

/-! ## A whole text -/

/-- The number, when nothing stands behind it. -/
theorem readInteger_printInt (z : ℤ) : readInteger (printInt z) = (decide (z < 0), z.natAbs) := by
  have hsign : takeSign ((printInt z).dropWhile isspace) = (decide (z < 0), printNat z.natAbs) := by
    rw [printInt]
    split_ifs with hz
    · rw [List.dropWhile_cons_of_neg (by decide), decide_eq_true hz]
      rfl
    · have h := takeSign_printNat z.natAbs []
      rw [List.append_nil] at h
      rw [h, decide_eq_false hz]
  have hvalue : baseDigitsVal (detectBase (printNat z.natAbs)).1
      (takeDigits (detectBase (printNat z.natAbs)).1 (detectBase (printNat z.natAbs)).2) = z.natAbs := by
    rcases Nat.eq_zero_or_pos z.natAbs with hn | hn
    · rw [hn]
      rfl
    · obtain ⟨c, s, hs, hc⟩ := head_printNat hn
      have hd : AllDigits (c :: s) := hs ▸ allDigits_printNat _
      have hval := digitsVal_printNat z.natAbs
      have hall : takeDigits 10 (c :: s) = c :: s := by
        refine List.takeWhile_eq_self_iff.mpr fun d hmem => ?_
        rw [hexVal_of_isdigit (hd d hmem)]
        exact decide_eq_true (digitVal_lt (hd d hmem))
      rw [hs] at hval ⊢
      have hbase : detectBase (c :: s) = (10, c :: s) := by
        simp [detectBase, not_hex_of_ne (hd c List.mem_cons_self) hc, hc]
      rw [hbase, hall, baseDigitsVal_ten hd, hval]
  rw [readInteger, hsign]
  exact congrArg (Prod.mk _) hvalue

/-- **`strtoul` reads back what `%lu` wrote.** -/
theorem strtoul_printNat {n : ℕ} (hn : n < 2 ^ 64) : strtoul (printNat n) = some n := by
  have hread := readInteger_printInt n
  rw [printInt, if_neg (Int.natCast_nonneg n).not_gt, Int.natAbs_natCast, decide_eq_false (Int.natCast_nonneg n).not_gt]
    at hread
  rw [strtoul, hread]
  dsimp only
  rw [if_neg (not_le.mpr hn), if_neg Bool.false_ne_true]

/-- **`strtoll` reads back what `%lld` wrote.** -/
theorem strtoll_printInt {z : ℤ} (hlo : -2 ^ 63 ≤ z) (hhi : z < 2 ^ 63) : strtoll (printInt z) = some z := by
  rw [strtoll, readInteger_printInt]
  dsimp only
  by_cases hz : z < 0
  · rw [if_pos (decide_eq_true hz), if_neg (by omega), Int.ofNat_natAbs_of_nonpos hz.le, neg_neg]
  · rw [if_neg (by rw [decide_eq_true_eq]; exact hz), if_neg (by omega), Int.natAbs_of_nonneg (not_lt.mp hz)]

end Decimal
