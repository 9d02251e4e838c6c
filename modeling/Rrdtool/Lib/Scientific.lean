import Mathlib.Data.Int.Log
import Mathlib.Tactic.Linarith
import Rrdtool.Lib.Scan

/-!
# Numbers in scientific notation

What `printf` writes for `%.ne`, and what `strtod` reads back.

* `strtod_print` — the number comes back, rounded to `n + 1` digits;
* `abs_rounded_sub_le` — it is off by half a unit of the last digit at most;
* `rounded_rounded` — a number that came back is printed as it was before.
-/

namespace Scientific

open CStr

/-! ## Rounding -/

/-- The nearest integer, of two that are as near the even one. -/
def roundEven (q : ℚ) : ℤ :=
  if q - ⌊q⌋ < 1 / 2 then ⌊q⌋ else if 1 / 2 < q - ⌊q⌋ then ⌊q⌋ + 1 else ⌊q⌋ + ⌊q⌋ % 2

/-- The digits of a magnitude, `n + 1` of them as one number, and the exponent of the first one. -/
def parts (n : ℕ) (q : ℚ) : ℕ × ℤ :=
  let e := Int.log 10 q
  let m := (roundEven (q * 10 ^ (n - e))).toNat
  -- the digits may have been nines
  if m = 10 ^ (n + 1) then (10 ^ n, e + 1) else (m, e)

/-- The magnitude that these parts stand for. -/
def magnitude (n : ℕ) (p : ℕ × ℤ) : ℚ := p.1 * 10 ^ (p.2 - n)

/-- A number, rounded to `n + 1` digits. -/
def rounded (n : ℕ) (q : ℚ) : ℚ :=
  if q < 0 then -magnitude n (parts n |q|) else magnitude n (parts n |q|)

/-- `%.ne` for `0 < n` -/
def print (n : ℕ) (q : ℚ) : Text :=
  let p := parts n |q|
  let ds := (Decimal.printNat p.1).leftpad (n + 1) '0'
  (if q < 0 then ['-'] else []) ++ ds.take 1 ++ '.' :: ds.drop 1 ++
    'e' :: (if p.2 < 0 then '-' else '+') :: (Decimal.printNat p.2.natAbs).leftpad 2 '0'

theorem abs_roundEven_sub_le (q : ℚ) : |(roundEven q : ℚ) - q| ≤ 1 / 2 := by
  have hlo := Int.floor_le q
  have hhi := Int.lt_floor_add_one q
  have hmod : (0 : ℚ) ≤ (⌊q⌋ % 2 : ℤ) ∧ ((⌊q⌋ % 2 : ℤ) : ℚ) ≤ 1 := by
    constructor
    · exact_mod_cast Int.emod_nonneg ⌊q⌋ two_ne_zero
    · exact_mod_cast Int.lt_add_one_iff.mp (Int.emod_lt_of_pos ⌊q⌋ two_pos)
  rw [roundEven]
  split_ifs with hdown hup
  · rw [abs_le]
    constructor <;> linarith
  · push_cast
    rw [abs_le]
    constructor <;> linarith
  · push_cast
    rw [abs_le]
    constructor <;> linarith

@[simp] theorem roundEven_intCast (z : ℤ) : roundEven z = z := by
  rw [roundEven, Int.floor_intCast, sub_self, if_pos one_half_pos]

/-- Rounding stays above the integers below. -/
theorem le_roundEven {z : ℤ} {q : ℚ} (h : (z : ℚ) ≤ q) : z ≤ roundEven q := by
  have hfloor : z ≤ ⌊q⌋ := Int.le_floor.mpr h
  have hmod := Int.emod_nonneg ⌊q⌋ two_ne_zero
  rw [roundEven]
  split_ifs
  · exact hfloor
  · exact hfloor.trans (Int.le_add_of_nonneg_right one_pos.le)
  · exact hfloor.trans (Int.le_add_of_nonneg_right hmod)

/-- Rounding stays below the integers above. -/
theorem roundEven_le {z : ℤ} {q : ℚ} (h : q ≤ z) : roundEven q ≤ z := by
  rcases h.lt_or_eq with hlt | rfl
  · have hfloor : ⌊q⌋ + 1 ≤ z := Int.add_one_le_iff.mpr (Int.floor_lt.mpr hlt)
    have hmod := Int.emod_lt_of_pos ⌊q⌋ two_pos
    rw [roundEven]
    split_ifs <;> omega
  · rw [roundEven_intCast]

/-! ## The parts of a magnitude -/

variable {n : ℕ} {q : ℚ}

theorem ten_pow_pos (z : ℤ) : (0 : ℚ) < 10 ^ z := zpow_pos (by norm_num) z

theorem ten_zpow_add (a b : ℤ) : (10 : ℚ) ^ (a + b) = 10 ^ a * 10 ^ b := zpow_add₀ (by norm_num) a b

/-- A magnitude lies between two powers of ten. -/
theorem log_bounds (hq : 0 < q) : (10 : ℚ) ^ Int.log 10 q ≤ q ∧ q < 10 ^ (Int.log 10 q + 1) :=
  ⟨by exact_mod_cast Int.zpow_log_le_self (by norm_num) hq,
    by exact_mod_cast Int.lt_zpow_succ_log_self (by norm_num) q⟩

/-- What is rounded has `n + 1` digits in front of the point. -/
theorem scaled_bounds (hq : 0 < q) :
    (10 : ℚ) ^ n ≤ q * 10 ^ (n - Int.log 10 q) ∧ q * 10 ^ (n - Int.log 10 q) < 10 ^ (n + 1) := by
  obtain ⟨hlo, hhi⟩ := log_bounds hq
  have hscale := ten_pow_pos (n - Int.log 10 q)
  constructor
  · calc (10 : ℚ) ^ n = 10 ^ Int.log 10 q * 10 ^ (n - Int.log 10 q) := by
          rw [← ten_zpow_add, add_sub_cancel, zpow_natCast]
      _ ≤ q * 10 ^ (n - Int.log 10 q) := mul_le_mul_of_nonneg_right hlo hscale.le
  · calc q * 10 ^ (n - Int.log 10 q) < 10 ^ (Int.log 10 q + 1) * 10 ^ (n - Int.log 10 q) :=
          mul_lt_mul_of_pos_right hhi hscale
      _ = 10 ^ (n + 1) := by
          rw [← ten_zpow_add, ← zpow_natCast]
          congr 1
          push_cast
          ring

/-- The digits before they are looked at. -/
theorem digits_bounds (hq : 0 < q) :
    (10 : ℤ) ^ n ≤ roundEven (q * 10 ^ (n - Int.log 10 q)) ∧
      roundEven (q * 10 ^ (n - Int.log 10 q)) ≤ 10 ^ (n + 1) := by
  obtain ⟨hlo, hhi⟩ := scaled_bounds (n := n) hq
  constructor
  · refine le_roundEven ?_
    push_cast
    exact hlo
  · refine roundEven_le ?_
    push_cast
    exact hhi.le

/-- There are `n + 1` digits, and the first one is not zero. -/
theorem parts_bounds (hq : 0 < q) : 10 ^ n ≤ (parts n q).1 ∧ (parts n q).1 < 10 ^ (n + 1) := by
  obtain ⟨hlo, hhi⟩ := digits_bounds (n := n) hq
  rw [parts]
  split_ifs with hnines
  · exact ⟨le_rfl, Nat.pow_lt_pow_right (by norm_num) n.lt_succ_self⟩
  · refine ⟨(Int.le_toNat (le_trans (by positivity) hlo)).mpr (by exact_mod_cast hlo), lt_of_le_of_ne ?_ hnines⟩
    exact Int.toNat_le.mpr (by exact_mod_cast hhi)

/-- The parts stand for what has been rounded. -/
theorem magnitude_parts (hq : 0 < q) :
    magnitude n (parts n q) = roundEven (q * 10 ^ (n - Int.log 10 q)) * 10 ^ (Int.log 10 q - n) := by
  obtain ⟨hlo, hhi⟩ := digits_bounds (n := n) hq
  have hnonneg : 0 ≤ roundEven (q * 10 ^ (n - Int.log 10 q)) := le_trans (by positivity) hlo
  have hcast : ((roundEven (q * 10 ^ (n - Int.log 10 q))).toNat : ℚ) = roundEven (q * 10 ^ (n - Int.log 10 q)) := by
    exact_mod_cast Int.toNat_of_nonneg hnonneg
  rw [parts, magnitude]
  split_ifs with hnines
  · -- ten times one digit less
    rw [← hcast, hnines]
    push_cast
    rw [add_sub_right_comm, ten_zpow_add, pow_succ, zpow_one]
    ring
  · rw [hcast]

/-- **Half a unit of the last digit.** -/
theorem abs_magnitude_sub_le (hq : 0 < q) : |magnitude n (parts n q) - q| ≤ 1 / 2 * 10 ^ (Int.log 10 q - n) := by
  have hunit := ten_pow_pos (Int.log 10 q - n)
  have hback : q * 10 ^ (n - Int.log 10 q) * 10 ^ (Int.log 10 q - n) = q := by
    rw [mul_assoc, ← ten_zpow_add, sub_add_sub_cancel, sub_self, zpow_zero, mul_one]
  calc |magnitude n (parts n q) - q|
      = |(roundEven (q * 10 ^ (n - Int.log 10 q)) : ℚ) - q * 10 ^ (n - Int.log 10 q)| * 10 ^ (Int.log 10 q - n) := by
        rw [magnitude_parts hq, ← abs_of_pos hunit, ← abs_mul, abs_of_pos hunit, sub_mul, hback]
    _ ≤ 1 / 2 * 10 ^ (Int.log 10 q - n) := mul_le_mul_of_nonneg_right (abs_roundEven_sub_le _) hunit.le

/-- A magnitude with `n + 1` digits is not changed. -/
theorem parts_magnitude {m : ℕ} {e : ℤ} (hlo : 10 ^ n ≤ m) (hhi : m < 10 ^ (n + 1)) :
    parts n (magnitude n (m, e)) = (m, e) := by
  have hpos := ten_pow_pos (e - n)
  have hm : (0 : ℚ) < m := by exact_mod_cast (pow_pos (by norm_num) n).trans_le hlo
  have hx : 0 < magnitude n (m, e) := mul_pos hm hpos
  have hlog : Int.log 10 (magnitude n (m, e)) = e := by
    apply le_antisymm
    · refine Int.lt_add_one_iff.mp ((Int.lt_zpow_iff_log_lt (by norm_num) hx).mp ?_)
      calc magnitude n (m, e) < 10 ^ (n + 1) * 10 ^ (e - n) :=
            mul_lt_mul_of_pos_right (by exact_mod_cast hhi) hpos
        _ = ((10 : ℕ) : ℚ) ^ (e + 1) := by
            rw [← zpow_natCast, ← ten_zpow_add]
            push_cast
            congr 1
            ring
    · refine (Int.zpow_le_iff_le_log (by norm_num) hx).mp ?_
      calc ((10 : ℕ) : ℚ) ^ e = 10 ^ n * 10 ^ (e - n) := by
            rw [← zpow_natCast, ← ten_zpow_add]
            push_cast
            congr 1
            ring
        _ ≤ magnitude n (m, e) := mul_le_mul_of_nonneg_right (by exact_mod_cast hlo) hpos.le
  have hscaled : magnitude n (m, e) * 10 ^ (n - e) = ((m : ℤ) : ℚ) := by
    rw [magnitude, mul_assoc, ← ten_zpow_add, sub_add_sub_cancel, sub_self, zpow_zero, mul_one, Int.cast_natCast]
  rw [parts, hlog, hscaled, roundEven_intCast]
  rw [Int.toNat_natCast, if_neg hhi.ne]

@[simp] theorem parts_zero (n : ℕ) : parts n 0 = (0, 0) := by
  have hzero : roundEven (0 * 10 ^ ((n : ℤ) - Int.log 10 (0 : ℚ))) = 0 := by
    rw [zero_mul]
    exact roundEven_intCast 0
  rw [parts, hzero, Int.log_zero_right, Int.toNat_zero, if_neg (pow_pos (by norm_num) (n + 1)).ne]

/-! ## Numbers with a sign -/

theorem magnitude_nonneg (n : ℕ) (p : ℕ × ℤ) : 0 ≤ magnitude n p :=
  mul_nonneg (Nat.cast_nonneg _) (ten_pow_pos _).le

@[simp] theorem rounded_zero (n : ℕ) : rounded n 0 = 0 := by
  rw [rounded, abs_zero, parts_zero, if_neg (lt_irrefl _), magnitude, Nat.cast_zero, zero_mul]

theorem abs_rounded (n : ℕ) (q : ℚ) : |rounded n q| = magnitude n (parts n |q|) := by
  rw [rounded]
  split_ifs
  · rw [abs_neg, abs_of_nonneg (magnitude_nonneg _ _)]
  · rw [abs_of_nonneg (magnitude_nonneg _ _)]

/-- A number that is not zero is not rounded to zero. -/
theorem magnitude_parts_pos (hq : 0 < q) : 0 < magnitude n (parts n q) := by
  have hm : 0 < (parts n q).1 := (pow_pos (by norm_num) n).trans_le (parts_bounds hq).1
  exact mul_pos (by exact_mod_cast hm) (ten_pow_pos _)

/-- Rounding keeps the sign. -/
theorem rounded_neg_iff : rounded n q < 0 ↔ q < 0 := by
  rw [rounded]
  split_ifs with hq
  · exact iff_of_true (neg_neg_iff_pos.mpr (magnitude_parts_pos (abs_pos.mpr hq.ne))) hq
  · exact iff_of_false (magnitude_nonneg _ _).not_gt hq

/-- What is rounded has the same parts. -/
theorem parts_rounded (n : ℕ) (q : ℚ) : parts n |rounded n q| = parts n |q| := by
  rw [abs_rounded]
  rcases eq_or_ne q 0 with rfl | hq
  · rw [abs_zero, parts_zero, magnitude, Nat.cast_zero, zero_mul, parts_zero]
  · obtain ⟨hlo, hhi⟩ := parts_bounds (n := n) (abs_pos.mpr hq)
    exact parts_magnitude hlo hhi

/-- **Rounding twice is rounding once.** -/
theorem rounded_rounded (n : ℕ) (q : ℚ) : rounded n (rounded n q) = rounded n q := by
  conv_lhs => rw [rounded, parts_rounded]
  simp only [rounded_neg_iff]
  rfl

/-- A rounded number is printed as the number itself. -/
theorem print_rounded (n : ℕ) (q : ℚ) : print n (rounded n q) = print n q := by
  unfold print
  simp only [parts_rounded, rounded_neg_iff]

/-- **What is lost**: a number is off by `10 ^ (-n) / 2` of its magnitude at most. -/
theorem abs_rounded_sub_le (n : ℕ) (q : ℚ) : |rounded n q - q| ≤ |q| * (1 / 2 * 10 ^ (-n : ℤ)) := by
  rcases eq_or_ne q 0 with rfl | hq
  · rw [rounded_zero, sub_zero, abs_zero, zero_mul]
  have hpos := abs_pos.mpr hq
  have hsign : |rounded n q - q| = |magnitude n (parts n |q|) - (|q|)| := by
    rw [rounded]
    split_ifs with hneg
    · rw [abs_of_neg hneg, ← abs_neg]
      congr 1
      ring
    · rw [abs_of_nonneg (not_lt.mp hneg)]
  calc |rounded n q - q| ≤ 1 / 2 * 10 ^ (Int.log 10 |q| - n) := hsign ▸ abs_magnitude_sub_le hpos
    _ = 10 ^ Int.log 10 |q| * (1 / 2 * 10 ^ (-n : ℤ)) := by
        rw [sub_eq_add_neg, ten_zpow_add]
        ring
    _ ≤ |q| * (1 / 2 * 10 ^ (-n : ℤ)) :=
        mul_le_mul_of_nonneg_right (log_bounds hpos).1 (mul_pos one_half_pos (ten_pow_pos _)).le

/-! ## Reading a printed number -/

/-- Zeros in front make no difference. -/
theorem digitsVal_leftpad (k : ℕ) (s : Text) : digitsVal (s.leftpad k '0') = digitsVal s := by
  rw [List.leftpad, digitsVal, List.foldl_append]
  congr 1
  induction k - s.length with
  | zero => rfl
  | succ k ih => rw [List.replicate_succ', List.foldl_append, ih]; rfl

theorem allDigits_leftpad {k : ℕ} {s : Text} (h : Decimal.AllDigits s) : Decimal.AllDigits (s.leftpad k '0') := by
  intro c hc
  rcases List.mem_append.mp hc with hc | hc
  · rw [List.eq_of_mem_replicate hc]
    rfl
  · exact h c hc

/-- There are as many digits as are asked for. -/
theorem length_digits {m : ℕ} (h : m < 10 ^ (n + 1)) : ((Decimal.printNat m).leftpad (n + 1) '0').length = n + 1 := by
  have hle : (Decimal.printNat m).length ≤ n + 1 := (Nat.length_toDigits_le_iff (by norm_num) n.succ_pos).mpr h
  rw [List.length_leftpad, max_eq_left hle]

theorem powInt_eq (z : ℤ) : powInt 10 z = (10 : ℚ) ^ z := by
  cases z with
  | ofNat n => exact (zpow_natCast _ n).symm
  | negSucc n => rw [powInt, zpow_negSucc, one_div]

theorem span_digits {s : Text} (h : Decimal.AllDigits s) {c : Char} (hc : isdigit c = false) (r : Text) :
    (s ++ c :: r).span isdigit = (s, c :: r) := by
  rw [List.span_eq_takeWhile_dropWhile, List.takeWhile_append_of_pos h, List.dropWhile_append_of_pos h]
  simp [hc]

/-- The digits, with a point behind the first one. -/
theorem takeMantissa_print {d : Char} {s : Text} (hd : isdigit d = true) (hs : Decimal.AllDigits s) (hne : s ≠ [])
    (r : Text) : takeMantissa isdigit (d :: '.' :: (s ++ 'e' :: r)) = some ([d], s, 'e' :: r) := by
  have hfirst : (d :: '.' :: (s ++ 'e' :: r)).span isdigit = ([d], '.' :: (s ++ 'e' :: r)) :=
    span_digits (s := [d]) (by simpa [Decimal.AllDigits] using hd) rfl _
  have hfraction : fraction isdigit ('.' :: (s ++ 'e' :: r)) = (s, 'e' :: r) := span_digits hs rfl r
  rw [takeMantissa_eq, hfirst, hfraction]
  simp [hne]

/-- The exponent, with its sign. -/
theorem takeExponent_print (e : ℤ) :
    takeExponent 'e' ('e' :: (if e < 0 then '-' else '+') :: (Decimal.printNat e.natAbs).leftpad 2 '0') = (e, []) := by
  have hall := allDigits_leftpad (k := 2) (Decimal.allDigits_printNat e.natAbs)
  have hspan : ((Decimal.printNat e.natAbs).leftpad 2 '0').span isdigit = ((Decimal.printNat e.natAbs).leftpad 2 '0', []) := by
    rw [List.span_eq_takeWhile_dropWhile, List.takeWhile_eq_self_iff.mpr hall, List.dropWhile_eq_nil_iff.mpr hall]
  have hne : (Decimal.printNat e.natAbs).leftpad 2 '0' ≠ [] :=
    List.append_ne_nil_of_right_ne_nil _ (Decimal.printNat_ne_nil _)
  have hval : digitsVal ((Decimal.printNat e.natAbs).leftpad 2 '0') = e.natAbs := by
    rw [digitsVal_leftpad, Decimal.digitsVal_printNat]
  have hsign : takeSign ((if e < 0 then '-' else '+') :: (Decimal.printNat e.natAbs).leftpad 2 '0') =
      (decide (e < 0), (Decimal.printNat e.natAbs).leftpad 2 '0') := by
    split_ifs with hneg
    · rw [decide_eq_true hneg]
      rfl
    · rw [decide_eq_false hneg]
      rfl
  obtain ⟨c, s, hcons⟩ := List.exists_cons_of_ne_nil hne
  rw [takeExponent, if_pos (by decide), hsign]
  dsimp only
  rw [hspan, hcons]
  dsimp only
  rw [← hcons, hval]
  simp only [decide_eq_true_eq]
  split_ifs with hneg
  · rw [Int.ofNat_natAbs_of_nonpos hneg.le, neg_neg]
  · rw [Int.natAbs_of_nonneg (not_lt.mp hneg)]

/-- Is a number that `strtod` takes without an error? -/
def InRange (q : ℚ) : Prop := q = 0 ∨ dblMin ≤ |q| ∧ |q| < dblOverflow

theorem dblOverflow_pos : 0 < dblOverflow := by
  rw [dblOverflow]
  exact sub_pos.mpr (pow_lt_pow_right₀ one_lt_two (by norm_num))

/-- The sign and the range. -/
theorem finishStrtod_rounded (h : InRange (rounded n q)) :
    finishStrtod (decide (q < 0)) (magnitude n (parts n |q|)) [] = ⟨.num (rounded n q), [], false⟩ := by
  rw [InRange, abs_rounded] at h
  have hlt : magnitude n (parts n |q|) < dblOverflow := by
    rcases h with h | h
    · rw [← abs_rounded, h, abs_zero]
      exact dblOverflow_pos
    · exact h.2
  have hnormal : ¬(0 < magnitude n (parts n |q|) ∧ magnitude n (parts n |q|) < dblMin) := by
    rcases h with h | h
    · rw [← abs_rounded, h, abs_zero]
      exact fun hpos => lt_irrefl _ hpos.1
    · exact fun hsmall => not_lt.mpr h.1 hsmall.2
  rw [finishStrtod, if_neg (not_le.mpr hlt), decide_eq_false hnormal, rounded]
  simp only [decide_eq_true_eq]

/-- **The number comes back**, rounded to the digits that were printed. -/
theorem strtod_print (hn : 0 < n) (h : InRange (rounded n q)) :
    strtod (print n q) = ⟨.num (rounded n q), [], false⟩ := by
  set p := parts n |q| with hp
  have hlt : p.1 < 10 ^ (n + 1) := by
    rcases eq_or_ne q 0 with rfl | hq
    · rw [hp, abs_zero, parts_zero]
      exact pow_pos (by norm_num) _
    · exact (parts_bounds (abs_pos.mpr hq)).2
  have hall := allDigits_leftpad (k := n + 1) (Decimal.allDigits_printNat p.1)
  have hlen := length_digits hlt
  have hval : digitsVal ((Decimal.printNat p.1).leftpad (n + 1) '0') = p.1 := by
    rw [digitsVal_leftpad, Decimal.digitsVal_printNat]
  -- the first digit is apart
  obtain ⟨d, s, hds⟩ : ∃ d s, (Decimal.printNat p.1).leftpad (n + 1) '0' = d :: s := by
    refine List.exists_cons_of_ne_nil fun hnil => ?_
    rw [hnil] at hlen
    cases hlen
  rw [hds] at hall hlen hval
  have hd : isdigit d = true := hall d List.mem_cons_self
  have hs : Decimal.AllDigits s := fun c hc => hall c (List.mem_cons_of_mem d hc)
  have hslen : s.length = n := Nat.succ_inj.mp hlen
  have hne : s ≠ [] := List.ne_nil_of_length_pos (hslen ▸ hn)
  set ex := 'e' :: (if p.2 < 0 then '-' else '+') :: (Decimal.printNat p.2.natAbs).leftpad 2 '0' with hex
  have htext : print n q = (if q < 0 then ['-'] else []) ++ d :: '.' :: (s ++ ex) := by
    unfold print
    dsimp only
    rw [← hp, hds]
    simp [hex]
  have hsign : takeSign ((print n q).dropWhile isspace) = (decide (q < 0), d :: '.' :: (s ++ ex)) := by
    rw [htext]
    split_ifs with hneg
    · rw [decide_eq_true hneg]
      rfl
    · rw [decide_eq_false hneg, List.nil_append,
        List.dropWhile_cons_of_neg (by rw [Decimal.not_isspace_of_isdigit hd]; exact Bool.false_ne_true)]
      exact Decimal.takeSign_digit hd _
  have hhex : dropPrefixCI "0x".toList (d :: '.' :: (s ++ ex)) = none := by
    change (if tolower d = '0' then (if tolower '.' = 'x' then _ else none) else none) = none
    split_ifs with hzero hx
    · exact absurd hx (by decide)
    · rfl
    · rfl
  have hunsigned : strtodUnsigned (decide (q < 0)) (d :: '.' :: (s ++ ex)) =
      some (finishStrtod (decide (q < 0)) (magnitude n p) []) := by
    rw [strtodUnsigned, hhex]
    dsimp only [Option.bind_eq_bind, Option.bind_none]
    rw [hex, takeMantissa_print hd hs hne]
    dsimp only
    rw [takeExponent_print]
    dsimp only
    rw [List.singleton_append, hval, powInt_eq, hslen]
    rfl
  rw [strtod, hsign]
  dsimp only
  rw [hunsigned, Option.getD_some, finishStrtod_rounded h]

end Scientific
