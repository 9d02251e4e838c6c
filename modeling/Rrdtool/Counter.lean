import Rrdtool.Accumulate
import Rrdtool.Position
import Mathlib.Data.List.TakeWhile
import Mathlib.Tactic.Ring
import Mathlib.Tactic.Linarith
import Mathlib.Tactic.LinearCombination

/-!
# Counter differences

`COUNTER` and `DERIVE` readings are decimal integers of any length. An update keeps the reading as
text in `last_ds`, and `rrd_diff` subtracts it from the next one digit by digit.

* `rrdDiff_decimal` — the subtraction is exact, or unknown;
* `counter_amount_iff` — but `last_ds` holds 29 characters, so the difference of two readings is right
  if and only if what is cut off the first one does not matter.
-/

namespace Rrdtool

open Loop

/-! ## Subtraction digit by digit -/

/-- A list of digits. -/
def AreDigits (ds : List ℤ) : Prop := ∀ d ∈ ds, 0 ≤ d ∧ d ≤ 9

theorem leDigitsVal_cons (d : ℤ) (ds : List ℤ) : leDigitsVal (d :: ds) = d + 10 * leDigitsVal ds := rfl

/-- A missing digit is zero. -/
theorem leDigitsVal_head (ds : List ℤ) : leDigitsVal ds = ds.headD 0 + 10 * leDigitsVal ds.tail := by
  cases ds with
  | nil => rfl
  | cons d ds => rfl

theorem AreDigits.head {ds : List ℤ} (h : AreDigits ds) : 0 ≤ ds.headD 0 ∧ ds.headD 0 ≤ 9 := by
  cases ds with
  | nil => exact ⟨le_rfl, by decide⟩
  | cons d ds => exact h d (List.mem_cons_self)

theorem AreDigits.tail {ds : List ℤ} (h : AreDigits ds) : AreDigits ds.tail :=
  fun d hd => h d (List.mem_of_mem_tail hd)

theorem AreDigits.cons {d : ℤ} {ds : List ℤ} (hd : 0 ≤ d ∧ d ≤ 9) (h : AreDigits ds) :
    AreDigits (d :: ds) := by
  intro e he
  obtain rfl | he := List.mem_cons.mp he
  · exact hd
  · exact h e he

theorem AreDigits.val_bounds {ds : List ℤ} (h : AreDigits ds) :
    0 ≤ leDigitsVal ds ∧ leDigitsVal ds < 10 ^ ds.length := by
  induction ds with
  | nil => exact ⟨le_rfl, by decide⟩
  | cons d ds ih =>
    obtain ⟨hlo, hhi⟩ := ih h.tail
    obtain ⟨hd0, hd9⟩ := h.head
    change 0 ≤ d at hd0
    change d ≤ 9 at hd9
    rw [leDigitsVal_cons, List.length_cons, pow_succ]
    constructor <;> linarith

/-- One pass of the subtraction loop. -/
theorem diffDigit_spec {a b c : ℤ} (ha : 0 ≤ a ∧ a ≤ 9) (hb : 0 ≤ b ∧ b ≤ 9) (hc : c = 0 ∨ c = 1) :
    let r := a - c - b
    let p : ℤ × ℤ := if r < 0 then (r + 10, 1) else if 9 < r then (r - 10, 1) else (r, 0)
    p.1 + b + c = a + 10 * p.2 ∧ (0 ≤ p.1 ∧ p.1 ≤ 9) ∧ (p.2 = 0 ∨ p.2 = 1) := by
  dsimp only
  split_ifs with hneg hbig
  · refine ⟨?_, ?_, .inr rfl⟩
    · dsimp only
      omega
    · dsimp only
      omega
  · omega
  · refine ⟨?_, ?_, .inl rfl⟩
    · dsimp only
      omega
    · dsimp only
      omega

/-- **The subtraction loop of `rrd_diff`**: the digits and the final borrow are the difference. -/
theorem diffDigits_spec {m : ℕ} {as bs : List ℤ} {c : ℤ} (ha : AreDigits as) (hb : AreDigits bs)
    (hla : as.length ≤ m) (hlb : bs.length ≤ m) (hc : c = 0 ∨ c = 1) :
    let r := diffDigits m as bs c
    leDigitsVal r.1 + leDigitsVal bs + c = leDigitsVal as + r.2 * 10 ^ m ∧ (r.2 = 0 ∨ r.2 = 1) ∧
      AreDigits r.1 ∧ r.1.length = m := by
  induction m generalizing as bs c with
  | zero =>
    obtain rfl := List.length_eq_zero_iff.mp (Nat.le_zero.mp hla)
    obtain rfl := List.length_eq_zero_iff.mp (Nat.le_zero.mp hlb)
    refine ⟨?_, hc, fun d hd => absurd hd List.not_mem_nil, rfl⟩
    change (0 : ℤ) + 0 + c = 0 + c * 10 ^ 0
    ring
  | succ m ih =>
    have hpass := diffDigit_spec ha.head hb.head hc
    simp only [diffDigits]
    dsimp only at hpass
    generalize (if as.headD 0 - c - bs.headD 0 < 0 then (as.headD 0 - c - bs.headD 0 + 10, (1 : ℤ))
      else if 9 < as.headD 0 - c - bs.headD 0 then (as.headD 0 - c - bs.headD 0 - 10, 1)
      else (as.headD 0 - c - bs.headD 0, 0)) = p at hpass ⊢
    obtain ⟨hsum, hdig, hout⟩ := hpass
    obtain ⟨hval, hbor, hds, hlen⟩ := ih ha.tail hb.tail
      (by rw [List.length_tail]; omega) (by rw [List.length_tail]; omega) hout
    refine ⟨?_, hbor, hds.cons hdig, by rw [List.length_cons, hlen]⟩
    rw [leDigitsVal_cons, leDigitsVal_head as, leDigitsVal_head bs, pow_succ]
    linear_combination hsum + 10 * hval

/-- The complement pass, behind the carry. -/
theorem diffComplement_zero {ds : List ℤ} (h : AreDigits ds) :
    leDigitsVal (diffComplement ds 0) = 10 ^ ds.length - 1 - leDigitsVal ds := by
  induction ds with
  | nil => rfl
  | cons d ds ih =>
    have hd : 0 ≤ d ∧ d ≤ 9 := h.head
    have hno : ¬9 < 9 - d + 0 := by omega
    simp only [diffComplement, if_neg hno]
    rw [leDigitsVal_cons, leDigitsVal_cons, ih h.tail, List.length_cons, pow_succ]
    ring

/-- **The complement pass of `rrd_diff`** negates a number that is not zero. -/
theorem diffComplement_one {ds : List ℤ} (h : AreDigits ds) (hpos : 0 < leDigitsVal ds) :
    leDigitsVal (diffComplement ds 1) = 10 ^ ds.length - leDigitsVal ds := by
  induction ds with
  | nil => exact absurd hpos (lt_irrefl 0)
  | cons d ds ih =>
    have hd : 0 ≤ d ∧ d ≤ 9 := h.head
    rw [leDigitsVal_cons] at hpos
    by_cases hzero : d = 0
    · -- the carry goes on
      have hyes : 9 < 9 - d + 1 := by omega
      simp only [diffComplement, if_pos hyes]
      rw [leDigitsVal_cons, leDigitsVal_cons, ih h.tail (by omega), List.length_cons, pow_succ]
      omega
    · have hno : ¬9 < 9 - d + 1 := by omega
      have hrest : AreDigits ds := h.tail
      simp only [diffComplement, if_neg hno]
      rw [leDigitsVal_cons, leDigitsVal_cons, diffComplement_zero hrest, List.length_cons, pow_succ]
      omega

/-! ## Decimal integers -/

/-- The sign and the digits of a decimal string. -/
def splitSign : Text → Bool × Text
  | '-' :: ds => (true, ds)
  | ds => (false, ds)

/-- The integer that a decimal string denotes. -/
def decimalVal (t : Text) : ℤ :=
  if (splitSign t).1 then -CStr.digitsVal (splitSign t).2 else CStr.digitsVal (splitSign t).2

/-- A decimal integer: digits, at least one, after a minus sign if one may stand there. -/
def isDecimal (signed : Bool) (t : Text) : Bool :=
  (signed || !(splitSign t).1) && !(splitSign t).2.isEmpty && (splitSign t).2.all CStr.isdigit

/-- The digits of a decimal string, least significant first. -/
def leDigits (ds : Text) : List ℤ := (ds.map fun c => (CStr.digitVal c : ℤ)).reverse

theorem leDigitsVal_append_singleton (ds : List ℤ) (d : ℤ) :
    leDigitsVal (ds ++ [d]) = leDigitsVal ds + d * 10 ^ ds.length := by
  induction ds with
  | nil =>
    change d + 10 * 0 = 0 + d * 10 ^ 0
    ring
  | cons e ds ih =>
    rw [List.cons_append, leDigitsVal_cons, leDigitsVal_cons, ih, List.length_cons, pow_succ]
    ring

/-- Both readings of a digit string agree. -/
theorem leDigitsVal_leDigits (ds : Text) : leDigitsVal (leDigits ds) = CStr.digitsVal ds := by
  have hfold : ∀ (ds : Text) (n : ℕ), ((ds.foldl (fun n c => 10 * n + CStr.digitVal c) n : ℕ) : ℤ) =
      leDigitsVal (leDigits ds) + n * 10 ^ ds.length := by
    intro ds
    induction ds with
    | nil =>
      intro n
      change (n : ℤ) = 0 + n * 10 ^ 0
      ring
    | cons c ds ih =>
      intro n
      rw [List.foldl_cons, ih]
      have hlen : (leDigits ds).length = ds.length := by simp [leDigits]
      have hcons : leDigits (c :: ds) = leDigits ds ++ [(CStr.digitVal c : ℤ)] := by simp [leDigits]
      rw [hcons, leDigitsVal_append_singleton, hlen, List.length_cons, pow_succ]
      push_cast
      ring
  have h := hfold ds 0
  simp only [Nat.cast_zero, zero_mul, add_zero] at h
  exact h.symm

theorem areDigits_leDigits {ds : Text} (h : ds.all CStr.isdigit = true) : AreDigits (leDigits ds) := by
  intro d hd
  obtain ⟨c, hc, rfl⟩ : ∃ c ∈ ds, (CStr.digitVal c : ℤ) = d := by simpa [leDigits] using hd
  have hdig := List.all_eq_true.mp h c hc
  simp only [CStr.isdigit, Bool.and_eq_true, decide_eq_true_eq] at hdig
  have hle : c.toNat ≤ '9'.toNat := hdig.2
  have h9 : '9'.toNat = 57 := rfl
  have h0 : '0'.toNat = 48 := rfl
  rw [CStr.digitVal]
  omega

/-- **`rrd_diff` on two strings of digits** is exact. -/
theorem diff_digits {as bs : Text} (ha : as.all CStr.isdigit = true) (hb : bs.all CStr.isdigit = true) :
    let p := diffDigits (max as.length bs.length) (leDigits as) (leDigits bs) 0
    (if p.2 ≠ 0 then -leDigitsVal (diffComplement p.1 p.2) else leDigitsVal p.1) =
      (CStr.digitsVal as : ℤ) - CStr.digitsVal bs := by
  have hla : (leDigits as).length = as.length := by simp [leDigits]
  have hlb : (leDigits bs).length = bs.length := by simp [leDigits]
  have hspec := diffDigits_spec (m := max as.length bs.length) (c := 0) (areDigits_leDigits ha)
    (areDigits_leDigits hb) (by omega) (by omega) (.inl rfl)
  dsimp only at hspec ⊢
  generalize diffDigits (max as.length bs.length) (leDigits as) (leDigits bs) 0 = p at hspec ⊢
  obtain ⟨hval, hbor, hdig, hlen⟩ := hspec
  rw [leDigitsVal_leDigits, leDigitsVal_leDigits] at hval
  obtain h0 | h1 := hbor
  · rw [h0] at hval ⊢
    rw [if_neg (by simp)]
    linarith
  · -- a final borrow: the digits are those of the difference plus a power of ten
    have hbs := (areDigits_leDigits hb).val_bounds
    rw [leDigitsVal_leDigits, hlb] at hbs
    have hpow : (10 : ℤ) ^ bs.length ≤ 10 ^ max as.length bs.length :=
      pow_le_pow_right₀ (by norm_num) (le_max_right _ _)
    have has : (0 : ℤ) ≤ CStr.digitsVal as := by positivity
    rw [h1] at hval ⊢
    rw [if_pos one_ne_zero, diffComplement_one hdig (by linarith), hlen]
    linarith

/-- What `rrd_diff` makes of its operands. -/
theorem diffOperand_decimal {t : Text} (h : isDecimal true t = true) : diffOperand t = splitSign t := by
  simp only [isDecimal, Bool.true_or, Bool.true_and, Bool.and_eq_true, Bool.not_eq_true'] at h
  obtain ⟨hne, hall⟩ := h
  have hdigits : ∀ ds : Text, ds.isEmpty = false → ds.all CStr.isdigit = true →
      diffOperand ds = (false, ds) := by
    intro ds hne hall
    cases ds with
    | nil => simp at hne
    | cons c ds =>
      have hc : CStr.isdigit c = true := List.all_eq_true.mp hall c List.mem_cons_self
      rw [diffOperand, if_pos hc, List.takeWhile_eq_self_iff.mpr (List.all_eq_true.mp hall)]
  cases t with
  | nil => exact absurd hne (by decide)
  | cons c ds =>
    by_cases hc : c = '-'
    · subst hc
      have hminus : CStr.isdigit '-' = false := by decide
      change ds.isEmpty = false at hne
      change ds.all CStr.isdigit = true at hall
      rw [diffOperand, hminus, hdigits ds hne hall]
      rfl
    · have hplain : splitSign (c :: ds) = (false, c :: ds) := by simp [splitSign, hc]
      rw [hplain] at hall ⊢
      exact hdigits (c :: ds) rfl hall

/-- **`rrd_diff`** of two decimal integers is their difference; it is unknown for different signs, or
if one of them has more than 30 digits. -/
theorem rrdDiff_decimal {a b : Text} (ha : isDecimal true a = true) (hb : isDecimal true b = true) :
    rrdDiff a b = if (splitSign a).1 ≠ (splitSign b).1 ∨
        lastDsLen < max (splitSign a).2.length (splitSign b).2.length then dnan
      else .num (decimalVal a - decimalVal b : ℤ) := by
  have hra := diffOperand_decimal ha
  have hrb := diffOperand_decimal hb
  simp only [isDecimal, Bool.true_or, Bool.true_and, Bool.and_eq_true, Bool.not_eq_true',
    List.isEmpty_eq_false_iff] at ha hb
  have hdiff := diff_digits ha.2 hb.2
  simp only [rrdDiff, hra, hrb, ha.1, hb.1, or_self, if_false]
  by_cases hsign : (splitSign a).1 = (splitSign b).1
  · by_cases hlen : lastDsLen < max (splitSign a).2.length (splitSign b).2.length
    · simp [hsign, hlen]
    · have hno : ¬((splitSign a).1 ≠ (splitSign b).1 ∨
          lastDsLen < max (splitSign a).2.length (splitSign b).2.length) :=
        not_or.mpr ⟨not_not.mpr hsign, hlen⟩
      dsimp only [leDigits] at hdiff
      rw [if_neg (not_not.mpr hsign), if_neg hlen, if_neg hno, hdiff, decimalVal, decimalVal, hsign]
      cases (splitSign b).1 with
      | false => simp
      | true =>
        simp
        ring
  · simp [hsign]

/-! ## Cutting a reading -/

theorem digitsVal_append (as bs : Text) :
    CStr.digitsVal (as ++ bs) = CStr.digitsVal as * 10 ^ bs.length + CStr.digitsVal bs := by
  have hfold : ∀ (bs : Text) (n : ℕ), bs.foldl (fun n c => 10 * n + CStr.digitVal c) n =
      n * 10 ^ bs.length + CStr.digitsVal bs := by
    intro bs
    induction bs with
    | nil =>
      intro n
      change n = n * 10 ^ 0 + 0
      ring
    | cons c bs ih =>
      intro n
      rw [CStr.digitsVal, List.foldl_cons, List.foldl_cons, ih, ih, List.length_cons, pow_succ]
      ring
  rw [CStr.digitsVal, List.foldl_append, hfold bs]
  rfl

/-- A cut number of digits is not larger. -/
theorem digitsVal_take_le (n : ℕ) (ds : Text) : CStr.digitsVal (ds.take n) ≤ CStr.digitsVal ds := by
  have h := digitsVal_append (ds.take n) (ds.drop n)
  rw [List.take_append_drop] at h
  have hpow : 0 < 10 ^ (ds.drop n).length := by positivity
  have hle := Nat.le_mul_of_pos_right (CStr.digitsVal (ds.take n)) hpow
  omega

/-- The reading that `last_ds` keeps. -/
def lastDsOf (reading : Text) : Text := CStr.strncpy reading (lastDsLen - 1)

theorem splitSign_take (t : Text) :
    (splitSign (lastDsOf t)).1 = (splitSign t).1 ∧
      (splitSign (lastDsOf t)).2 = (splitSign t).2.take (29 - (splitSign t).1.toNat) := by
  cases t with
  | nil => exact ⟨rfl, rfl⟩
  | cons c ds =>
    have hcut : lastDsOf (c :: ds) = c :: ds.take 28 := rfl
    by_cases hc : c = '-'
    · subst hc
      exact ⟨rfl, rfl⟩
    · have hplain : ∀ ds, splitSign (c :: ds) = (false, c :: ds) := fun ds => by simp [splitSign, hc]
      rw [hcut, hplain, hplain]
      exact ⟨rfl, rfl⟩

/-- A cut decimal integer is one too. -/
theorem isDecimal_lastDsOf {signed : Bool} {t : Text} (h : isDecimal signed t = true) :
    isDecimal signed (lastDsOf t) = true := by
  obtain ⟨hsign, hdigits⟩ := splitSign_take t
  simp only [isDecimal, hsign, hdigits, Bool.and_eq_true, Bool.not_eq_true', List.isEmpty_eq_false_iff,
    List.all_eq_true] at h ⊢
  obtain ⟨⟨hs, hne⟩, hall⟩ := h
  refine ⟨⟨hs, fun hnil => hne ?_⟩, fun c hc => hall c (List.mem_of_mem_take hc)⟩
  have hpos : 29 - (splitSign t).1.toNat ≠ 0 := by
    have := Bool.toNat_le (splitSign t).1
    omega
  exact (List.take_eq_nil_iff.mp hnil).resolve_left hpos

theorem length_lastDsOf (t : Text) : (splitSign (lastDsOf t)).2.length < lastDsLen := by
  rw [(splitSign_take t).2, List.length_take]
  have : lastDsLen = 30 := rfl
  omega

/-! ## The amount of an interval -/

/-- The overflow catcher: what a counter has counted if its readings differ by `x`. -/
def counterAmount (x : ℤ) : ℤ :=
  if 0 ≤ x then x else if 0 ≤ x + 2 ^ 32 then x + 2 ^ 32 else x + 2 ^ 64

/-- What a `COUNTER` or `DERIVE` DS has counted between two readings. -/
def amountBetween (dst : Dst) (new old : Text) : ℤ :=
  if dst = .counter then counterAmount (decimalVal new - decimalVal old)
  else decimalVal new - decimalVal old

/-- The sign that a DS allows. -/
def Dst.signed (dst : Dst) : Bool := dst = .derive

theorem isDecimal_of_signed {signed : Bool} {t : Text} (h : isDecimal signed t = true) :
    isDecimal true t = true := by
  simp only [isDecimal, Bool.and_eq_true, Bool.true_or, true_and] at h ⊢
  exact ⟨h.1.2, h.2⟩

/-- A decimal integer passes the check of `update_pdp_prep`. -/
theorem isSimpleInteger_of_isDecimal {signed : Bool} {t : Text} (h : isDecimal signed t = true) :
    isSimpleInteger signed t = true := by
  cases t with
  | nil => rfl
  | cons c ds =>
    by_cases hc : c = '-'
    · subst hc
      simp only [isDecimal, splitSign, Bool.not_true, Bool.or_false, Bool.and_eq_true] at h
      simp only [isSimpleInteger, h.1.1, h.2, decide_true, Bool.and_self, Bool.true_or]
    · have hplain : splitSign (c :: ds) = (false, c :: ds) := by simp [splitSign, hc]
      simp only [isDecimal, hplain, List.all_cons, Bool.and_eq_true] at h
      simp only [isSimpleInteger, h.2.1, h.2.2, Bool.or_true, Bool.and_self]

theorem head_ne_U {t : Text} (h : isDecimal true t = true) : t.head? ≠ some 'U' := by
  cases t with
  | nil => simp
  | cons c ds =>
    rintro ⟨⟩
    simp [isDecimal, splitSign, CStr.isdigit] at h

/-- The overflow catcher of `update_pdp_prep`. -/
theorem counterAmount_eq (x : ℤ) :
    (let d : RrdValue := .num x
      let d := if d.lt (.num 0) then d + .num 4294967296 else d
      if d.lt (.num 0) then d + .num 18446744069414584320 else d) = .num (counterAmount x : ℤ) := by
  dsimp only
  rw [counterAmount]
  by_cases h0 : 0 ≤ x
  · have hno : ¬(x : ℚ) < 0 := by exact_mod_cast not_lt.mpr h0
    simp [hno, h0]
  · have hyes : (x : ℚ) < 0 := by exact_mod_cast not_le.mp h0
    by_cases h32 : 0 ≤ x + 2 ^ 32
    · have hno : ¬(x : ℚ) + 4294967296 < 0 := by
        have : (0 : ℚ) ≤ x + 2 ^ 32 := by exact_mod_cast h32
        linarith
      rw [if_neg h0, if_pos h32]
      simp [hyes, hno]
    · have hyes' : (x : ℚ) + 4294967296 < 0 := by
        have : (x : ℚ) + 2 ^ 32 < 0 := by exact_mod_cast not_le.mp h32
        linarith
      rw [if_neg h0, if_neg h32]
      simp [hyes, hyes']
      ring

/-- **What `update_pdp_prep` makes of a reading**: the amount since the reading in `last_ds`. -/
theorem readValue_decimal {dst : Dst} (hdst : dst = .counter ∨ dst = .derive) {new last : Text}
    (hnew : isDecimal dst.signed new = true) (hlast : isDecimal dst.signed last = true) (interval : ℚ) :
    ∃ v, readValue dst new last interval = .ok (v, v / .num interval) ∧
      v = if (splitSign new).1 ≠ (splitSign last).1 ∨
          lastDsLen < max (splitSign new).2.length (splitSign last).2.length then dnan
        else .num (amountBetween dst new last : ℤ) := by
  have hU := head_ne_U (isDecimal_of_signed hlast)
  have hint := isSimpleInteger_of_isDecimal hnew
  have hdiff := rrdDiff_decimal (isDecimal_of_signed hnew) (isDecimal_of_signed hlast)
  obtain rfl | rfl := hdst
  · have hint' : isSimpleInteger false new = true := hint
    simp only [readValue, hint', Bool.not_true, Bool.false_eq_true, if_false, hU, hdiff]
    refine ⟨_, rfl, ?_⟩
    by_cases hp : (splitSign new).1 ≠ (splitSign last).1 ∨
        lastDsLen < max (splitSign new).2.length (splitSign last).2.length
    · simp only [if_pos hp]
      rfl
    · simp only [if_neg hp, amountBetween, if_true, ← counterAmount_eq]
  · have hint' : isSimpleInteger true new = true := hint
    simp only [readValue, hint', Bool.not_true, Bool.false_eq_true, if_false, hU, hdiff]
    exact ⟨_, rfl, rfl⟩

/-- **Cutting the first reading does no harm**: what is cut off does not change the number, or the
number changes by what the overflow catcher adds. -/
def CutHarmless (dst : Dst) (new old : Text) : Prop :=
  let x := decimalVal new - decimalVal old
  let lost := decimalVal old - decimalVal (lastDsOf old)
  lost = 0 ∨ (dst = .counter ∧
    ((lost = 2 ^ 32 ∧ -2 ^ 32 ≤ x ∧ x < 0) ∨
      (lost = 2 ^ 64 - 2 ^ 32 ∧ x < -2 ^ 32 ∧ -2 ^ 32 ≤ x + lost ∧ x + lost < 0) ∨
      (lost = 2 ^ 64 ∧ x < -2 ^ 32 ∧ 0 ≤ x + lost)))

/-- A reading of at most 29 characters is not cut. -/
theorem cutHarmless_of_length {dst : Dst} {new old : Text} (h : old.length < lastDsLen) :
    CutHarmless dst new old := by
  left
  have hkeep : lastDsOf old = old := List.take_of_length_le (Nat.le_sub_one_of_lt h)
  rw [hkeep, sub_self]

theorem counterAmount_add {x lost : ℤ} (hlost : 0 ≤ lost) :
    counterAmount (x + lost) = counterAmount x ↔
      lost = 0 ∨ (lost = 2 ^ 32 ∧ -2 ^ 32 ≤ x ∧ x < 0) ∨
        (lost = 2 ^ 64 - 2 ^ 32 ∧ x < -2 ^ 32 ∧ -2 ^ 32 ≤ x + lost ∧ x + lost < 0) ∨
        (lost = 2 ^ 64 ∧ x < -2 ^ 32 ∧ 0 ≤ x + lost) := by
  rw [counterAmount, counterAmount]
  split_ifs <;> omega

/-- **A cut reading gives the right amount** if and only if the cut does no harm. -/
theorem amountBetween_cut {dst : Dst} (hdst : dst = .counter ∨ dst = .derive) {new old : Text}
    (hold : isDecimal dst.signed old = true) :
    amountBetween dst new (lastDsOf old) = amountBetween dst new old ↔ CutHarmless dst new old := by
  have hshift : decimalVal new - decimalVal (lastDsOf old) =
      decimalVal new - decimalVal old + (decimalVal old - decimalVal (lastDsOf old)) := by ring
  obtain rfl | rfl := hdst
  · -- the readings of a counter have no sign
    have hpos : (splitSign old).1 = false := by
      simp only [isDecimal, Bool.and_eq_true] at hold
      simpa [Dst.signed] using hold.1.1
    have hlost : 0 ≤ decimalVal old - decimalVal (lastDsOf old) := by
      obtain ⟨hsign, hdigits⟩ := splitSign_take old
      simp only [decimalVal, hsign, hdigits, hpos, Bool.false_eq_true, if_false]
      have := digitsVal_take_le (29 - false.toNat) (splitSign old).2
      omega
    simp only [amountBetween, if_true, CutHarmless, true_and, hshift, counterAmount_add hlost]
  · simp only [amountBetween, reduceCtorEq, if_false, CutHarmless, false_and, or_false, hshift]
    omega

/-- The amount since a cut reading is unknown or right. -/
theorem cut_amount_iff {dst : Dst} (hdst : dst = .counter ∨ dst = .derive) {new old : Text}
    (hold : isDecimal dst.signed old = true) {v : RrdValue}
    (hv : v = if (splitSign new).1 ≠ (splitSign (lastDsOf old)).1 ∨
        lastDsLen < max (splitSign new).2.length (splitSign (lastDsOf old)).2.length then dnan
      else .num (amountBetween dst new (lastDsOf old) : ℤ)) :
    v = dnan ∨ v = .num (amountBetween dst new old : ℤ) ↔
      (splitSign new).1 ≠ (splitSign old).1 ∨ lastDsLen < (splitSign new).2.length ∨
        CutHarmless dst new old := by
  have hlen : lastDsLen < max (splitSign new).2.length (splitSign (lastDsOf old)).2.length ↔
      lastDsLen < (splitSign new).2.length := by
    have := length_lastDsOf old
    omega
  simp only [(splitSign_take old).1, hlen] at hv
  rw [← amountBetween_cut hdst hold, ← or_assoc]
  by_cases hnan : (splitSign new).1 ≠ (splitSign old).1 ∨ lastDsLen < (splitSign new).2.length
  · rw [if_pos hnan] at hv
    exact ⟨fun _ => .inl hnan, fun _ => .inl hv⟩
  · rw [if_neg hnan] at hv
    subst hv
    simp only [hnan, false_or, reduceCtorEq, Dbl.num.injEq, Int.cast_inj]

/-! ## Two updates -/

/-- An argument leaves its reading in `last_ds`, cut. -/
theorem Upd.next_lastDs {u : Upd} {i : ℕ} (interval : ℚ) (hi : i < u.rrd.dsCnt) :
    (u.next interval i).lastDs = lastDsOf (u.updvals (i + 1)) := by
  have hprep : (u.prepared interval u.rrd.dsCnt).rrd.pdpPrep i = u.stored i := by
    simp [Upd.prepared, hi]
  simp only [Upd.next, Upd.added, Upd.ready, hprep]
  split_ifs <;> rfl

/-- **Counter differences**: the amount that the second of two updates computes for a `COUNTER` or
`DERIVE` DS is unknown or right if and only if the signs differ, the second reading has more than 30
digits, or cutting the first reading does no harm. -/
theorem counter_amount_iff {env env' : Env} {arg arg' : Text} {s t t' v u u' : Upd} {i : ℕ} {dst : Dst}
    (hfirst : processArg env arg s = .ok t) (hu : parseDs env arg s = .ok u) (hnext : NextUpdate t t')
    (hsecond : processArg env' arg' t' = .ok v) (hu' : parseDs env' arg' t' = .ok u')
    (hi : i < s.rrd.dsCnt) (hds : (s.rrd.dsDef i).dst = dst) (hdst : dst = .counter ∨ dst = .derive)
    (hbeat : updateInterval u' ≤ (s.rrd.dsDef i).mrhbCnt)
    (hold : isDecimal dst.signed (u.updvals (i + 1)) = true)
    (hnew : isDecimal dst.signed (u'.updvals (i + 1)) = true) :
    ∃ w amount, updatePdpPrep (updateInterval u') u' = .ok w ∧
      readValue dst (u'.updvals (i + 1)) (u'.rrd.pdpPrep i).lastDs (updateInterval u') =
        .ok (amount, amount / .num (updateInterval u')) ∧
      w.pdpNew i = (if outOfRange (s.rrd.dsDef i) (amount / .num (updateInterval u')) then dnan
        else amount) ∧
      (amount = dnan ∨ amount = .num (amountBetween dst (u'.updvals (i + 1)) (u.updvals (i + 1)) : ℤ) ↔
        (splitSign (u'.updvals (i + 1))).1 ≠ (splitSign (u.updvals (i + 1))).1 ∨
          lastDsLen < (splitSign (u'.updvals (i + 1))).2.length ∨
          CutHarmless dst (u'.updvals (i + 1)) (u.updvals (i + 1))) := by
  obtain ⟨u₁, hu₁, -, -, -, hprep⟩ := processArg_pdpPrep hfirst
  obtain rfl : u₁ = u := Outcome.ok.inj (hu₁.symm.trans hu)
  have hdefs : SameDefs s.rrd t.rrd := processArg_sameDefs hfirst
  obtain ⟨hdefs', hprep', -⟩ := hnext.pdpPrep
  have hcnt : u₁.rrd.dsCnt = s.rrd.dsCnt := (Outcome.of_state_ok hu (parseDs_state arg s)).sameDefs.dsCnt
  have hframe : ParseFrame t' u' := Outcome.of_state_ok hu' (parseDs_state arg' t')
  have hds' : u'.rrd.dsDef i = s.rrd.dsDef i := by
    rw [hframe.sameDefs.dsDef, hdefs'.dsDef, hdefs.dsDef]
  -- the reading of the first update is what `last_ds` kept of it
  have hlast : (u'.rrd.pdpPrep i).lastDs = lastDsOf (u₁.updvals (i + 1)) := by
    have hsame : u'.rrd.pdpPrep = t'.rrd.pdpPrep := by
      obtain ⟨_, _, _, rfl⟩ := hframe
      rfl
    rw [hsame, hprep', hprep i (by rw [hcnt]; exact hi)]
    exact Upd.next_lastDs _ (by rw [hcnt]; exact hi)
  obtain ⟨amount, hread, hamount⟩ := readValue_decimal hdst hnew (isDecimal_lastDsOf hold)
    (updateInterval u')
  rw [← hlast] at hread
  obtain ⟨u₂, w, -, hu₂, hw, -, -⟩ := processArg_eq_ok hsecond
  obtain rfl : u₂ = u' := Outcome.ok.inj (hu₂.symm.trans hu')
  refine ⟨w, amount, hw, hread, ?_, cut_amount_iff hdst hold hamount⟩
  obtain ⟨-, rfl⟩ := updatePdpPrep_loop.mp hw
  have hi' : i < u₂.rrd.dsCnt := by
    rw [hframe.sameDefs.dsCnt, hdefs'.dsCnt, hdefs.dsCnt]
    exact hi
  have htake : takesReading (u₂.rrd.dsDef i) (u₂.updvals (i + 1)) (updateInterval u₂) = true := by
    have hU := head_ne_U (isDecimal_of_signed hnew)
    have hcdef : (u₂.rrd.dsDef i).dst ≠ .cdef := by
      rw [hds', hds]
      obtain rfl | rfl := hdst
      · decide
      · decide
    rw [← hds'] at hbeat
    simp only [takesReading, hU, hcdef, ne_eq, not_false_eq_true, decide_true, Bool.true_and,
      decide_eq_true_eq]
    exact hbeat
  rw [hds'] at htake
  simp only [Upd.prepared, if_pos hi', Upd.newPdp, hds', htake, if_true, hds, hread]

/-- `DS:c:COUNTER:600:U:U`, created at time 900. -/
def CreateArgs.counter : CreateArgs :=
  { CreateArgs.single with
    dsDef := fun _ => ⟨['c'], .counter, .generic 600 dnan dnan⟩ }

/-- The working storage of the first call. -/
def counterStart : Upd := (Upd.blank (rrdCreateFn .counter fun _ => 0)).start (rrdCreateFn .counter fun _ => 0)

/-- Readings of four digits that go back by 500: the counter has wrapped at 32 bits. -/
theorem counter_wraps :
    let t := (processArg .bare "1200:1500".toList counterStart).state
    let u := (parseDs .bare "1500:1000".toList t).state
    ∃ w amount, updatePdpPrep (updateInterval u) u = .ok w ∧
      readValue .counter (u.updvals 1) (u.rrd.pdpPrep 0).lastDs (updateInterval u) =
        .ok (amount, amount / .num (updateInterval u)) ∧
      w.pdpNew 0 = (if outOfRange (counterStart.rrd.dsDef 0) (amount / .num (updateInterval u)) then dnan
        else amount) ∧
      (amount = dnan ∨ amount =
        .num (amountBetween .counter (u.updvals 1)
          ((parseDs .bare "1200:1500".toList counterStart).state.updvals 1) : ℤ)) := by
  intro t u
  have hfirst : processArg .bare "1200:1500".toList counterStart = .ok t :=
    Outcome.eq_ok_state (by decide +kernel)
  have hsecond : processArg .bare "1500:1000".toList t = .ok _ := Outcome.eq_ok_state (by decide +kernel)
  have hu' : parseDs .bare "1500:1000".toList t = .ok u := Outcome.eq_ok_state (by decide +kernel)
  obtain ⟨w, amount, hw, hread, hnew, hiff⟩ := counter_amount_iff (i := 0) hfirst
    (Outcome.eq_ok_state (by decide +kernel)) .arg hsecond hu' (by decide) rfl (.inl rfl)
    (by decide +kernel) (by decide +kernel) (by decide +kernel)
  exact ⟨w, amount, hw, hread, hnew, hiff.mpr (.inr (.inr
    (cutHarmless_of_length (by decide +kernel))))⟩

/-- **The same reading twice, of 30 digits**: the counter has not moved, but the amount is nine tenths
of the reading. -/
theorem long_counter_cut :
    let reading : Text := "100000000000000000000000000000".toList
    let t := (processArg .bare ("1200:".toList ++ reading) counterStart).state
    let u := (parseDs .bare ("1500:".toList ++ reading) t).state
    (processArg .bare ("1200:".toList ++ reading) counterStart).isOk = true ∧
      (processArg .bare ("1500:".toList ++ reading) t).isOk = true ∧ u.updvals 1 = reading ∧
      isDecimal false reading = true ∧ amountBetween .counter reading reading = 0 ∧
      updateInterval u = 300 ∧
      (updatePdpPrep 300 u).state.pdpNew 0 = .num 90000000000000000000000000000 := by
  decide +kernel

end Rrdtool
