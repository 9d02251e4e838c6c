import Mathlib.Algebra.Order.Field.Rat
import Mathlib.Data.Rat.Floor
import Mathlib.Tactic.NormNum

/-!
# Exact doubles

The C type `double` with exact arithmetic: the finite values are the rationals, and NaN and
the two infinities follow IEEE 754 (NaN absorbs, `∞ - ∞`, `0 * ∞`, `0 / 0` and `∞ / ∞` are
NaN, a comparison with NaN is false). There is one zero, so `x / 0` takes the sign of `x`.
-/

/-- A C `double`, without rounding. -/
inductive Dbl : Type where
  /-- not a number -/
  | nan : Dbl
  /-- minus infinity -/
  | neginf : Dbl
  /-- a finite value -/
  | num : ℚ → Dbl
  /-- plus infinity -/
  | inf : Dbl
  deriving DecidableEq

namespace Dbl

/-- The value of an integer counter used as a `double`. -/
def ofNat (n : ℕ) : Dbl := num n

/-- `isnan`. -/
def isnan : Dbl → Bool
  | nan => true
  | _ => false

/-- `isinf`. -/
def isinf : Dbl → Bool
  | neginf => true
  | inf => true
  | _ => false

/-- Infinity with the sign of a non-zero rational, NaN for zero (`q * ∞`). -/
def infSign (q : ℚ) : Dbl := if 0 < q then inf else if q < 0 then neginf else nan

/-- Unary minus. -/
protected def neg : Dbl → Dbl
  | nan => nan
  | neginf => inf
  | num q => num (-q)
  | inf => neginf

/-- `a + b`. -/
protected def add : Dbl → Dbl → Dbl
  | num a, num b => num (a + b)
  | nan, _ => nan
  | _, nan => nan
  | inf, neginf => nan
  | neginf, inf => nan
  | inf, _ => inf
  | _, inf => inf
  | neginf, _ => neginf
  | _, neginf => neginf

/-- `a * b`. -/
protected def mul : Dbl → Dbl → Dbl
  | num a, num b => num (a * b)
  | nan, _ => nan
  | _, nan => nan
  | inf, inf => inf
  | neginf, neginf => inf
  | inf, neginf => neginf
  | neginf, inf => neginf
  | inf, num q => infSign q
  | num q, inf => infSign q
  | neginf, num q => infSign (-q)
  | num q, neginf => infSign (-q)

/-- `a / b`. -/
protected def div : Dbl → Dbl → Dbl
  | num a, num b => if b = 0 then infSign a else num (a / b)
  | nan, _ => nan
  | _, nan => nan
  | num _, _ => num 0
  | inf, num q => if 0 ≤ q then inf else neginf
  | neginf, num q => if 0 ≤ q then neginf else inf
  | _, _ => nan

instance : Neg Dbl := ⟨Dbl.neg⟩
instance : Add Dbl := ⟨Dbl.add⟩
instance : Sub Dbl := ⟨fun a b => Dbl.add a (Dbl.neg b)⟩
instance : Mul Dbl := ⟨Dbl.mul⟩
instance : Div Dbl := ⟨Dbl.div⟩

/-- `a < b`. -/
def lt : Dbl → Dbl → Bool
  | num a, num b => decide (a < b)
  | nan, _ => false
  | _, nan => false
  | inf, _ => false
  | _, inf => true
  | _, neginf => false
  | neginf, _ => true

/-- `a <= b`. -/
def le : Dbl → Dbl → Bool
  | num a, num b => decide (a ≤ b)
  | nan, _ => false
  | _, nan => false
  | _, inf => true
  | neginf, _ => true
  | _, _ => false

/-- `a == b`. -/
def eq (a b : Dbl) : Bool := a.le b && b.le a

/-- `fabs`. -/
def fabs : Dbl → Dbl
  | nan => nan
  | num q => num |q|
  | _ => inf

/-- `floor`. -/
def floor : Dbl → Dbl
  | num q => num ⌊q⌋
  | x => x

/-- `ceil`. -/
def ceil : Dbl → Dbl
  | num q => num ⌈q⌉
  | x => x

/-- Conversion to an integer type: towards zero. What does not fit is the machine's
"integer indefinite" value, passed in by the caller. -/
def toInt (indefinite : ℤ) : Dbl → ℤ
  | num q => if 0 ≤ q then ⌊q⌋ else ⌈q⌉
  | _ => indefinite

@[simp] theorem isnan_nan : isnan nan = true := rfl
@[simp] theorem isnan_num (q : ℚ) : isnan (num q) = false := rfl
@[simp] theorem isnan_inf : isnan inf = false := rfl
@[simp] theorem isnan_neginf : isnan neginf = false := rfl

theorem isnan_iff {x : Dbl} : x.isnan = true ↔ x = nan := by cases x <;> simp [isnan]

@[simp] theorem num_add (a b : ℚ) : num a + num b = num (a + b) := rfl
@[simp] theorem num_mul (a b : ℚ) : num a * num b = num (a * b) := rfl
@[simp] theorem num_sub (a b : ℚ) : num a - num b = num (a - b) := by
  rw [sub_eq_add_neg]
  rfl

theorem num_div {a b : ℚ} (hb : b ≠ 0) : num a / num b = num (a / b) := by
  change (if b = 0 then infSign a else num (a / b)) = num (a / b)
  rw [if_neg hb]

@[simp] theorem num_lt (a b : ℚ) : (num a).lt (num b) = decide (a < b) := rfl
@[simp] theorem num_le (a b : ℚ) : (num a).le (num b) = decide (a ≤ b) := rfl
@[simp] theorem neginf_lt_num (a : ℚ) : neginf.lt (num a) = true := rfl
@[simp] theorem num_lt_neginf (a : ℚ) : (num a).lt neginf = false := rfl
@[simp] theorem num_lt_inf (a : ℚ) : (num a).lt inf = true := rfl
@[simp] theorem inf_lt_num (a : ℚ) : inf.lt (num a) = false := rfl

/-- `NaN` absorbs additions. -/
@[simp] theorem nan_add (x : Dbl) : nan + x = nan := by cases x <;> rfl

@[simp] theorem add_nan (x : Dbl) : x + nan = nan := by cases x <;> rfl

/-- `NaN` absorbs multiplications. -/
@[simp] theorem nan_mul (x : Dbl) : nan * x = nan := by cases x <;> rfl

@[simp] theorem mul_nan (x : Dbl) : x * nan = nan := by cases x <;> rfl

end Dbl
