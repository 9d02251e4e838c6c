import Rrdtool.Lib.Dbl
import Mathlib.Tactic.Linarith
import Mathlib.Tactic.Ring

/-!
# Weighted averages of doubles

Values with natural weights, some of them unknown (NaN). `weightedSum` adds what is known, oldest
value first, `known` and `unknown` are the weights of both parts. The only sum that goes wrong is that
of opposite infinities (`Clash`), and an average stays inside the limits that hold for its values
(`not_lt_average`, `not_average_lt`).
-/

namespace Dbl

/-! ## Positive factors -/

section Factor

variable {k : ℚ} (hk : 0 < k)

include hk

theorem inf_mul_pos : inf * num k = inf := by
  change infSign k = inf
  rw [infSign, if_pos hk]

theorem neginf_mul_pos : neginf * num k = neginf := by
  have hneg : ¬0 < -k := by linarith
  have hneg' : -k < 0 := by linarith
  change infSign (-k) = neginf
  rw [infSign, if_neg hneg, if_pos hneg']

theorem inf_div_pos : inf / num k = inf := by
  change (if 0 ≤ k then inf else neginf) = inf
  rw [if_pos hk.le]

theorem neginf_div_pos : neginf / num k = neginf := by
  change (if 0 ≤ k then neginf else inf) = neginf
  rw [if_pos hk.le]

theorem num_div_pos (q : ℚ) : num q / num k = num (q / k) := num_div hk.ne'

theorem isnan_div_pos (x : Dbl) : (x / num k).isnan = x.isnan := by
  cases x with
  | nan => rfl
  | neginf => rw [neginf_div_pos hk]
  | num q => rw [num_div_pos hk]; rfl
  | inf => rw [inf_div_pos hk]

theorem isnan_mul_pos (x : Dbl) : (x * num k).isnan = x.isnan := by
  cases x with
  | nan => rfl
  | neginf => rw [neginf_mul_pos hk]
  | num q => rfl
  | inf => rw [inf_mul_pos hk]

/-- A rate over its own interval is the amount. -/
theorem div_mul_cancel_pos (x : Dbl) : x / num k * num k = x := by
  cases x with
  | nan => rfl
  | neginf => rw [neginf_div_pos hk, neginf_mul_pos hk]
  | num q => rw [num_div_pos hk, num_mul, div_mul_cancel₀ q hk.ne']
  | inf => rw [inf_div_pos hk, inf_mul_pos hk]

end Factor

@[simp] theorem zero_add_dbl (x : Dbl) : num 0 + x = x := by
  cases x with
  | num q => rw [num_add, zero_add]
  | nan | neginf | inf => rfl

/-- Opposite infinities. -/
def Clash (x y : Dbl) : Prop := (x = inf ∧ y = neginf) ∨ (x = neginf ∧ y = inf)

instance (x y : Dbl) : Decidable (Clash x y) :=
  inferInstanceAs (Decidable ((x = inf ∧ y = neginf) ∨ (x = neginf ∧ y = inf)))

/-- Known values have a known sum, unless they clash. -/
theorem isnan_add {x y : Dbl} (hx : x.isnan = false) (hy : y.isnan = false) (h : ¬Clash x y) :
    (x + y).isnan = false := by
  cases x with
  | nan => simp at hx
  | neginf =>
    cases y with
    | nan => simp at hy
    | inf => exact absurd (.inr ⟨rfl, rfl⟩) h
    | neginf | num q => rfl
  | num p =>
    cases y with
    | nan => simp at hy
    | neginf | num q | inf => rfl
  | inf =>
    cases y with
    | nan => simp at hy
    | neginf => exact absurd (.inl ⟨rfl, rfl⟩) h
    | num q | inf => rfl

/-- Only a clash makes a sum of known values unknown. -/
theorem isnan_add_iff {x y : Dbl} (hx : x.isnan = false) (hy : y.isnan = false) :
    (x + y).isnan = true ↔ Clash x y := by
  constructor
  · intro h
    by_contra hc
    rw [isnan_add hx hy hc] at h
    cases h
  · rintro (⟨rfl, rfl⟩ | ⟨rfl, rfl⟩)
    · rfl
    · rfl

theorem isnan_of_add {x y : Dbl} (h : (x + y).isnan = false) : x.isnan = false ∧ y.isnan = false := by
  cases x with
  | nan => simp at h
  | neginf | num p | inf =>
    cases y with
    | nan => simp at h
    | neginf | num q | inf => exact ⟨rfl, rfl⟩

/-! ## Sums and weights -/

/-- The sum of the known values, times their weights, oldest first (the newest value is the head). -/
def weightedSum : List (Dbl × ℕ) → Dbl
  | [] => num 0
  | p :: l => if p.1.isnan || p.2 == 0 then weightedSum l else weightedSum l + p.1 * num p.2

/-- The weight of the known values. -/
def knownWeight : List (Dbl × ℕ) → ℕ
  | [] => 0
  | p :: l => if p.1.isnan then knownWeight l else knownWeight l + p.2

/-- The weight of the unknown values. -/
def unknownWeight : List (Dbl × ℕ) → ℕ
  | [] => 0
  | p :: l => if p.1.isnan then unknownWeight l + p.2 else unknownWeight l

variable {l : List (Dbl × ℕ)} {p : Dbl × ℕ}

theorem weightedSum_unknown (h : p.1.isnan = true) : weightedSum (p :: l) = weightedSum l := by
  simp [weightedSum, h]

theorem weightedSum_zero (h : p.2 = 0) : weightedSum (p :: l) = weightedSum l := by
  simp [weightedSum, h]

theorem weightedSum_known (h : p.1.isnan = false) (hp : 0 < p.2) :
    weightedSum (p :: l) = weightedSum l + p.1 * num p.2 := by
  have hne : (p.2 == 0) = false := by simpa using hp.ne'
  simp [weightedSum, h, hne]

/-- Values without weight do not count. -/
theorem weightless (h : ∀ p ∈ l, p.2 = 0) :
    weightedSum l = num 0 ∧ knownWeight l = 0 ∧ unknownWeight l = 0 := by
  induction l with
  | nil => exact ⟨rfl, rfl, rfl⟩
  | cons p l ih =>
    obtain ⟨hs, hk, hu⟩ := ih fun q hq => h q (List.mem_cons_of_mem p hq)
    have hp : p.2 = 0 := h p List.mem_cons_self
    refine ⟨by rw [weightedSum_zero hp, hs], ?_, ?_⟩
    · simp [knownWeight, hk, hp]
    · simp [unknownWeight, hu, hp]

/-- Without known weight the sum is empty. -/
theorem weightedSum_of_knownWeight (h : knownWeight l = 0) : weightedSum l = num 0 := by
  induction l with
  | nil => rfl
  | cons p l ih =>
    by_cases hp : p.1.isnan = true
    · rw [weightedSum_unknown hp]
      exact ih (by simpa [knownWeight, hp] using h)
    · have hsum : knownWeight l + p.2 = 0 := by simpa [knownWeight, hp] using h
      rw [weightedSum_zero (by omega)]
      exact ih (by omega)

/-! ## Limits -/

/-- A sum of total weight `w` is not above `M` times its weight. -/
def NotAbove (M : Dbl) (w : ℕ) (x : Dbl) : Prop :=
  match M with
  | nan => True
  | inf => True
  | num m => x = neginf ∨ ∃ q, x = num q ∧ q ≤ m * w
  | neginf => x = neginf ∨ (w = 0 ∧ x = num 0)

theorem notAbove_zero (M : Dbl) : NotAbove M 0 (num 0) := by
  cases M with
  | nan => trivial
  | inf => trivial
  | num m => exact .inr ⟨0, rfl, by simp⟩
  | neginf => exact .inr ⟨rfl, rfl⟩

/-- One more value that is not above `M`. -/
theorem NotAbove.add {M x r : Dbl} {w c : ℕ} (h : NotAbove M w x) (hr : M.lt r = false)
    (hrn : r.isnan = false) (hc : 0 < c) (hsum : (x + r * num c).isnan = false) :
    NotAbove M (w + c) (x + r * num c) := by
  have hcq : (0 : ℚ) < c := by exact_mod_cast hc
  cases M with
  | nan => trivial
  | inf => trivial
  | num m =>
    obtain rfl | ⟨q, rfl, hq⟩ := h
    · cases r with
      | nan => simp at hrn
      | neginf => exact .inl (by rw [neginf_mul_pos hcq]; rfl)
      | num y => exact .inl rfl
      | inf => simp at hr
    · cases r with
      | nan => simp at hrn
      | neginf => exact .inl (by rw [neginf_mul_pos hcq]; rfl)
      | num y =>
        have hy : y ≤ m := by simpa using hr
        refine .inr ⟨q + y * c, rfl, ?_⟩
        push_cast
        have := mul_le_mul_of_nonneg_right hy hcq.le
        linarith
      | inf => simp at hr
  | neginf =>
    cases r with
    | nan => simp at hrn
    | num y => simp at hr
    | inf => exact absurd hr (by decide)
    | neginf =>
      rw [neginf_mul_pos hcq] at hsum ⊢
      obtain rfl | ⟨-, rfl⟩ := h
      · exact .inl rfl
      · exact .inl rfl

theorem NotAbove.average {M x : Dbl} {w : ℕ} (h : NotAbove M w x) (hw : 0 < w) :
    M.lt (x / num w) = false := by
  have hwq : (0 : ℚ) < w := by exact_mod_cast hw
  cases M with
  | nan => rfl
  | inf => cases x / num w <;> rfl
  | num m =>
    obtain rfl | ⟨q, rfl, hq⟩ := h
    · rw [neginf_div_pos hwq]
      rfl
    · rw [num_div_pos hwq, num_lt, decide_eq_false_iff_not, not_lt, div_le_iff₀ hwq]
      exact hq
  | neginf =>
    obtain rfl | ⟨hw0, -⟩ := h
    · rw [neginf_div_pos hwq]
      rfl
    · exact absurd hw0 hw.ne'

theorem notAbove_weightedSum {M : Dbl} (h : ∀ p ∈ l, p.1.isnan = false → M.lt p.1 = false)
    (hsum : (weightedSum l).isnan = false) : NotAbove M (knownWeight l) (weightedSum l) := by
  induction l with
  | nil => exact notAbove_zero M
  | cons p l ih =>
    have hl : ∀ q ∈ l, q.1.isnan = false → M.lt q.1 = false :=
      fun q hq => h q (List.mem_cons_of_mem p hq)
    cases hp : p.1.isnan with
    | true =>
      rw [weightedSum_unknown hp] at hsum ⊢
      simp only [knownWeight, hp, if_true]
      exact ih hl hsum
    | false =>
      simp only [knownWeight, hp, Bool.false_eq_true, if_false]
      obtain h0 | hpos := Nat.eq_zero_or_pos p.2
      · rw [weightedSum_zero h0] at hsum ⊢
        rw [h0]
        exact ih hl hsum
      · rw [weightedSum_known hp hpos] at hsum ⊢
        exact (ih hl (isnan_of_add hsum).1).add (h p List.mem_cons_self hp) hp hpos hsum

/-- **An average is not above a limit** that holds for its values. -/
theorem not_lt_average {M : Dbl} (h : ∀ p ∈ l, p.1.isnan = false → M.lt p.1 = false)
    (hsum : (weightedSum l).isnan = false) (hw : 0 < knownWeight l) :
    M.lt (weightedSum l / num (knownWeight l)) = false :=
  (notAbove_weightedSum h hsum).average hw

/-! The lower limit is the upper one of the values with the other sign. -/

theorem neg_lt_neg_dbl (x y : Dbl) : (-x).lt (-y) = y.lt x := by
  cases x with
  | num p =>
    cases y with
    | num q =>
      change decide (-p < -q) = decide (q < p)
      simp
    | nan | neginf | inf => rfl
  | nan | neginf | inf => cases y <;> rfl

theorem isnan_neg (x : Dbl) : (-x).isnan = x.isnan := by cases x <;> rfl

theorem neg_add_dbl (x y : Dbl) : -(x + y) = -x + -y := by
  cases x with
  | num p =>
    cases y with
    | num q =>
      change num (-(p + q)) = num (-p + -q)
      rw [neg_add]
    | nan | neginf | inf => rfl
  | nan | neginf | inf => cases y <;> rfl

theorem neg_mul_pos {k : ℚ} (hk : 0 < k) (x : Dbl) : -(x * num k) = -x * num k := by
  cases x with
  | nan => rfl
  | neginf =>
    rw [neginf_mul_pos hk]
    exact (inf_mul_pos hk).symm
  | num q =>
    change num (-(q * k)) = num (-q * k)
    rw [neg_mul]
  | inf =>
    rw [inf_mul_pos hk]
    exact (neginf_mul_pos hk).symm

theorem neg_div_pos {k : ℚ} (hk : 0 < k) (x : Dbl) : -(x / num k) = -x / num k := by
  cases x with
  | nan => rfl
  | neginf =>
    rw [neginf_div_pos hk]
    exact (inf_div_pos hk).symm
  | num q =>
    rw [num_div_pos hk]
    change num (-(q / k)) = num (-q) / num k
    rw [num_div_pos hk, neg_div]
  | inf =>
    rw [inf_div_pos hk]
    exact (neginf_div_pos hk).symm

/-- The values with the other sign. -/
def negAll (l : List (Dbl × ℕ)) : List (Dbl × ℕ) := l.map fun p => (-p.1, p.2)

theorem negAll_weights (l : List (Dbl × ℕ)) :
    weightedSum (negAll l) = -weightedSum l ∧ knownWeight (negAll l) = knownWeight l := by
  induction l with
  | nil => exact ⟨rfl, rfl⟩
  | cons p l ih =>
    obtain ⟨hs, hw⟩ := ih
    have hcons : negAll (p :: l) = (-p.1, p.2) :: negAll l := rfl
    have hn : (-p.1, p.2).1.isnan = p.1.isnan := isnan_neg p.1
    rw [hcons]
    cases hp : p.1.isnan with
    | true =>
      rw [hp] at hn
      rw [weightedSum_unknown hn, weightedSum_unknown hp]
      simp only [knownWeight, hn, hp, if_true]
      exact ⟨hs, hw⟩
    | false =>
      rw [hp] at hn
      simp only [knownWeight, hn, hp, Bool.false_eq_true, if_false, hw, and_true]
      obtain h0 | hpos := Nat.eq_zero_or_pos p.2
      · rw [weightedSum_zero h0, weightedSum_zero (p := (-p.1, p.2)) h0]
        exact hs
      · rw [weightedSum_known hp hpos, weightedSum_known (p := (-p.1, p.2)) hn hpos, hs, neg_add_dbl,
          neg_mul_pos (by exact_mod_cast hpos)]

/-- **An average is not below a limit** that holds for its values. -/
theorem not_average_lt {M : Dbl} (h : ∀ p ∈ l, p.1.isnan = false → p.1.lt M = false)
    (hsum : (weightedSum l).isnan = false) (hw : 0 < knownWeight l) :
    (weightedSum l / num (knownWeight l)).lt M = false := by
  obtain ⟨hs, hk⟩ := negAll_weights l
  have hneg : ∀ p ∈ negAll l, p.1.isnan = false → (-M).lt p.1 = false := by
    intro p hp hn
    obtain ⟨q, hq, rfl⟩ := List.mem_map.mp hp
    rw [neg_lt_neg_dbl]
    exact h q hq (by rw [← isnan_neg]; exact hn)
  have hle := not_lt_average hneg (by rw [hs, isnan_neg]; exact hsum) (by rw [hk]; exact hw)
  rw [hs, hk, ← neg_div_pos (by exact_mod_cast hw), neg_lt_neg_dbl] at hle
  exact hle

end Dbl
