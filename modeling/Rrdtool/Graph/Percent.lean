import Rrdtool.Graph.DataCalc
import Rrdtool.Lib.Qsort

/-!
# `PERCENT` and `PERCENTNAN`

`vdef_calc` sorts a copy of the values with `qsort` and takes the one of the rank that the parameter names. The
comparison looks at an infinite value the same way in both places, so it holds a finite number to be more than
`INF`, and less than `-INF`; and without values there is no rank.

* `vdefPercentCompar`, `vdefPercent`, `vdefPercentNan` — the code;
* `agrees_iff` — where the comparison is consistent;
* `percent_iff` — when the value is that of the rank, whatever `qsort` does.
-/

namespace Rrdtool

open Qsort

/-! ## The code -/

/-- `isinf`, with the sign. -/
def isinfSign : RrdValue → ℤ
  | .inf => 1
  | .neginf => -1
  | _ => 0

/-- `vdef_percent_compar` -/
def vdefPercentCompar (a b : RrdValue) : ℤ :=
  if a.isnan then -1
  else if b.isnan then 1
  else if a.isinf then isinfSign a
  else if b.isinf then isinfSign b
  else if a.lt b then -1
  else 1

/-- `round` -/
def roundDbl : RrdValue → RrdValue
  | .num q => .num (if q < 0 then -⌊-q + 1 / 2⌋ else ⌊q + 1 / 2⌋)
  | x => x

/-- `field`, of an array of `n` values -/
def percentField (param : RrdValue) (n : ℤ) : ℤ := cInt (roundDbl (param * .num (n - 1 : ℤ) / .num 100))

/-- `array[field]`. There is no result when the index is not one of the array. -/
def readField (array : List RrdValue) (field : ℤ) : Option RrdValue :=
  if 0 ≤ field then array[field.toNat]? else none

/-- `steps` -/
def vdefSteps (src : GraphDesc) : ℤ := (src.stop - src.start).tdiv src.step

/-- `data[step * src->ds_cnt]`, of all steps -/
def vdefData (src : GraphDesc) : List RrdValue :=
  (List.range (vdefSteps src).toNat).map fun step : ℕ => src.data (src.ds + step * src.dsCnt)

/-- The known values. -/
def vdefKnown (src : GraphDesc) : List RrdValue := (vdefData src).filter fun x => !x.isnan

variable (qsort : (RrdValue → RrdValue → ℤ) → List RrdValue → List RrdValue)

/-- `case VDEF_PERCENT`. There is no memory for a negative number of values. -/
def vdefPercent (src : GraphDesc) (param : RrdValue) : Option RrdValue :=
  if vdefSteps src < 0 then none
  else readField (qsort vdefPercentCompar (vdefData src)) (percentField param (vdefSteps src))

/-- `case VDEF_PERCENTNAN`. The counter is an `int`. -/
def vdefPercentNan (src : GraphDesc) (param : RrdValue) : Option RrdValue :=
  let nancount : ℤ := (vdefKnown src).length
  if 2 ^ 31 ≤ nancount then none
  else readField (qsort vdefPercentCompar (vdefKnown src)) (percentField param nancount)

/-! ## The order -/

/-- `NaN < -INF < finite values < INF`, up to equality -/
def NotAfter (a b : RrdValue) : Prop := a = .nan ∨ a.le b = true

instance : DecidableRel NotAfter := fun a b => inferInstanceAs (Decidable (a = .nan ∨ a.le b = true))

instance : IsLinearOrder RrdValue NotAfter where
  refl a := by cases a <;> simp [NotAfter, Dbl.le]
  trans a b c := by
    cases a <;> cases b <;> cases c <;> simp [NotAfter, Dbl.le]
    exact le_trans
  antisymm a b := by
    cases a <;> cases b <;> simp [NotAfter, Dbl.le]
    exact le_antisymm
  total a b := by
    cases a <;> cases b <;> simp [NotAfter, Dbl.le]
    exact le_total _ _

/-- Infinite values together with finite ones. -/
def Mixed (l : List RrdValue) : Prop := (∃ x ∈ l, x.isinf = true) ∧ ∃ q, .num q ∈ l

/-- **No order agrees with the comparison on a finite and an infinite value.** -/
theorem not_agrees_of_mixed {l : List RrdValue} (h : Mixed l) (r : RrdValue → RrdValue → Prop) [IsLinearOrder RrdValue r] :
    ¬ Agrees vdefPercentCompar r l := by
  obtain ⟨⟨x, hx, hinf⟩, q, hq⟩ := h
  intro hagrees
  have hne : x ≠ .num q := by
    rintro rfl
    cases hinf
  -- the infinite value decides, on either side
  have hsame : vdefPercentCompar x (.num q) = vdefPercentCompar (.num q) x := by
    cases x with
    | nan => cases hinf
    | num p => cases hinf
    | inf => rfl
    | neginf => rfl
  rcases total_of r x (.num q) with hle | hle
  · have := hagrees x hx _ hq hle hne
    omega
  · have := hagrees _ hq x hx hle hne.symm
    omega

/-- **Where the comparison is consistent**: it realises the order exactly on the values without such a mixture. -/
theorem agrees_iff {l : List RrdValue} : Agrees vdefPercentCompar NotAfter l ↔ ¬ Mixed l := by
  constructor
  · exact fun h hmixed => not_agrees_of_mixed hmixed NotAfter h
  · intro hmixed x hx y hy hle hne
    have hfinite (z : RrdValue) (hz : z ∈ l) (hinf : z.isinf = true) (q : ℚ) (hq : .num q ∈ l) : False :=
      hmixed ⟨⟨z, hz, hinf⟩, q, hq⟩
    rcases hle with rfl | hle
    · cases y with
      | nan => exact absurd rfl hne
      | neginf => decide
      | num b => exact ⟨neg_one_lt_zero, Int.one_pos⟩
      | inf => decide
    · cases x with
      | nan => cases y <;> cases hle
      | neginf =>
        cases y with
        | nan => cases hle
        | neginf => exact absurd rfl hne
        | num b => exact (hfinite _ hx rfl b hy).elim
        | inf => decide
      | num a =>
        cases y with
        | nan => cases hle
        | neginf => cases hle
        | num b =>
          have hlt : a < b := lt_of_le_of_ne (of_decide_eq_true hle) fun hab => hne (congrArg _ hab)
          simp [vdefPercentCompar, Dbl.isinf, Dbl.lt, hlt, hlt.not_gt]
        | inf => exact (hfinite _ hy rfl a hx).elim
      | inf =>
        cases y with
        | nan => cases hle
        | neginf => cases hle
        | num b => cases hle
        | inf => exact absurd rfl hne

/-! ## The rank -/

/-- `round(param * (n - 1) / 100)` -/
def percentRank (p : ℚ) (n : ℕ) : ℤ := ⌊p * (n - 1) / 100 + 1 / 2⌋

/-- **The value of the rank**, in the order of the values; NaN when there is none. -/
def ranked (p : ℚ) (l : List RrdValue) : RrdValue := (l.insertionSort NotAfter)[(percentRank p l.length).toNat]?.getD .nan

variable {p : ℚ} {n : ℕ} {l : List RrdValue}

theorem percentRank_bounds (hp : 0 ≤ p) (hp' : p ≤ 100) (hn : 1 ≤ n) : 0 ≤ percentRank p n ∧ percentRank p n < n := by
  have hn' : (1 : ℚ) ≤ n := by exact_mod_cast hn
  have hlo : 0 ≤ p * (n - 1) / 100 := by
    have := mul_nonneg hp (sub_nonneg.mpr hn')
    positivity
  have hhi : p * (n - 1) / 100 ≤ n - 1 := by
    rw [div_le_iff₀ (by norm_num), mul_comm]
    exact mul_le_mul_of_nonneg_left hp' (sub_nonneg.mpr hn')
  constructor
  · rw [percentRank, Int.le_floor, Int.cast_zero]
    linarith
  · rw [percentRank, Int.floor_lt, Int.cast_natCast]
    linarith

/-- An integer that is stored into an `int`. -/
theorem cInt_of_nonneg {z : ℤ} (hz : 0 ≤ z) : cInt (.num z) = if z < 2 ^ 31 then z else -2 ^ 31 := by
  have hint : Dbl.toInt (-2 ^ 31) (.num z) = z := by
    rw [Dbl.toInt, if_pos (by exact_mod_cast hz), Int.floor_intCast]
  rw [cInt, hint]
  by_cases hlt : z < 2 ^ 31
  · rw [if_pos ⟨by omega, hlt⟩, if_pos hlt]
  · rw [if_neg fun h => hlt h.2, if_neg hlt]

theorem percentField_eq (hp : 0 ≤ p) (hp' : p ≤ 100) (hn : 1 ≤ n) :
    percentField (.num p) n = if percentRank p n < 2 ^ 31 then percentRank p n else -2 ^ 31 := by
  have hn' : (1 : ℚ) ≤ n := by exact_mod_cast hn
  have hlo : ¬ p * (n - 1) / 100 < 0 := by
    have := mul_nonneg hp (sub_nonneg.mpr hn')
    rw [not_lt]
    positivity
  have hround : roundDbl (.num p * .num ((n : ℤ) - 1 : ℤ) / .num 100) = .num (percentRank p n : ℤ) := by
    rw [Dbl.num_mul, Dbl.num_div (by norm_num), roundDbl, Int.cast_sub, Int.cast_natCast, Int.cast_one, if_neg hlo,
      percentRank]
  rw [percentField, hround, cInt_of_nonneg (percentRank_bounds hp hp' hn).1]

/-! ## The value -/

/-- A value can be moved to any place. -/
theorem exists_perm_getElem? {α : Type*} [DecidableEq α] {l : List α} {y : α} {k : ℕ} (hy : y ∈ l) (hk : k < l.length) :
    ∃ l' : List α, l'.Perm l ∧ l'[k]? = some y := by
  have hlength : k ≤ (l.erase y).length := by
    rw [List.length_erase_of_mem hy]
    omega
  refine ⟨(l.erase y).insertIdx k y, ?_, ?_⟩
  · exact (List.perm_insertIdx y _ hlength).trans (List.perm_cons_erase hy).symm
  · rw [List.getElem?_insertIdx_self, if_pos hlength]

/-- **The element of the rank is read**, whatever the sorting function, exactly from values that the comparison
orders, if there are any and the index fits. -/
theorem readField_iff (hp : 0 ≤ p) (hp' : p ≤ 100) :
    (∀ qsort, IsQsort qsort → readField (qsort vdefPercentCompar l) (percentField (.num p) l.length) = some (ranked p l))
      ↔ l ≠ [] ∧ percentRank p l.length < 2 ^ 31 ∧ ¬ Mixed l := by
  constructor
  · intro h
    have hne : l ≠ [] := by
      rintro rfl
      have hread := h _ isQsort_insertionSort
      rw [List.insertionSort_nil, readField] at hread
      split_ifs at hread
      cases hread
    have hn : 1 ≤ l.length := List.length_pos_iff.mpr hne
    obtain ⟨hlo, hhi⟩ := percentRank_bounds hp hp' hn
    rw [percentField_eq hp hp' hn] at h
    have hfits : percentRank p l.length < 2 ^ 31 := by
      by_contra hbig
      have hread := h _ isQsort_insertionSort
      rw [if_neg hbig, readField, if_neg (by norm_num)] at hread
      cases hread
    refine ⟨hne, hfits, fun hmixed => ?_⟩
    -- some value is not the one of the rank, and a sorting function may put it there
    have hother : ∃ y ∈ l, y ≠ ranked p l := by
      obtain ⟨⟨x, hx, hinf⟩, q, hq⟩ := hmixed
      by_contra! hall
      rw [hall x hx, ← hall _ hq] at hinf
      cases hinf
    obtain ⟨y, hy, hne'⟩ := hother
    obtain ⟨l', hperm, hget⟩ := exists_perm_getElem? hy (Int.toNat_lt hlo |>.mpr hhi)
    obtain ⟨qsort, hqsort, heq⟩ := exists_isQsort_eq hperm fun r => not_agrees_of_mixed hmixed r
    have hread := h qsort hqsort
    rw [heq, if_pos hfits, readField, if_pos hlo, hget] at hread
    exact hne' (Option.some.inj hread)
  · rintro ⟨hne, hfits, hmixed⟩ qsort hqsort
    have hn : 1 ≤ l.length := List.length_pos_iff.mpr hne
    obtain ⟨hlo, hhi⟩ := percentRank_bounds hp hp' hn
    have hlength : (percentRank p l.length).toNat < (l.insertionSort NotAfter).length := by
      rw [List.length_insertionSort]
      omega
    rw [hqsort.eq_insertionSort (agrees_iff.mpr hmixed), percentField_eq hp hp' hn, if_pos hfits, readField, if_pos hlo,
      ranked, List.getElem?_eq_getElem hlength, Option.getD_some]

theorem vdefData_length (src : GraphDesc) : (vdefData src).length = (vdefSteps src).toNat := by
  rw [vdefData, List.length_map, List.length_range]

/-- **The percentiles are well defined** exactly on values that are there, are not too many for an `int`, and are not
infinite and finite together. -/
theorem percent_iff (src : GraphDesc) (p : ℚ) (hp : 0 ≤ p) (hp' : p ≤ 100) :
    ((Agrees vdefPercentCompar NotAfter (vdefData src)
        ∧ ∀ qsort, IsQsort qsort → vdefPercent qsort src (.num p) = some (ranked p (vdefData src)))
      ↔ vdefData src ≠ [] ∧ percentRank p (vdefData src).length < 2 ^ 31 ∧ ¬ Mixed (vdefData src))
    ∧ ((Agrees vdefPercentCompar NotAfter (vdefKnown src)
        ∧ ∀ qsort, IsQsort qsort → vdefPercentNan qsort src (.num p) = some (ranked p (vdefKnown src)))
      ↔ vdefKnown src ≠ [] ∧ (vdefKnown src).length < 2 ^ 31 ∧ ¬ Mixed (vdefKnown src)) := by
  constructor
  · by_cases hsteps : vdefSteps src < 0
    · have hnil : vdefData src = [] := by
        rw [← List.length_eq_zero_iff, vdefData_length, Int.toNat_of_nonpos hsteps.le]
      simp only [vdefPercent, if_pos hsteps, hnil, ne_eq, not_true_eq_false, false_and, iff_false, not_and]
      intro _ h
      cases h _ isQsort_insertionSort
    · have hlength : vdefSteps src = (vdefData src).length := by
        rw [vdefData_length, Int.toNat_of_nonneg (not_lt.mp hsteps)]
      simp only [vdefPercent, if_neg hsteps]
      simp only [hlength, readField_iff hp hp', agrees_iff]
      tauto
  · by_cases hmany : (2 ^ 31 : ℤ) ≤ (vdefKnown src).length
    · simp only [vdefPercentNan, if_pos hmany]
      constructor
      · intro h
        cases h.2 _ isQsort_insertionSort
      · intro h
        omega
    · have hrank (hne : vdefKnown src ≠ []) : percentRank p (vdefKnown src).length < 2 ^ 31 := by
        have := (percentRank_bounds hp hp' (List.length_pos_iff.mpr hne)).2
        omega
      have hfew : (vdefKnown src).length < 2 ^ 31 := by omega
      simp only [vdefPercentNan, if_neg hmany, readField_iff hp hp', agrees_iff]
      tauto

/-- Two values. -/
def twoValues (x y : RrdValue) : GraphDesc where
  gf := .gfDef
  vidx := 0
  shidx := none
  shval := 0
  shift := 0
  vfVal := dnan
  rpnp := []
  start := 300
  stop := 900
  step := 300
  dsCnt := 1
  ds := 0
  rows := 2
  data := fun i => if i = 0 then x else y

theorem vdefData_twoValues (x y : RrdValue) : vdefData (twoValues x y) = [x, y] := by
  have hsteps : vdefSteps (twoValues x y) = 2 := by
    simp [vdefSteps, twoValues]
  rw [vdefData, hsteps]
  rfl

theorem percent_two_values :
    (Agrees vdefPercentCompar NotAfter [.num 5, .num 3]
      ∧ ∀ qsort, IsQsort qsort → vdefPercent qsort (twoValues (.num 5) (.num 3)) (.num 100) = some (.num 5)) := by
  have hfinite : ¬ Mixed [.num 5, .num 3] := by
    rintro ⟨⟨x, hx, hinf⟩, -⟩
    rcases List.mem_pair.mp hx with rfl | rfl <;> cases hinf
  have hranked : ranked 100 [.num 5, .num 3] = .num 5 := by decide +kernel
  have h := (percent_iff (twoValues (.num 5) (.num 3)) 100 (by norm_num) le_rfl).1.mpr
    ⟨List.cons_ne_nil _ _, by decide +kernel, hfinite⟩
  rw [vdefData_twoValues, hranked] at h
  exact h

/-- The same two values, finite and infinite, have two results; and without a known value the element before the
array is read. -/
theorem percent_five_inf :
    (∃ qsort, IsQsort qsort
      ∧ vdefPercent qsort (twoValues (.num 5) .inf) (.num 100) = some (.num 5)
      ∧ vdefPercent qsort (twoValues .inf (.num 5)) (.num 100) = some .inf)
    ∧ ranked 100 (vdefData (twoValues (.num 5) .inf)) = .inf
    ∧ ¬ Agrees vdefPercentCompar NotAfter (vdefData (twoValues (.num 5) .inf))
    ∧ ∀ qsort, vdefPercentNan qsort (twoValues .nan .nan) (.num 95) = none := by
  refine ⟨⟨_, isQsort_insertionSort, by decide +kernel, by decide +kernel⟩, by decide +kernel, ?_, ?_⟩
  · intro h
    have := (h (.num 5) (by simp [vdefData_twoValues]) .inf (by simp [vdefData_twoValues]) (.inr rfl) (by simp)).1
    exact absurd this (by decide +kernel)
  · intro qsort
    have hfield : percentField (.num 95) 0 = -1 := by decide +kernel
    have hknown : vdefKnown (twoValues .nan .nan) = [] := rfl
    simp only [vdefPercentNan, hknown, List.length_nil, Nat.cast_zero, hfield]
    rfl

end Rrdtool
