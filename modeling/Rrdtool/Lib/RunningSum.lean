import Rrdtool.Lib.Average

/-!
# Sums that start again

A loop that takes an unknown sum for one that has not begun adds its values up, but starts again with the
value behind a clash of infinities.

* `isnan_sum_iff` — a sum of known values is unknown where both infinities are among them;
* `runningSum_eq_sum_iff` — the loop has the sum, unless it has started again and come to something known.
-/

namespace Dbl

/-- The sum of all values. -/
def sum (l : List Dbl) : Dbl := l.foldl (· + ·) (num 0)

/-- One value of the loop. -/
def runningAdd (s v : Dbl) : Dbl := if s.isnan then v else s + v

/-- What the loop has at the end. -/
def runningSum (l : List Dbl) : Dbl := l.foldl runningAdd nan

/-- Both infinities are among the values. -/
def Torn (l : List Dbl) : Prop := inf ∈ l ∧ neginf ∈ l

instance (l : List Dbl) : Decidable (Torn l) := inferInstanceAs (Decidable (inf ∈ l ∧ neginf ∈ l))

theorem sum_cons (x : Dbl) (l : List Dbl) : sum (x :: l) = l.foldl (· + ·) x := by
  rw [sum, List.foldl_cons, zero_add_dbl]

theorem runningSum_cons (x : Dbl) (l : List Dbl) : runningSum (x :: l) = l.foldl runningAdd x := rfl

theorem foldl_add_nan (l : List Dbl) : l.foldl (· + ·) nan = nan := by
  induction l with
  | nil => rfl
  | cons y l ih => rw [List.foldl_cons, nan_add, ih]

@[simp] theorem inf_add_num (q : ℚ) : inf + num q = inf := rfl

@[simp] theorem num_add_inf (q : ℚ) : num q + inf = inf := rfl

@[simp] theorem neginf_add_num (q : ℚ) : neginf + num q = neginf := rfl

@[simp] theorem num_add_neginf (q : ℚ) : num q + neginf = neginf := rfl

/-- An infinite sum has an infinite part. -/
theorem add_eq_inf_iff {x y : Dbl} (h : (x + y).isnan = false) : x + y = inf ↔ x = inf ∨ y = inf := by
  cases x with
  | nan => simp at h
  | neginf | num p | inf =>
    cases y with
    | nan => simp at h
    | neginf | num q | inf => first | exact absurd h (by decide) | decide | simp

theorem add_eq_neginf_iff {x y : Dbl} (h : (x + y).isnan = false) :
    x + y = neginf ↔ x = neginf ∨ y = neginf := by
  cases x with
  | nan => simp at h
  | neginf | num p | inf =>
    cases y with
    | nan => simp at h
    | neginf | num q | inf => first | exact absurd h (by decide) | decide | simp

/-- Two values may be added up first. -/
theorem torn_add {x y : Dbl} {l : List Dbl} (h : (x + y).isnan = false) :
    Torn ((x + y) :: l) ↔ Torn (x :: y :: l) := by
  have hinf : inf = x + y ↔ inf = x ∨ inf = y := by
    rw [eq_comm, add_eq_inf_iff h, @eq_comm _ x, @eq_comm _ y]
  have hneg : neginf = x + y ↔ neginf = x ∨ neginf = y := by
    rw [eq_comm, add_eq_neginf_iff h, @eq_comm _ x, @eq_comm _ y]
  simp only [Torn, List.mem_cons, hinf, hneg, or_assoc]

theorem torn_of_clash {x y : Dbl} (h : Clash x y) (l : List Dbl) : Torn (x :: y :: l) := by
  rcases h with ⟨rfl, rfl⟩ | ⟨rfl, rfl⟩
  · exact ⟨List.mem_cons_self, List.mem_cons_of_mem _ List.mem_cons_self⟩
  · exact ⟨List.mem_cons_of_mem _ List.mem_cons_self, List.mem_cons_self⟩

theorem isnan_foldl_add_iff {x : Dbl} {l : List Dbl} (hx : x.isnan = false)
    (hl : ∀ y ∈ l, y.isnan = false) : (l.foldl (· + ·) x).isnan = true ↔ Torn (x :: l) := by
  induction l generalizing x with
  | nil =>
    have hnot : ¬Torn [x] := by
      rintro ⟨hinf, hneg⟩
      have heq : inf = neginf := (List.mem_singleton.mp hinf).trans (List.mem_singleton.mp hneg).symm
      cases heq
    simp [hx, hnot]
  | cons y l ih =>
    have hy := hl y List.mem_cons_self
    rw [List.foldl_cons]
    by_cases hc : Clash x y
    · have hnan : x + y = nan := isnan_iff.mp ((isnan_add_iff hx hy).mpr hc)
      rw [hnan, foldl_add_nan]
      exact iff_of_true rfl (torn_of_clash hc l)
    · have hxy := isnan_add hx hy hc
      rw [ih hxy fun z hz => hl z (List.mem_cons_of_mem y hz), torn_add hxy]

/-- **An unknown sum** of known values. -/
theorem isnan_sum_iff {l : List Dbl} (hl : ∀ x ∈ l, x.isnan = false) :
    (sum l).isnan = true ↔ Torn l := by
  cases l with
  | nil => simp [sum, Torn]
  | cons x l =>
    rw [sum_cons]
    exact isnan_foldl_add_iff (hl x List.mem_cons_self) fun y hy => hl y (List.mem_cons_of_mem x hy)

theorem foldl_runningAdd {x : Dbl} {l : List Dbl} (hx : x.isnan = false)
    (hl : ∀ y ∈ l, y.isnan = false) (h : ¬Torn (x :: l)) :
    l.foldl runningAdd x = l.foldl (· + ·) x := by
  induction l generalizing x with
  | nil => rfl
  | cons y l ih =>
    have hy := hl y List.mem_cons_self
    have hc : ¬Clash x y := fun hc => h (torn_of_clash hc l)
    have hxy := isnan_add hx hy hc
    have hstep : runningAdd x y = x + y := by simp [runningAdd, hx]
    rw [List.foldl_cons, List.foldl_cons, hstep]
    exact ih hxy (fun z hz => hl z (List.mem_cons_of_mem y hz)) (mt (torn_add hxy).mp h)

/-- **Where the loop has the sum.** -/
theorem runningSum_eq_sum_iff {l : List Dbl} (hne : l ≠ []) (hl : ∀ x ∈ l, x.isnan = false) :
    runningSum l = sum l ↔ (Torn l → (runningSum l).isnan = true) := by
  obtain ⟨x, l, rfl⟩ := List.exists_cons_of_ne_nil hne
  have hx := hl x List.mem_cons_self
  have htail : ∀ y ∈ l, y.isnan = false := fun y hy => hl y (List.mem_cons_of_mem x hy)
  by_cases ht : Torn (x :: l)
  · have hnan : sum (x :: l) = nan := isnan_iff.mp ((isnan_sum_iff hl).mpr ht)
    rw [hnan, ← isnan_iff]
    exact ⟨fun h _ => h, fun h => h ht⟩
  · rw [runningSum_cons, sum_cons, foldl_runningAdd hx htail ht]
    exact iff_of_true rfl fun h => absurd h ht

/-- The mean tells the sum. -/
theorem div_left_inj_pos {k : ℚ} (hk : 0 < k) {x y : Dbl} : x / num k = y / num k ↔ x = y := by
  constructor
  · intro h
    have hmul := congrArg (· * num k) h
    simpa only [div_mul_cancel_pos hk] using hmul
  · rintro rfl
    rfl

end Dbl
