import Rrdtool.Lib.RunningSum

/-!
# Means of doubles, when one value is exchanged

* `mean_cons_eq_iff` — one value stands for another one in a mean;
* `mean_known_cons_eq_iff` — the same where unknown values are left out first.
-/

namespace Dbl

theorem add_comm_dbl (x y : Dbl) : x + y = y + x := by
  cases x with
  | num p =>
    cases y with
    | num q => rw [num_add, num_add, add_comm]
    | nan | neginf | inf => rfl
  | nan | neginf | inf => cases y <;> rfl

theorem add_assoc_dbl (x y z : Dbl) : x + y + z = x + (y + z) := by
  cases x with
  | num p =>
    cases y with
    | num q =>
      cases z with
      | num r => rw [num_add, num_add, num_add, num_add, add_assoc]
      | nan | neginf | inf => rfl
    | nan | neginf | inf => cases z <;> rfl
  | nan | neginf | inf => cases y <;> cases z <;> rfl

instance : RightCommutative (· + · : Dbl → Dbl → Dbl) where
  right_comm x y z := by rw [add_assoc_dbl, add_comm_dbl y z, ← add_assoc_dbl]

theorem foldl_add (x : Dbl) (l : List Dbl) : l.foldl (· + ·) x = x + sum l := by
  induction l generalizing x with
  | nil =>
    change x = x + num 0
    rw [add_comm_dbl, zero_add_dbl]
  | cons y l ih => rw [List.foldl_cons, ih, sum_cons, ih y, add_assoc_dbl]

theorem sum_concat (l : List Dbl) (x : Dbl) : sum (l ++ [x]) = sum l + x := by
  rw [sum, List.foldl_append]
  rfl

theorem sum_perm {l l' : List Dbl} (h : l.Perm l') : sum l = sum l' := h.foldl_eq (num 0)

/-- The mean of some values, unknown if there are none. -/
def mean (l : List Dbl) : Dbl := if l = [] then nan else sum l / ofNat l.length

/-- The known values. -/
def known (l : List Dbl) : List Dbl := l.filter fun x => !x.isnan

theorem mean_perm {l l' : List Dbl} (h : l.Perm l') : mean l = mean l' := by
  have hnil : l = [] ↔ l' = [] := ⟨fun hl => (hl ▸ h).nil_eq.symm, fun hl => (hl ▸ h).eq_nil⟩
  simp only [mean, hnil, sum_perm h, h.length_eq]

theorem mean_cons (x : Dbl) (l : List Dbl) : mean (x :: l) = (sum l + x) / num (l.length + 1 : ℕ) := by
  rw [mean, if_neg (List.cons_ne_nil x l), sum_cons, foldl_add, add_comm_dbl]
  rfl

/-- **`b` may stand for `a`** next to the values `l`: it is the same, or the sum of `l` is unknown, or infinite and
both leave it as it is or neither does. -/
def Exchanges (l : List Dbl) (a b : Dbl) : Prop :=
  a = b ∨ (sum l).isnan = true ∨ (sum l).isinf = true ∧ (sum l + a).isnan = (sum l + b).isnan

/-- **`x` may join** the values `l`: it is their mean, or their sum is unknown, or infinite and stays so. -/
def Joins (l : List Dbl) (x : Dbl) : Prop :=
  l ≠ [] ∧ (x = mean l ∨ (sum l).isnan = true ∨ (sum l).isinf = true ∧ (sum l + x).isnan = false)

/-- **`b` may stand for `a`** next to the known values of `l`, where one of the two may be unknown. -/
def ExchangesKnown (l : List Dbl) (a b : Dbl) : Prop :=
  if a.isnan then b.isnan = true ∨ Joins (known l) b
  else if b.isnan then Joins (known l) a
  else Exchanges (known l) a b

theorem nan_div (x : Dbl) : nan / x = nan := by cases x <;> rfl

theorem isinf_num (q : ℚ) : (num q).isinf = false := rfl

/-- An infinite sum has only two ways to go on. -/
theorem add_of_isinf {s x : Dbl} (hs : s.isinf = true) : s + x = if (s + x).isnan then nan else s := by
  cases s with
  | nan | num p => cases hs
  | neginf | inf => cases x <;> rfl

theorem add_left_eq_iff {s a b : Dbl} :
    s + a = s + b ↔ a = b ∨ s.isnan = true ∨ s.isinf = true ∧ (s + a).isnan = (s + b).isnan := by
  constructor
  · intro h
    cases s with
    | nan => exact .inr (.inl rfl)
    | neginf | inf => exact .inr (.inr ⟨rfl, congrArg isnan h⟩)
    | num q =>
      left
      cases a with
      | num p =>
        cases b with
        | num r =>
          rw [num_add, num_add] at h
          exact congrArg num (add_left_cancel (num.inj h))
        | nan | neginf | inf => cases h
      | nan | neginf | inf =>
        cases b with
        | num r => cases h
        | nan | neginf | inf => first | rfl | cases h
  · rintro (rfl | hnan | ⟨hinf, heq⟩)
    · rfl
    · rw [isnan_iff.mp hnan, nan_add, nan_add]
    · rw [@add_of_isinf s a hinf, @add_of_isinf s b hinf, heq]

/-- **One value exchanged.** -/
theorem mean_cons_eq_iff {l : List Dbl} {a b : Dbl} : mean (a :: l) = mean (b :: l) ↔ Exchanges l a b := by
  rw [mean_cons, mean_cons, div_left_inj_pos (by positivity), add_left_eq_iff, Exchanges]

/-- **One known value more.** -/
theorem mean_eq_mean_cons_iff {l : List Dbl} {x : Dbl} (hx : x.isnan = false) :
    mean l = mean (x :: l) ↔ Joins l x := by
  by_cases hl : l = []
  · subst hl
    refine iff_of_false (fun h => ?_) fun h => h.1 rfl
    have hmean : mean [x] = x / num 1 := by
      rw [mean_cons]
      change (num 0 + x) / num 1 = x / num 1
      rw [zero_add_dbl]
    have hnan : (x / num 1).isnan = true := by
      rw [← hmean, ← h]
      rfl
    rw [isnan_div_pos one_pos, hx] at hnan
    cases hnan
  have hlen : (0 : ℚ) < (l.length : ℕ) := by exact_mod_cast List.length_pos_iff.mpr hl
  have hlen' : (0 : ℚ) < (l.length + 1 : ℕ) := by positivity
  have hmean : mean l = sum l / num l.length := if_neg hl
  rw [Joins, and_iff_right hl, mean_cons, hmean]
  cases hs : sum l with
  | nan => exact iff_of_true rfl (.inr (.inl rfl))
  | neginf =>
    rw [neginf_div_pos hlen]
    cases x with
    | nan => cases hx
    | num q => rw [neginf_add_num, neginf_div_pos hlen']; simp [isinf]
    | neginf => exact iff_of_true (neginf_div_pos hlen').symm (.inl rfl)
    | inf =>
      have htorn : neginf + inf = nan := rfl
      rw [htorn, nan_div]
      exact iff_of_false (by decide) (by decide)
  | inf =>
    rw [inf_div_pos hlen]
    cases x with
    | nan => cases hx
    | num q => rw [inf_add_num, inf_div_pos hlen']; simp [isinf]
    | inf => exact iff_of_true (inf_div_pos hlen').symm (.inl rfl)
    | neginf =>
      have htorn : inf + neginf = nan := rfl
      rw [htorn, nan_div]
      exact iff_of_false (by decide) (by decide)
  | num q =>
    rw [num_div_pos hlen]
    cases x with
    | nan => cases hx
    | num p =>
      rw [num_add, num_div_pos hlen']
      simp only [num.injEq, isnan_num, isinf_num, Bool.false_eq_true, false_and, or_false]
      rw [div_eq_div_iff hlen.ne' hlen'.ne', eq_div_iff hlen.ne']
      push_cast
      constructor
      · intro h
        linarith
      · intro h
        linarith
    | neginf =>
      rw [num_add_neginf, neginf_div_pos hlen']
      simp [isinf]
    | inf =>
      rw [num_add_inf, inf_div_pos hlen']
      simp [isinf]

/-- **One value exchanged**, where the unknown ones are left out. -/
theorem mean_known_cons_eq_iff {l : List Dbl} {a b : Dbl} :
    mean (known (a :: l)) = mean (known (b :: l)) ↔ ExchangesKnown l a b := by
  have hcons (x : Dbl) : known (x :: l) = if x.isnan then known l else x :: known l := by
    rw [known, List.filter_cons]
    cases hx : x.isnan <;> simp [known]
  rw [hcons, hcons, ExchangesKnown]
  cases ha : a.isnan with
  | true =>
    cases hb : b.isnan with
    | true => simp
    | false => simpa using mean_eq_mean_cons_iff hb
  | false =>
    cases hb : b.isnan with
    | true => simpa [eq_comm] using mean_eq_mean_cons_iff ha
    | false => simpa using mean_cons_eq_iff

end Dbl
