import Mathlib.Data.List.Basic
import Mathlib.Tactic.Ring

/-!
# Cutting a growing stream into windows

A stream that only grows is cut into windows of `p` elements. `window p k` is the `k`-th
window and `rest p` what has not filled a window yet. The stream here grows by runs: `e`
copies of one element at a time. Such a run

* leaves the complete windows alone (`window_append`);
* completes the open window, if it is long enough (`window_run_first`);
* fills all later windows with copies of its element (`window_run_later`);
* leaves a new open window (`rest_run_short`, `rest_run_long`).
-/

namespace Window

universe u

variable {α : Type u}

/-- The `k`-th window of `p` elements. -/
def window (p k : ℕ) (l : List α) : List α := (l.drop (k * p)).take p

/-- The elements after the last complete window. -/
def rest (p : ℕ) (l : List α) : List α := l.drop (l.length / p * p)

/-- The elements that are missing from the open window. -/
def missing (p : ℕ) (l : List α) : ℕ := p - l.length % p

variable {p e k : ℕ} {l : List α} {v : α}

@[simp] theorem rest_nil (p : ℕ) : rest p ([] : List α) = [] := by simp [rest]

theorem length_rest (p : ℕ) (l : List α) : (rest p l).length = l.length % p := by
  have h := Nat.div_add_mod' l.length p
  rw [rest, List.length_drop]
  omega

theorem length_window (h : (k + 1) * p ≤ l.length) : (window p k l).length = p := by
  rw [Nat.add_mul] at h
  rw [window, List.length_take, List.length_drop]
  omega

/-- Complete windows never change. -/
theorem window_append (h : (k + 1) * p ≤ l.length) (m : List α) :
    window p k (l ++ m) = window p k l := by
  rw [Nat.add_mul] at h
  rw [window, window, List.drop_append_of_le_length (by omega), List.take_append_of_le_length]
  rw [List.length_drop]
  omega

theorem missing_pos (hp : 0 < p) (l : List α) : 0 < missing p l := by
  have := Nat.mod_lt l.length hp
  unfold missing
  omega

/-- The window that a long enough run completes. -/
theorem window_run_first (hp : 0 < p) (h : missing p l ≤ e) :
    window p (l.length / p) (l ++ List.replicate e v) =
      rest p l ++ List.replicate (missing p l) v := by
  have hle : l.length / p * p ≤ l.length := Nat.div_mul_le_self _ _
  have hlen := length_rest p l
  have hmod := Nat.mod_lt l.length hp
  rw [window, List.drop_append_of_le_length hle, ← rest, List.take_append, List.take_replicate,
    List.take_of_length_le (by omega), hlen, ← missing, Nat.min_eq_left h]

/-- The windows after it. -/
theorem window_run_later (hp : 0 < p) (hk : l.length / p < k) (h : (k + 1) * p ≤ l.length + e) :
    window p k (l ++ List.replicate e v) = List.replicate p v := by
  have hlt : l.length ≤ k * p := ((Nat.div_lt_iff_lt_mul hp).mp hk).le
  rw [Nat.add_mul] at h
  rw [window, List.drop_append, List.drop_eq_nil_of_le hlt, List.nil_append, List.drop_replicate,
    List.take_replicate, Nat.min_eq_left (by omega)]

/-- A run that completes no window. -/
theorem rest_run_short (hp : 0 < p) (h : e < missing p l) :
    rest p (l ++ List.replicate e v) = rest p l ++ List.replicate e v := by
  have hmod := Nat.mod_lt l.length hp
  have hdm := Nat.div_add_mod' l.length p
  have hdiv : (l.length + e) / p = l.length / p := by
    unfold missing at h
    have hsum : l.length + e = (l.length % p + e) + l.length / p * p := by omega
    rw [hsum, Nat.add_mul_div_right _ _ hp, Nat.div_eq_of_lt (by omega), Nat.zero_add]
  have hle : l.length / p * p ≤ l.length := Nat.div_mul_le_self _ _
  rw [rest, List.length_append, List.length_replicate, hdiv, List.drop_append_of_le_length hle]
  rfl

/-- A run that completes at least one window. -/
theorem rest_run_long (hp : 0 < p) (h : missing p l ≤ e) :
    rest p (l ++ List.replicate e v) = List.replicate ((e - missing p l) % p) v := by
  have hmod := Nat.mod_lt l.length hp
  have hdm := Nat.div_add_mod' l.length p
  unfold missing at *
  have hsum : l.length + e = (e - (p - l.length % p)) + (l.length / p + 1) * p := by
    rw [Nat.add_mul]
    omega
  have hdm' := Nat.div_add_mod' (e - (p - l.length % p)) p
  have hlt : l.length ≤ (l.length + e) / p * p := by
    rw [hsum, Nat.add_mul_div_right _ _ hp, Nat.add_mul, Nat.add_mul]
    omega
  have hlen : e - ((l.length + e) / p * p - l.length) = (e - (p - l.length % p)) % p := by
    have : (l.length + e) / p * p =
        (e - (p - l.length % p)) / p * p + (l.length / p * p + p) := by
      rw [hsum, Nat.add_mul_div_right _ _ hp, Nat.add_mul, Nat.add_mul, Nat.one_mul]
    omega
  rw [rest, List.length_append, List.length_replicate, List.drop_append,
    List.drop_eq_nil_of_le hlt, List.nil_append, List.drop_replicate, hlen]

end Window
