import Mathlib.Data.List.Basic
import Mathlib.Data.List.GetD
import Mathlib.Tactic.SplitIfs
import Mathlib.Logic.Function.Basic

/-!
# Slices of memory

Memory is a function from addresses. `slice m a n` are the `n` elements from address `a` on. `find` is
`memchr`, `move` is `memmove` to the front, and `put` writes a list.
-/

namespace Slice

universe u

variable {α : Type u} {m m' : ℕ → α} {a n k : ℕ} {x : α}

/-- The `n` elements from address `a` on. -/
def slice (m : ℕ → α) (a n : ℕ) : List α := (List.range n).map fun k => m (a + k)

@[simp] theorem slice_zero (m : ℕ → α) (a : ℕ) : slice m a 0 = [] := rfl

@[simp] theorem length_slice (m : ℕ → α) (a n : ℕ) : (slice m a n).length = n := by simp [slice]

theorem slice_succ (m : ℕ → α) (a n : ℕ) : slice m a (n + 1) = m a :: slice m (a + 1) n := by
  rw [slice, List.range_succ_eq_map, List.map_cons, List.map_map, slice]
  refine congrArg₂ _ rfl (List.map_congr_left fun k _ => ?_)
  rw [Function.comp_apply, Nat.succ_eq_add_one, Nat.add_right_comm, Nat.add_assoc]

theorem slice_add (m : ℕ → α) (a n k : ℕ) : slice m a (n + k) = slice m a n ++ slice m (a + n) k := by
  induction n generalizing a with
  | zero => simp
  | succ n ih =>
    rw [Nat.add_right_comm, slice_succ, slice_succ, ih, Nat.add_assoc a 1 n, Nat.add_comm 1 n]
    rfl

theorem slice_concat (m : ℕ → α) (a n : ℕ) : slice m a (n + 1) = slice m a n ++ [m (a + n)] := by
  rw [slice_add]
  rfl

theorem slice_congr (h : ∀ k, a ≤ k → k < a + n → m k = m' k) : slice m a n = slice m' a n := by
  refine List.map_congr_left fun k hk => h (a + k) (Nat.le_add_right a k) ?_
  exact Nat.add_lt_add_left (List.mem_range.mp hk) a

/-- A write outside of a slice. -/
theorem slice_update (h : k < a ∨ a + n ≤ k) (x : α) :
    slice (Function.update m k x) a n = slice m a n := by
  refine slice_congr fun j hj hj' => Function.update_of_ne ?_ x m
  omega

/-- A write behind a slice makes it longer. -/
theorem slice_update_concat (m : ℕ → α) (a n : ℕ) (x : α) :
    slice (Function.update m (a + n) x) a (n + 1) = slice m a n ++ [x] := by
  rw [slice_concat, slice_update (.inr (Nat.le_refl _)), Function.update_self]

/-! ## Searching -/

/-- `memchr`: the address of the first `x`. -/
def find [DecidableEq α] (x : α) (m : ℕ → α) (a : ℕ) : ℕ → Option ℕ
  | 0 => none
  | n + 1 => if m a = x then some a else find x m (a + 1) n

theorem find_eq_none [DecidableEq α] : find x m a n = none ↔ x ∉ slice m a n := by
  induction n generalizing a with
  | zero => simp [find]
  | succ n ih =>
    rw [find, slice_succ, List.mem_cons, not_or]
    split_ifs with h
    · exact ⟨fun h => (nomatch h), fun hn => absurd h.symm hn.1⟩
    · rw [ih]
      exact ⟨fun hn => ⟨fun he => h he.symm, hn⟩, And.right⟩

/-- What is found splits the slice. -/
theorem find_eq_some [DecidableEq α] {e : ℕ} (h : find x m a n = some e) :
    a ≤ e ∧ e < a + n ∧ m e = x ∧ x ∉ slice m a (e - a) ∧
      slice m a n = slice m a (e - a) ++ x :: slice m (e + 1) (a + n - (e + 1)) := by
  induction n generalizing a with
  | zero => cases h
  | succ n ih =>
    rw [find] at h
    split_ifs at h with hx
    · cases h
      refine ⟨Nat.le_refl _, by omega, hx, by simp, ?_⟩
      rw [slice_succ, hx, Nat.sub_self, slice_zero, List.nil_append]
      congr 2
      omega
    · obtain ⟨hle, hlt, he, hnot, hsplit⟩ := ih h
      have hsub : e - a = e - (a + 1) + 1 := by omega
      have hrest : a + (n + 1) - (e + 1) = a + 1 + n - (e + 1) := by omega
      refine ⟨by omega, by omega, he, ?_, ?_⟩
      · rw [hsub, slice_succ, List.mem_cons, not_or]
        exact ⟨fun h => hx h.symm, hnot⟩
      · rw [slice_succ, hsplit, hsub, slice_succ, hrest]
        rfl

/-! ## Writing -/

/-- `memmove` of `n` elements to the front. -/
def move (m : ℕ → α) (a n : ℕ) : ℕ → α := fun k => if k < n then m (a + k) else m k

theorem slice_move (m : ℕ → α) (a n : ℕ) : slice (move m a n) 0 n = slice m a n := by
  refine List.map_congr_left fun k hk => ?_
  rw [move, Nat.zero_add, if_pos (List.mem_range.mp hk)]

/-- The elements of a list, from address `a` on. -/
def put (m : ℕ → α) (a : ℕ) (l : List α) : ℕ → α :=
  fun k => if a ≤ k then l.getD (k - a) (m k) else m k

theorem slice_put (m : ℕ → α) (a : ℕ) (l : List α) : slice (put m a l) a l.length = l := by
  refine List.ext_getElem (by simp) fun k hk hk' => ?_
  simp only [slice, List.getElem_map, List.getElem_range, put, Nat.le_add_right, if_true,
    Nat.add_sub_cancel_left]
  exact List.getD_eq_getElem l _ hk'

theorem put_of_lt {l : List α} (h : k < a) : put m a l k = m k := if_neg (Nat.not_le.mpr h)

theorem slice_put_before {l : List α} (h : k + n ≤ a) : slice (put m a l) k n = slice m k n :=
  slice_congr fun _ _ hj => put_of_lt (Nat.lt_of_lt_of_le hj h)

end Slice
