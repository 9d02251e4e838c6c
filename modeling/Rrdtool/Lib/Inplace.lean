import Mathlib.Data.List.Basic

/-!
# A list that is rewritten while it is read

One cursor reads a list, another one writes it and never overtakes the first. What has been written stands in front of
the writer, and what has not been read is as it was.

* `Inplace` — the cells, the two cursors, what has been written and what is to be read;
* `Inplace.put`, `Inplace.skip` — an element is read, and one is written or none.
-/

universe u

variable {α : Type u}

/-- **The cells between two cursors.** -/
structure Inplace (cells : List α) (putP getP : ℕ) (out rest : List α) : Prop where
  written : cells.take putP = out
  unread : cells.drop getP = rest
  le : putP ≤ getP
  putP : putP = out.length

namespace Inplace

variable {cells out rest : List α} {putP getP : ℕ} {c : α}

theorem start (front rest : List α) : Inplace (front ++ rest) front.length front.length front rest where
  written := List.take_left
  unread := List.drop_left
  le := Nat.le_refl _
  putP := rfl

/-- What is read next. -/
theorem cell (h : Inplace cells putP getP out (c :: rest)) : cells[getP]? = some c := by
  rw [← List.head?_drop, h.unread]
  rfl

/-- The writer is inside. -/
theorem lt (h : Inplace cells putP getP out (c :: rest)) : putP < cells.length := by
  have hlength := congrArg List.length h.unread
  rw [List.length_drop, List.length_cons] at hlength
  have := h.le
  omega

/-- **An element is read.** -/
theorem skip (h : Inplace cells putP getP out (c :: rest)) : Inplace cells putP (getP + 1) out rest where
  written := h.written
  unread := by rw [← List.drop_drop, h.unread]; rfl
  le := Nat.le_succ_of_le h.le
  putP := h.putP

/-- **An element is read, and one is written.** -/
theorem put (h : Inplace cells putP getP out (c :: rest)) (x : α) :
    Inplace (cells.set putP x) (putP + 1) (getP + 1) (out ++ [x]) rest where
  written := by
    rw [List.take_add_one, List.take_set_of_le (Nat.le_refl _), List.getElem?_set_self h.lt, h.written]
    rfl
  unread := by
    rw [List.drop_set_of_lt (Nat.lt_succ_of_le h.le)]
    exact h.skip.unread
  le := Nat.succ_le_succ h.le
  putP := by rw [List.length_append, List.length_singleton, ← h.putP]

/-- What has been written, and what follows. -/
theorem cells_eq (h : Inplace cells putP getP out rest) : cells = out ++ cells.drop putP := by
  rw [← h.written, List.take_append_drop]

end Inplace
