import Mathlib.Data.List.GetD
import Rrdtool.Lib.Loop

/-!
# A shift register

The newest values of a history, in the first cells of an array of which only a window is in use.
The cells behind the window are left alone, so they may hold anything.

* `Holds.push`, `holds_erase` — the window holds the history, whatever is behind it;
* `Holds.count` — a loop over the window counts the beginning of the history.
-/

namespace ShiftRegister

open Loop

universe u

variable {α : Type u} {window : ℕ} {cells : ℕ → α} {blank a : α} {history : List α}

/-- Shift the window by one cell. -/
def push (window : ℕ) (cells : ℕ → α) (a : α) : ℕ → α := fun i =>
  if i = 0 then a else if i < window then cells (i - 1) else cells i

/-- Blank the window. -/
def erase (window : ℕ) (blank : α) (cells : ℕ → α) : ℕ → α := fun i =>
  if i < window then blank else cells i

/-- **The window holds the history**, the newest value first, and is blank behind it. -/
def Holds (window : ℕ) (blank : α) (cells : ℕ → α) (history : List α) : Prop :=
  ∀ i, i < window → cells i = history.getD i blank

/-- A blank window holds no history. -/
theorem holds_nil (h : ∀ i, i < window → cells i = blank) : Holds window blank cells [] :=
  fun i hi => h i hi

/-- A window that is erased forgets its history. -/
theorem holds_erase (window : ℕ) (blank : α) (cells : ℕ → α) :
    Holds window blank (erase window blank cells) [] :=
  holds_nil fun _ hi => if_pos hi

/-- **A value enters the window**; what leaves it is lost. -/
theorem Holds.push (h : Holds window blank cells history) (a : α) :
    Holds window blank (push window cells a) (a :: history) := by
  intro i hi
  cases i with
  | zero => rfl
  | succ i =>
    change (if i + 1 < window then cells i else _) = history.getD i blank
    rw [if_pos hi]
    exact h i (Nat.lt_of_succ_lt hi)

/-- Counting the first cells is counting the beginning of the history. -/
theorem Holds.count {flags : ℕ → Bool} {history : List Bool} (h : Holds window false flags history)
    {n : ℕ} (hn : n ≤ window) :
    forLoop n (fun i cnt => cnt + (flags i).toNat) 0 = (history.take n).count true := by
  refine forLoop_invariant (fun k cnt => cnt = (history.take k).count true) rfl ?_
  rintro k cnt hk rfl
  rw [h k (Nat.lt_of_lt_of_le hk hn)]
  rcases Nat.lt_or_ge k history.length with hlt | hge
  · rw [List.getD_eq_getElem _ _ hlt, ← List.take_append_getElem hlt, List.count_append]
    cases history[k] <;> rfl
  · rw [List.getD_eq_default _ _ hge, List.take_of_length_le hge,
      List.take_of_length_le (Nat.le_succ_of_le hge)]
    rfl

/-- A loop that has counted its first cell before it begins. -/
theorem count_eq (flags : ℕ → Bool) (n : ℕ) :
    (flags 0).toNat + forLoop n (fun i cnt => cnt + (flags (i + 1)).toNat) 0 =
      forLoop (n + 1) (fun i cnt => cnt + (flags i).toNat) 0 := by
  induction n with
  | zero => exact Nat.add_comm _ _
  | succ n ih =>
    rw [forLoop_succ, forLoop_succ (n + 1), ← ih]
    exact (Nat.add_assoc _ _ _).symm

end ShiftRegister
