import Mathlib.Data.Nat.ModEq
import Mathlib.Logic.Function.Basic
import Mathlib.Tactic.Cases

/-!
# A queue in an array

A queue of fixed capacity in a circular array: `tail` is the next cell to write, `head` the last one
read plus one. Nothing is checked, so what the queue holds is known only as long as no more than
`capacity` values are in it.

* `Holds.push`, `Holds.pop` — under that condition it is a first-in-first-out list.
-/

universe u

/-- The array with its two ends. -/
structure Fifo (α : Type u) : Type u where
  /-- the cells -/
  queue : ℕ → α
  /-- how many cells there are -/
  capacity : ℕ
  /-- the cell to read next, not reduced -/
  head : ℕ
  /-- the cell to write next -/
  tail : ℕ

namespace Fifo

variable {α : Type u}

/-- An empty queue; its cells hold whatever the memory held. -/
def alloc (junk : ℕ → α) (capacity : ℕ) : Fifo α := ⟨junk, capacity, capacity, 0⟩

/-- Append a value. -/
def push (q : Fifo α) (value : α) : Fifo α :=
  { q with queue := Function.update q.queue q.tail value, tail := (q.tail + 1) % q.capacity }

/-- The oldest value. -/
def front (q : Fifo α) : α := q.queue (q.head % q.capacity)

/-- Drop the oldest value. -/
def pop (q : Fifo α) : Fifo α := { q with head := q.head % q.capacity + 1 }

/-- The queue holds the list `l`, the oldest value first. -/
structure Holds (q : Fifo α) (l : List α) : Prop where
  fits : l.length ≤ q.capacity
  tail_eq : q.tail = (q.head + l.length) % q.capacity
  cell : ∀ i (h : i < l.length), q.queue ((q.head + i) % q.capacity) = l[i]

variable {q : Fifo α} {l : List α} {v : α}

theorem holds_alloc (junk : ℕ → α) (capacity : ℕ) : (alloc junk capacity).Holds [] where
  fits := Nat.zero_le _
  tail_eq := (Nat.mod_self capacity).symm
  cell i h := absurd h (Nat.not_lt_zero i)

@[simp] theorem capacity_push : (q.push v).capacity = q.capacity := rfl

@[simp] theorem capacity_pop : q.pop.capacity = q.capacity := rfl

/-- Cells less than a round apart are different. -/
theorem cell_ne {n base i j : ℕ} (hij : i < j) (hj : j < n) : (base + i) % n ≠ (base + j) % n := by
  intro h
  have hmod : i ≡ j [MOD n] := Nat.ModEq.add_left_cancel' base h
  have heq : i = j := Nat.ModEq.eq_of_lt_of_lt hmod (hij.trans hj) hj
  exact absurd heq hij.ne

/-- A value goes behind the others where there is room for it. -/
theorem Holds.push (h : q.Holds l) (hroom : l.length < q.capacity) : (q.push v).Holds (l ++ [v]) where
  fits := by
    rw [List.length_append]
    exact hroom
  tail_eq := by
    change (q.tail + 1) % q.capacity = (q.head + (l ++ [v]).length) % q.capacity
    rw [h.tail_eq, Nat.mod_add_mod, List.length_append, List.length_singleton, Nat.add_assoc]
  cell i hi := by
    change Function.update q.queue q.tail v ((q.head + i) % q.capacity) = _
    rw [h.tail_eq]
    rcases Nat.lt_or_ge i l.length with hlt | hge
    · rw [Function.update_of_ne (cell_ne hlt hroom), h.cell i hlt, List.getElem_append_left hlt]
    · rw [List.length_append, List.length_singleton] at hi
      obtain rfl : i = l.length := Nat.le_antisymm (Nat.le_of_lt_succ hi) hge
      rw [Function.update_self, List.getElem_append_right (Nat.le_refl _)]
      simp

/-- The value read is the one at the front. -/
theorem Holds.front {a : α} (h : q.Holds (a :: l)) : q.front = a := by
  have hcell := h.cell 0 (Nat.succ_pos _)
  rwa [Nat.add_zero] at hcell

/-- What is left when it is dropped. -/
theorem Holds.pop {a : α} (h : q.Holds (a :: l)) : q.pop.Holds l where
  fits := (Nat.le_succ _).trans h.fits
  tail_eq := by
    change q.tail = (q.head % q.capacity + 1 + l.length) % q.capacity
    rw [h.tail_eq, List.length_cons, Nat.add_assoc, Nat.mod_add_mod, Nat.add_comm 1]
  cell i hi := by
    change q.queue ((q.head % q.capacity + 1 + i) % q.capacity) = _
    rw [Nat.add_assoc, Nat.mod_add_mod, Nat.add_comm 1]
    exact h.cell (i + 1) (Nat.succ_lt_succ hi)

end Fifo
