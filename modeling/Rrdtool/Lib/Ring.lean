import Mathlib.Data.Int.Basic
import Mathlib.Data.Int.ModEq
import Mathlib.Tactic.Linarith
import Mathlib.Tactic.Ring

/-!
# Round-robin numbering

A ring of `n` slots receives the members of an endless sequence, member `M` in slot
`slot n base M`. The number of a member is absolute (it may be negative: the slots hold
something before the first write), so the slot of a member never changes, and a ring whose
newest member is `M` holds the members `M - n < k ≤ M`.

* `slot_succ` — the next member goes to the next slot, with wrap-around;
* `slot_ne` — members less than `n` apart are in different slots.
-/

namespace Ring

/-- The slot of member `M`. -/
def slot (n : ℕ) (base M : ℤ) : ℕ := ((base + M) % n).toNat

/-- The slot after `row`, with wrap-around. -/
def next (n row : ℕ) : ℕ := if n ≤ row + 1 then 0 else row + 1

variable {n : ℕ} {base M : ℤ}

theorem slot_cast (hn : 0 < n) (base M : ℤ) : (slot n base M : ℤ) = (base + M) % n :=
  Int.toNat_of_nonneg (Int.emod_nonneg _ (by omega))

theorem slot_lt (hn : 0 < n) : slot n base M < n := by
  have h := Int.emod_lt_of_pos (base + M) (by omega : (0 : ℤ) < n)
  have := slot_cast hn base M
  omega

theorem next_lt (hn : 0 < n) (row : ℕ) : next n row < n := by
  unfold next
  split_ifs <;> omega

/-- Stepping from a slot is adding one, modulo the size of the ring. -/
theorem next_eq_mod {row : ℕ} (h : row < n) : next n row = (row + 1) % n := by
  unfold next
  split_ifs with hle
  · obtain rfl : n = row + 1 := by omega
    simp
  · exact (Nat.mod_eq_of_lt (by omega)).symm

/-- `k` members later, modulo the size of the ring. -/
theorem slot_add (hn : 0 < n) (k : ℕ) : slot n base (M + k) = (slot n base M + k) % n := by
  have hM := slot_cast hn base M
  have hMk := slot_cast hn base (M + k)
  apply Int.natCast_inj.mp
  push_cast
  rw [hM, hMk, Int.emod_add_emod]
  congr 1
  ring

/-- The next member goes to the next slot. -/
theorem slot_succ (hn : 0 < n) : slot n base (M + 1) = next n (slot n base M) := by
  rw [next_eq_mod (slot_lt hn)]
  exact_mod_cast slot_add hn 1

/-- One round later a member is in the same slot. -/
theorem slot_add_size (hn : 0 < n) : slot n base (M + n) = slot n base M := by
  rw [slot_add hn, Nat.add_mod_right, Nat.mod_eq_of_lt (slot_lt hn)]

/-- Members less than `n` apart are in different slots. -/
theorem slot_ne (hn : 0 < n) {k : ℤ} (hlt : k < M) (hd : M < k + n) :
    slot n base k ≠ slot n base M := by
  intro heq
  have hk := slot_cast hn base k
  have hM := slot_cast hn base M
  have hmod : (base + M) % n = (base + k) % n := by rw [← hk, ← hM, heq]
  have hdvd : (n : ℤ) ∣ M - k := by
    have h : (n : ℤ) ∣ base + M - (base + k) := Int.ModEq.dvd hmod.symm
    have hs : base + M - (base + k) = M - k := by ring
    rwa [hs] at h
  obtain ⟨c, hc⟩ := hdvd
  have hc0 : 0 < c := by
    by_contra hneg
    have : (n : ℤ) * c ≤ 0 := by nlinarith
    omega
  have : (n : ℤ) ≤ n * c := by nlinarith
  omega

/-- The slot `j` steps before `row`. -/
def before (n row j : ℕ) : ℕ := (row + (n - j)) % n

theorem before_of_le {row j : ℕ} (hrow : row < n) (hj : j ≤ row) : before n row j = row - j := by
  have h : row + (n - j) = row - j + n := by omega
  rw [before, h, Nat.add_mod_right, Nat.mod_eq_of_lt (by omega)]

theorem before_of_gt {row j : ℕ} (hrow : row < j) (hj : j ≤ n) :
    before n row j = row + n - j := by
  rw [before, Nat.mod_eq_of_lt (by omega)]
  omega

end Ring
