import Rrdtool.Lib.Loop

/-!
# Rewriting an array in place

An array is rewritten from its start, cell after cell, with what is read from its cells further on. As
long as no read is behind the writer, the cells read are still the original ones.

* `Lags` — the cells in front of the writer are the output, all others are still the input;
* `Lags.put`, `lags_forLoop` — writing keeps it.
-/

universe u

/-- An array, and the next cell that will be written. -/
structure Tape (α : Type u) : Type u where
  /-- the array -/
  cells : ℕ → α
  /-- the position of the writer -/
  pos : ℕ

namespace Tape

open Loop

variable {α : Type u} {out input : ℕ → α} {t : Tape α}

/-- `*dst++ = v` -/
def put (t : Tape α) (v : α) : Tape α := ⟨Function.update t.cells t.pos v, t.pos + 1⟩

@[simp] theorem put_pos (t : Tape α) (v : α) : (t.put v).pos = t.pos + 1 := rfl

/-- What is in front of the writer is the output, the rest is the input. -/
def Lags (out input : ℕ → α) (t : Tape α) : Prop :=
  ∀ k, t.cells k = if k < t.pos then out k else input k

/-- Nothing has been written. -/
theorem lags_start (out input : ℕ → α) : Lags out input ⟨input, 0⟩ := fun _ => rfl

/-- Behind the writer the output is found. -/
theorem Lags.written (h : Lags out input t) {k : ℕ} (hk : k < t.pos) : t.cells k = out k := by
  rw [h k, if_pos hk]

/-- In front of the writer the input is found. -/
theorem Lags.read (h : Lags out input t) {k : ℕ} (hk : t.pos ≤ k) : t.cells k = input k := by
  rw [h k, if_neg (Nat.not_lt.mpr hk)]

/-- **One more cell of the output.** -/
theorem Lags.put (h : Lags out input t) {v : α} (hv : v = out t.pos) : Lags out input (t.put v) := by
  intro k
  by_cases hk : k = t.pos
  · have hlt : k < (t.put v).pos := hk ▸ Nat.lt_succ_self _
    rw [if_pos hlt, hk, hv]
    exact Function.update_self _ _ _
  · have hcell : (t.put v).cells k = t.cells k := Function.update_of_ne hk _ _
    have hiff : k < (t.put v).pos ↔ k < t.pos := by
      rw [put_pos]
      omega
    rw [hcell, h k]
    simp only [hiff]

/-- **A loop that writes `n` cells.** -/
theorem lags_forLoop {n : ℕ} {v : ℕ → Tape α → α} (h : Lags out input t)
    (hv : ∀ i u, i < n → u.pos = t.pos + i → Lags out input u → v i u = out u.pos) :
    Lags out input (forLoop n (fun i u => u.put (v i u)) t) ∧
      (forLoop n (fun i u => u.put (v i u)) t).pos = t.pos + n := by
  refine forLoop_invariant (fun i u => Lags out input u ∧ u.pos = t.pos + i) ⟨h, rfl⟩ ?_
  rintro i u hi ⟨hu, hpos⟩
  refine ⟨hu.put (hv i u hi hpos hu), ?_⟩
  rw [put_pos, hpos]
  omega

end Tape
