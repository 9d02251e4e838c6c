import Rrdtool.Lib.Loop
import Mathlib.Data.List.GetD
import Mathlib.Order.Basic

/-!
# Copying between two files

One pass that reads a file of `srcCnt` items from some position on and writes a file with
room for `dstCnt` items from its start. The output is the list of what has been written; a
read at the end of the input leaves the buffer as it is, and a write to a full file is lost.

* `Wrote.move`, `Wrote.moveRows` — moving items appends a segment of the input;
* `Wrote.fill` — writing one item again and again appends copies of it.

They hold for an output of any size: what does not fit is cut off at the end.
-/

universe u

/-- Two open files and the buffer between them. -/
structure Copy (α : Type u) : Type u where
  /-- the position in the input -/
  inPos : ℕ
  /-- the item read last -/
  buffer : α
  /-- what has been written -/
  out : List α

namespace Copy

open Loop

variable {α : Type u}

/-- Read one item. -/
def read (src : ℕ → α) (srcCnt : ℕ) (s : Copy α) : Copy α :=
  if s.inPos < srcCnt then { s with buffer := src s.inPos, inPos := s.inPos + 1 } else s

/-- Write one item. -/
def write (dstCnt : ℕ) (s : Copy α) : Copy α :=
  if s.out.length < dstCnt then { s with out := s.out ++ [s.buffer] } else s

/-- Read one item and write it. -/
def move (src : ℕ → α) (srcCnt dstCnt : ℕ) (s : Copy α) : Copy α :=
  write dstCnt (read src srcCnt s)

/-- Seek forward in the input. -/
def skip (n : ℕ) (s : Copy α) : Copy α := { s with inPos := s.inPos + n }

/-- The `n` items of the input from position `a` on. -/
def segment (src : ℕ → α) (a n : ℕ) : List α := (List.range n).map fun k => src (a + k)

@[simp] theorem length_segment (src : ℕ → α) (a n : ℕ) : (segment src a n).length = n := by
  simp [segment]

@[simp] theorem segment_zero (src : ℕ → α) (a : ℕ) : segment src a 0 = [] := rfl

theorem segment_succ (src : ℕ → α) (a n : ℕ) :
    segment src a (n + 1) = segment src a n ++ [src (a + n)] := by
  simp [segment, List.range_succ]

theorem segment_add (src : ℕ → α) (a m n : ℕ) :
    segment src a (m + n) = segment src a m ++ segment src (a + m) n := by
  induction n with
  | zero => simp
  | succ n ih =>
    rw [← Nat.add_assoc, segment_succ, ih, segment_succ, List.append_assoc, Nat.add_assoc]

/-- An item of an output that starts with a segment. -/
theorem getD_segment_append (src : ℕ → α) (a n : ℕ) (rest : List α) (p : ℕ) (d : α) :
    (segment src a n ++ rest).getD p d = if p < n then src (a + p) else rest.getD (p - n) d := by
  split_ifs with h
  · rw [List.getD_append _ _ _ _ (by simpa using h)]
    simp [segment, h]
  · rw [List.getD_append_right _ _ _ _ (by simpa using h)]
    simp

/-- An item of an output that starts with copies of one item. -/
theorem getD_replicate_append (b : α) (n : ℕ) (rest : List α) (p : ℕ) (d : α) :
    (List.replicate n b ++ rest).getD p d = if p < n then b else rest.getD (p - n) d := by
  split_ifs with h
  · rw [List.getD_append _ _ _ _ (by simpa using h)]
    simp [h]
  · rw [List.getD_append_right _ _ _ _ (by simpa using h)]
    simp

/-- An item of the last segment. -/
theorem getD_segment {src : ℕ → α} {a n p : ℕ} (h : p < n) (d : α) :
    (segment src a n).getD p d = src (a + p) := by
  simp [segment, h]

/-- Items before the cut are not affected by it. -/
theorem getD_take {xs : List α} {n p : ℕ} (h : p < n) (d : α) :
    (xs.take n).getD p d = xs.getD p d := by
  simp [List.getD_eq_getElem?_getD, List.getElem?_take_of_lt h]

variable {src : ℕ → α} {srcCnt dstCnt : ℕ} {s : Copy α}

/-- Cutting the output off before or after an append is the same. -/
theorem take_take_append (xs ys : List α) (n : ℕ) :
    (xs.take n ++ ys).take n = (xs ++ ys).take n := by
  rcases Nat.le_total n xs.length with h | h
  · rw [List.take_append_of_le_length (by simp [h]), List.take_append_of_le_length h,
      List.take_take, Nat.min_self]
  · rw [List.take_of_length_le h]

/-- A write appends the buffer, as far as there is room. -/
theorem write_out (h : s.out.length ≤ dstCnt) :
    (write dstCnt s).out = (s.out ++ [s.buffer]).take dstCnt := by
  unfold write
  split_ifs with hlt
  · exact (List.take_of_length_le (by simp; omega)).symm
  · have heq : s.out.length = dstCnt := by omega
    rw [List.take_append_of_le_length heq.ge, List.take_of_length_le heq.le]

@[simp] theorem write_inPos (dstCnt : ℕ) (s : Copy α) : (write dstCnt s).inPos = s.inPos := by
  unfold write
  split_ifs <;> rfl

@[simp] theorem write_buffer (dstCnt : ℕ) (s : Copy α) : (write dstCnt s).buffer = s.buffer := by
  unfold write
  split_ifs <;> rfl

/-- The state of a copy: how far the input has been read, and what was written, as far as
there was room. -/
structure Wrote (dstCnt : ℕ) (s : Copy α) (pos : ℕ) (xs : List α) : Prop where
  inPos : s.inPos = pos
  out : s.out = xs.take dstCnt

namespace Wrote

variable {pos : ℕ} {xs : List α}

theorem start (dstCnt : ℕ) (b : α) : Wrote dstCnt ⟨0, b, []⟩ 0 [] := ⟨rfl, by simp⟩

theorem length_le (h : Wrote dstCnt s pos xs) : s.out.length ≤ dstCnt := by
  rw [h.out]
  exact List.length_take_le _ _

theorem write (h : Wrote dstCnt s pos xs) :
    Wrote dstCnt (write dstCnt s) pos (xs ++ [s.buffer]) := by
  constructor
  · rw [write_inPos, h.inPos]
  · rw [write_out h.length_le, h.out, take_take_append]

theorem skip (h : Wrote dstCnt s pos xs) (n : ℕ) : Wrote dstCnt (s.skip n) (pos + n) xs := by
  obtain ⟨hpos, hout⟩ := h
  exact ⟨congrArg (· + n) hpos, hout⟩

/-- **Moving items.** -/
theorem move (h : Wrote dstCnt s pos xs) {n : ℕ} (hin : pos + n ≤ srcCnt) :
    Wrote dstCnt (forLoop n (fun _ => Copy.move src srcCnt dstCnt) s) (pos + n)
      (xs ++ segment src pos n) := by
  refine forLoop_invariant
    (fun k (t : Copy α) => Wrote dstCnt t (pos + k) (xs ++ segment src pos k)) (by simpa using h) ?_
  intro k t hk ht
  have hread : read src srcCnt t = { t with buffer := src t.inPos, inPos := t.inPos + 1 } :=
    if_pos (by have := ht.inPos; omega)
  have hpos : Wrote dstCnt (read src srcCnt t) (pos + k + 1) (xs ++ segment src pos k) := by
    rw [hread]
    exact ⟨congrArg (· + 1) ht.inPos, ht.out⟩
  have hw := hpos.write
  rw [show (read src srcCnt t).buffer = src (pos + k) by rw [hread, ← ht.inPos]] at hw
  rw [segment_succ, ← List.append_assoc]
  exact hw

/-- Moving `m` rows of `n` items each. -/
theorem moveRows (h : Wrote dstCnt s pos xs) {m n : ℕ} (hin : pos + m * n ≤ srcCnt) :
    Wrote dstCnt (forLoop m (fun _ => forLoop n fun _ => Copy.move src srcCnt dstCnt) s)
      (pos + m * n) (xs ++ segment src pos (m * n)) := by
  refine forLoop_invariant
    (fun k (t : Copy α) => Wrote dstCnt t (pos + k * n) (xs ++ segment src pos (k * n)))
    (by simpa using h) ?_
  intro k t hk ht
  have hle : (k + 1) * n ≤ m * n := Nat.mul_le_mul_right n hk
  rw [Nat.add_mul, Nat.one_mul] at hle ⊢
  have hm : Wrote dstCnt (forLoop n (fun _ => Copy.move src srcCnt dstCnt) t) _ _ :=
    ht.move (by omega)
  rw [List.append_assoc, ← segment_add, Nat.add_assoc] at hm
  exact hm

/-- **Filling** with one item. -/
theorem fill (h : Wrote dstCnt s pos xs) (b : α) (n : ℕ) :
    Wrote dstCnt (forLoop n (fun _ => Copy.write dstCnt) { s with buffer := b }) pos
      (xs ++ List.replicate n b) := by
  have hinv : (forLoop n (fun _ => Copy.write dstCnt) { s with buffer := b }).buffer = b ∧
      Wrote dstCnt (forLoop n (fun _ => Copy.write dstCnt) { s with buffer := b }) pos
        (xs ++ List.replicate n b) := by
    refine forLoop_invariant
      (fun k (t : Copy α) => t.buffer = b ∧ Wrote dstCnt t pos (xs ++ List.replicate k b))
      ⟨rfl, by simpa using ⟨h.inPos, h.out⟩⟩ ?_
    rintro k t - ⟨hbuf, ht⟩
    have hw := ht.write
    rw [hbuf, List.append_assoc, ← List.replicate_succ'] at hw
    exact ⟨by rw [write_buffer, hbuf], hw⟩
  exact hinv.2

end Wrote

end Copy
