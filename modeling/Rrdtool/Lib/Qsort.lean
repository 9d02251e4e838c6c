import Mathlib.Data.List.Sort

/-!
# `qsort`

What the C library promises: the elements are permuted, and they come out in ascending order if the comparison
defines a total order on them. The comparison need not know equal elements, as long as it puts those that differ
in order from both sides.

* `Agrees` — the comparison puts the elements of a list in the order `r`;
* `IsQsort` — what is promised;
* `IsQsort.eq_insertionSort` — then the result is known;
* `isQsort_insertionSort`, `exists_isQsort_eq` — there is such a function, and where the comparison is inconsistent
  it may leave the elements in any order.
-/

namespace Qsort

universe u

variable {α : Type u} {cmp : α → α → ℤ} {r : α → α → Prop} {l : List α}

/-- **The comparison puts the elements in the order `r`**, those that differ. -/
def Agrees (cmp : α → α → ℤ) (r : α → α → Prop) (l : List α) : Prop :=
  ∀ x ∈ l, ∀ y ∈ l, r x y → x ≠ y → cmp x y < 0 ∧ 0 < cmp y x

/-- **A function that sorts with comparisons.** -/
structure IsQsort (qsort : (α → α → ℤ) → List α → List α) : Prop where
  perm : ∀ cmp l, (qsort cmp l).Perm l
  sorted : ∀ cmp l (r : α → α → Prop) [IsLinearOrder α r], Agrees cmp r l → (qsort cmp l).Pairwise r

variable [IsLinearOrder α r] [DecidableRel r]

/-- **The result of a consistent comparison** does not depend on the function. -/
theorem IsQsort.eq_insertionSort {qsort : (α → α → ℤ) → List α → List α} (h : IsQsort qsort) (hl : Agrees cmp r l) :
    qsort cmp l = l.insertionSort r :=
  ((h.perm cmp l).trans (List.perm_insertionSort r l).symm).eq_of_pairwise' (h.sorted cmp l r hl)
    (List.pairwise_insertionSort r l)

/-! ## Insertion -/

omit [IsLinearOrder α r] [DecidableRel r] in
theorem Agrees.mono {l' : List α} (h : Agrees cmp r l) (hsub : ∀ x ∈ l', x ∈ l) : Agrees cmp r l' :=
  fun x hx y hy => h x (hsub x hx) y (hsub y hy)

/-- Insertion into a sorted list, with the comparison. -/
theorem orderedInsert_eq {a : α} (h : Agrees cmp r (a :: l)) (hl : l.Pairwise r) :
    l.orderedInsert (fun x y => cmp x y ≤ 0) a = l.orderedInsert r a := by
  induction l with
  | nil => rfl
  | cons b l ih =>
    obtain ⟨hb, hl⟩ := List.pairwise_cons.mp hl
    have hrest := ih (h.mono (by simp +contextual)) hl
    rw [List.orderedInsert_cons, List.orderedInsert_cons]
    by_cases hab : a = b
    · subst hab
      -- equal elements: the places before and behind are the same
      have hfirst : l.orderedInsert r a = a :: l := by
        cases l with
        | nil => rfl
        | cons c l => exact List.orderedInsert_cons_of_le r l (hb c (List.mem_cons_self ..))
      rw [if_pos (refl_of r a), hrest, hfirst, ite_self]
    · have hiff : cmp a b ≤ 0 ↔ r a b := by
        constructor
        · intro hle
          by_contra hnot
          have hba := (total_of r a b).resolve_left hnot
          have := (h b (by simp) a (by simp) hba (Ne.symm hab)).2
          omega
        · intro hle
          have := (h a (by simp) b (by simp) hle hab).1
          omega
      simp only [hiff, hrest]

theorem insertionSort_eq (h : Agrees cmp r l) : l.insertionSort (fun x y => cmp x y ≤ 0) = l.insertionSort r := by
  induction l with
  | nil => rfl
  | cons a l ih =>
    rw [List.insertionSort_cons, List.insertionSort_cons, ih (h.mono fun x hx => List.mem_cons_of_mem a hx)]
    refine orderedInsert_eq (h.mono fun x hx => ?_) (List.pairwise_insertionSort r l)
    rcases List.mem_cons.mp hx with rfl | hx
    · exact List.mem_cons_self ..
    · exact List.mem_cons_of_mem a ((List.mem_insertionSort r).mp hx)

/-- Sorting by insertion. -/
theorem isQsort_insertionSort :
    IsQsort fun (cmp : α → α → ℤ) l => l.insertionSort fun x y => cmp x y ≤ 0 where
  perm _ l := List.perm_insertionSort _ l
  sorted cmp l r _ h := by
    classical
    rw [insertionSort_eq h]
    exact List.pairwise_insertionSort r l

omit [IsLinearOrder α r] [DecidableRel r] in
/-- **Where no order agrees with the comparison, any permutation may come out.** -/
theorem exists_isQsort_eq {l' : List α} (hperm : l'.Perm l)
    (h : ∀ (r : α → α → Prop) [IsLinearOrder α r], ¬ Agrees cmp r l) : ∃ qsort, IsQsort qsort ∧ qsort cmp l = l' := by
  classical
  refine ⟨fun c m => if c = cmp ∧ m = l then l' else m.insertionSort fun x y => c x y ≤ 0, ⟨?_, ?_⟩, if_pos ⟨rfl, rfl⟩⟩
  · intro c m
    split_ifs with hcase
    · rw [hcase.2]
      exact hperm
    · exact isQsort_insertionSort.perm c m
  · intro c m r _ hagrees
    split_ifs with hcase
    · obtain ⟨rfl, rfl⟩ := hcase
      exact absurd hagrees (h r)
    · exact isQsort_insertionSort.sorted c m r hagrees

end Qsort
