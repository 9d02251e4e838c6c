import Mathlib.Data.List.TakeWhile

/-!
# Pairs of an element

A pass from left to right that replaces an element and its like behind it, both at once. Of a run of them it
leaves at most the last one, and every place keeps its index.

* `maskPairs` — the pass;
* `InPair` — the places that it replaces, told from the list alone;
* `getElem?_maskPairs` — what is in each place.
-/

namespace Pairs

universe u v

variable {α : Type u} {β : Type v} [DecidableEq α] [DecidableEq β] {d mark : α}

/-- Replaces `d`, `d` by `mark`, `mark`. -/
def maskPairs (d mark : α) : List α → List α
  | [] => []
  | [a] => [a]
  | a :: b :: s => if a = d ∧ b = d then mark :: mark :: maskPairs d mark s else a :: maskPairs d mark (b :: s)

/-- How many `d` there are directly in front of place `i`. -/
def runBefore (d : α) (s : List α) (i : ℕ) : ℕ := ((s.take i).reverse.takeWhile (· = d)).length

/-- **Place `i` is in a pair**: it is the second, or the first. -/
def InPair (d : α) (s : List α) (i : ℕ) : Prop :=
  s[i]? = some d ∧ (runBefore d s i % 2 = 1 ∨ s[i + 1]? = some d)

instance (d : α) (s : List α) (i : ℕ) : Decidable (InPair d s i) := inferInstanceAs (Decidable (_ ∧ _))

/-! ## Places -/

/-- An element in front lengthens the run if nothing else is in between. -/
theorem runBefore_cons (a : α) (s : List α) (i : ℕ) :
    runBefore d (a :: s) (i + 1) = runBefore d s i + if (∀ b ∈ s.take i, b = d) ∧ a = d then 1 else 0 := by
  have hall : ((s.take i).reverse.takeWhile (· = d)).length = (s.take i).reverse.length ↔ ∀ b ∈ s.take i, b = d := by
    rw [(List.takeWhile_sublist _).length_eq, List.takeWhile_eq_self_iff]
    simp
  rw [runBefore, runBefore, List.take_succ_cons, List.reverse_cons, List.takeWhile_append]
  by_cases h : ∀ b ∈ s.take i, b = d
  · rw [if_pos (hall.mpr h), List.length_append, hall.mpr h]
    by_cases ha : a = d
    · rw [if_pos ⟨h, ha⟩]
      simp [ha]
    · rw [if_neg fun hboth => ha hboth.2]
      simp [ha]
  · rw [if_neg (mt hall.mp h), if_neg fun hboth => h hboth.1, Nat.add_zero]

theorem inPair_cons_of_ne {a : α} (ha : a ≠ d) (s : List α) (i : ℕ) :
    InPair d (a :: s) (i + 1) ↔ InPair d s i := by
  rw [InPair, InPair, runBefore_cons, if_neg fun hboth => ha hboth.2, Nat.add_zero]
  rfl

/-- A `d` that is followed by something else belongs to no pair, and makes none. -/
theorem inPair_cons_single {b : α} (hb : b ≠ d) (s : List α) (i : ℕ) :
    InPair d (d :: b :: s) (i + 1) ↔ InPair d (b :: s) i := by
  cases i with
  | zero =>
    have hfirst : (b :: s)[0]? ≠ some d := fun h => hb (Option.some.inj h)
    exact ⟨fun h => absurd h.1 hfirst, fun h => absurd h.1 hfirst⟩
  | succ i =>
    have hother : ¬((∀ a ∈ (b :: s).take (i + 1), a = d) ∧ d = d) := fun hall => hb (hall.1 b (List.mem_cons_self ..))
    rw [InPair, InPair, runBefore_cons, if_neg hother, Nat.add_zero]
    rfl

/-- A pair in front changes nothing. -/
theorem inPair_cons_pair (s : List α) (i : ℕ) : InPair d (d :: d :: s) (i + 2) ↔ InPair d s i := by
  have hall : (∀ b ∈ (d :: s).take (i + 1), b = d) ↔ ∀ b ∈ s.take i, b = d := by
    rw [List.take_succ_cons, List.forall_mem_cons]
    exact and_iff_right rfl
  have hrun : runBefore d (d :: d :: s) (i + 2) % 2 = runBefore d s i % 2 := by
    rw [runBefore_cons, runBefore_cons]
    simp only [hall, and_true]
    split_ifs
    · omega
    · rfl
  rw [InPair, InPair, hrun]
  rfl

/-! ## The pass -/

theorem length_maskPairs (s : List α) : (maskPairs d mark s).length = s.length := by
  fun_induction maskPairs d mark s with
  | case1 => rfl
  | case2 a => rfl
  | case3 a b s h ih => rw [List.length_cons, List.length_cons, ih, List.length_cons, List.length_cons]
  | case4 a b s h ih => rw [List.length_cons, ih, ← List.length_cons]

/-- **What is in each place.** -/
theorem getElem?_maskPairs (s : List α) (i : ℕ) :
    (maskPairs d mark s)[i]? = s[i]?.map fun a => if InPair d s i then mark else a := by
  fun_induction maskPairs d mark s generalizing i with
  | case1 => rfl
  | case2 a =>
    have hnone : ¬ InPair d [a] i := by
      rintro ⟨hi, hodd | hnext⟩
      · obtain rfl : i = 0 := by simpa using (List.getElem?_eq_some_iff.mp hi).1
        exact absurd (show 0 % 2 = 1 from hodd) (by decide)
      · simp at hnext
    simp only [if_neg hnone, Option.map_id']
  | case3 a b s h ih =>
    obtain ⟨rfl, rfl⟩ := h
    cases i with
    | zero =>
      have hfirst : InPair b (b :: b :: s) 0 := ⟨rfl, .inr rfl⟩
      simp only [if_pos hfirst]
      rfl
    | succ i =>
      cases i with
      | zero =>
        have hsecond : InPair b (b :: b :: s) (0 + 1) := ⟨rfl, .inl (by simp [runBefore])⟩
        simp only [if_pos hsecond]
        rfl
      | succ i =>
        simp only [inPair_cons_pair]
        exact ih i
  | case4 a b s h ih =>
    cases i with
    | zero =>
      have hnone : ¬ InPair d (a :: b :: s) 0 := by
        rintro ⟨ha, hodd | hb⟩
        · exact absurd (show 0 % 2 = 1 from hodd) (by decide)
        · exact h ⟨Option.some.inj ha, Option.some.inj hb⟩
      simp only [if_neg hnone, Option.map_id']
      rfl
    | succ i =>
      have hsame : InPair d (a :: b :: s) (i + 1) ↔ InPair d (b :: s) i := by
        by_cases ha : a = d
        · subst ha
          exact inPair_cons_single (fun hb => h ⟨rfl, hb⟩) s i
        · exact inPair_cons_of_ne ha _ i
      simp only [hsame]
      exact ih i

/-- The pass looks only for `d`. -/
theorem inPair_map {f : α → β} {d' : β} (hf : ∀ a, f a = d' ↔ a = d) (s : List α) (i : ℕ) :
    InPair d' (s.map f) i ↔ InPair d s i := by
  have hget (j : ℕ) : (s.map f)[j]? = some d' ↔ s[j]? = some d := by
    rw [List.getElem?_map, Option.map_eq_some_iff]
    simp only [hf, exists_eq_right]
  have hrun : runBefore d' (s.map f) i = runBefore d s i := by
    rw [runBefore, runBefore, ← List.map_take, ← List.map_reverse, List.takeWhile_map, List.length_map]
    simp only [Function.comp_def, hf]
  rw [InPair, InPair, hget, hget, hrun]

end Pairs
