import Mathlib.Data.List.Induction
import Mathlib.Order.Bounds.Basic
import Mathlib.Algebra.Order.Ring.Int

/-!
# The extent of a list, kept in variables that start at zero

A loop that looks for the latest and the earliest time of a list, in variables that are zero at first. The
latest one is found unless all of them are negative. For the earliest one, zero means that there is none yet:
the times in front of a zero are forgotten.
-/

namespace Extent

/-- `if (a < t) a = t` -/
def later (a t : ℤ) : ℤ := if a < t then t else a

/-- `if (a == 0 || a > t) a = t` -/
def earlier (a t : ℤ) : ℤ := if a = 0 ∨ t < a then t else a

/-- The variable for the latest time, at the end of the loop. -/
def latest (l : List ℤ) : ℤ := l.foldl later 0

/-- The variable for the earliest time, at the end of the loop. -/
def earliest (l : List ℤ) : ℤ := l.foldl earlier 0

variable {l : List ℤ}

theorem latest_append (l : List ℤ) (t : ℤ) : latest (l ++ [t]) = later (latest l) t := by
  rw [latest, List.foldl_append]
  rfl

theorem earliest_append (l : List ℤ) (t : ℤ) : earliest (l ++ [t]) = earlier (earliest l) t := by
  rw [earliest, List.foldl_append]
  rfl

/-- The latest time, or zero if that is later. -/
theorem latest_spec (l : List ℤ) : IsGreatest {t | t = 0 ∨ t ∈ l} (latest l) := by
  induction l using List.reverseRecOn with
  | nil =>
    refine ⟨.inl rfl, ?_⟩
    rintro t (rfl | ht)
    · exact le_refl _
    · exact absurd ht (by simp)
  | append_singleton l t ih =>
    rw [latest_append, later]
    obtain ⟨hmem, hle⟩ := ih
    split_ifs with hlt
    · refine ⟨.inr (by simp), ?_⟩
      rintro u (rfl | hu)
      · exact (hle (.inl rfl)).trans hlt.le
      · rcases List.mem_append.mp hu with hu | hu
        · exact (hle (.inr hu)).trans hlt.le
        · exact (List.mem_singleton.mp hu).le
    · refine ⟨hmem.imp_right fun h => List.mem_append_left _ h, ?_⟩
      rintro u (rfl | hu)
      · exact hle (.inl rfl)
      · rcases List.mem_append.mp hu with hu | hu
        · exact hle (.inr hu)
        · exact (List.mem_singleton.mp hu).le.trans (not_lt.mp hlt)

theorem le_latest {t : ℤ} (ht : t ∈ l) : t ≤ latest l := (latest_spec l).2 (.inr ht)

/-- **The latest time is found** exactly if one of them is not negative. -/
theorem isGreatest_latest_iff : IsGreatest {t | t ∈ l} (latest l) ↔ ∃ t ∈ l, 0 ≤ t := by
  obtain ⟨hmem, hle⟩ := latest_spec l
  constructor
  · intro h
    exact ⟨latest l, h.1, hle (.inl rfl)⟩
  · rintro ⟨t, ht, hpos⟩
    refine ⟨?_, fun u hu => hle (.inr hu)⟩
    rcases hmem with hzero | hmem
    · have hzero' : latest l = t := le_antisymm (hzero ▸ hpos) (le_latest ht)
      rw [hzero']
      exact ht
    · exact hmem

theorem earliest_mem (hne : l ≠ []) : earliest l ∈ l := by
  induction l using List.reverseRecOn with
  | nil => exact absurd rfl hne
  | append_singleton l t ih =>
    rw [earliest_append, earlier]
    split_ifs with h
    · exact List.mem_append_right _ (List.mem_singleton_self t)
    · rw [not_or] at h
      refine List.mem_append_left _ (ih ?_)
      rintro rfl
      exact h.1 rfl

theorem isLeast_append_singleton {a t : ℤ} (h : IsLeast {u | u ∈ l} a) :
    IsLeast {u | u ∈ l ++ [t]} (min a t) := by
  constructor
  · rcases min_choice a t with hmin | hmin
    · rw [hmin]
      exact List.mem_append_left _ h.1
    · rw [hmin]
      exact List.mem_append_right _ (List.mem_singleton_self t)
  · intro u hu
    rcases List.mem_append.mp hu with hu | hu
    · exact (min_le_left a t).trans (h.2 hu)
    · exact (min_le_right a t).trans (List.mem_singleton.mp hu).ge

/-- **The earliest time is found** exactly if it is not zero, or is the last one of the list. -/
theorem isLeast_earliest_iff (hne : l ≠ []) :
    IsLeast {t | t ∈ l} (earliest l) ↔ ¬ IsLeast {t | t ∈ l} 0 ∨ l.getLast? = some 0 := by
  induction l using List.reverseRecOn with
  | nil => exact absurd rfl hne
  | append_singleton l t ih =>
    rw [earliest_append, List.getLast?_concat, Option.some_inj]
    by_cases hl : l = []
    · subst hl
      have hzero : IsLeast {u : ℤ | u ∈ ([] ++ [t] : List ℤ)} t :=
        ⟨List.mem_singleton_self t, fun u hu => (List.mem_singleton.mp hu).ge⟩
      have hval : earlier (earliest []) t = t := if_pos (.inl rfl)
      rw [hval]
      refine iff_of_true hzero ?_
      by_cases ht : t = 0
      · exact .inr ht
      · exact .inl fun h => ht (hzero.unique h)
    · have hmem := earliest_mem hl
      by_cases hleast : IsLeast {u | u ∈ l} 0
      · -- a zero in front: what counts is whether the last time is later
        have happend := isLeast_append_singleton (t := t) hleast
        have hright : ¬ IsLeast {u | u ∈ l ++ [t]} 0 ∨ t = 0 ↔ t ≤ 0 := by
          constructor
          · rintro (h | rfl)
            · by_contra hpos
              rw [min_eq_left (not_le.mp hpos).le] at happend
              exact h happend
            · exact le_refl _
          · intro hle
            rcases hle.lt_or_eq with hlt | heq
            · rw [min_eq_right hle] at happend
              exact .inl fun h => hlt.ne (happend.unique h)
            · exact .inr heq
        have hnonneg : 0 ≤ earliest l := hleast.2 hmem
        rw [hright]
        constructor
        · intro h
          have hval := h.unique happend
          by_contra hpos
          rw [min_eq_left (not_le.mp hpos).le, earlier] at hval
          split_ifs at hval with hcase
          · exact hpos hval.le
          · exact hcase (.inl hval)
        · intro hle
          rw [min_eq_right hle] at happend
          have hval : earlier (earliest l) t = t := by
            rw [earlier]
            split_ifs with hcase
            · rfl
            · rw [not_or] at hcase
              omega
          rw [hval]
          exact happend
      · have hfound := (ih hl).mpr (.inl hleast)
        have hval : earlier (earliest l) t = min (earliest l) t := by
          have hne0 : earliest l ≠ 0 := fun h => hleast (h ▸ hfound)
          rw [earlier]
          split_ifs with hcase
          · exact (min_eq_right (hcase.resolve_left hne0).le).symm
          · rw [not_or, not_lt] at hcase
            exact (min_eq_left hcase.2).symm
        rw [hval]
        refine iff_of_true (isLeast_append_singleton hfound) ?_
        by_cases ht : t = 0
        · exact .inr ht
        · refine .inl fun h => ?_
          have hzero : (0 : ℤ) ∈ l := by
            rcases List.mem_append.mp h.1 with h0 | h0
            · exact h0
            · exact absurd (List.mem_singleton.mp h0).symm ht
          exact hleast ⟨hzero, fun u hu => h.2 (List.mem_append_left _ hu)⟩

end Extent
