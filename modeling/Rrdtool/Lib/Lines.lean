import Mathlib.Data.List.Basic

/-!
# Lines

Texts that are lines, each with a newline behind it.

* `exists_joinLines` — every text with a newline at its end is one;
* `count_joinLines` — and it has as many newlines as lines.
-/

namespace Lines

/-- Lines, each with its newline. -/
def joinLines (ls : List (List Char)) : List Char := ls.flatMap (· ++ ['\n'])

@[simp] theorem joinLines_nil : joinLines [] = [] := rfl

@[simp] theorem joinLines_cons (l : List Char) (ls : List (List Char)) :
    joinLines (l :: ls) = l ++ '\n' :: joinLines ls := by
  simp [joinLines]

@[simp] theorem joinLines_append (ls ms : List (List Char)) :
    joinLines (ls ++ ms) = joinLines ls ++ joinLines ms := by
  simp [joinLines]

theorem count_joinLines {ls : List (List Char)} (h : ∀ l ∈ ls, '\n' ∉ l) :
    (joinLines ls).count '\n' = ls.length := by
  induction ls with
  | nil => rfl
  | cons l ls ih =>
    have hl : l.count '\n' = 0 := List.count_eq_zero.mpr (h l List.mem_cons_self)
    have hls := ih fun m hm => h m (List.mem_cons_of_mem l hm)
    simp [hl, hls]

/-- The parts of such a text. -/
theorem exists_joinLines {t : List Char} (h : t = [] ∨ t.getLast? = some '\n') :
    ∃ ls, t = joinLines ls ∧ ∀ l ∈ ls, '\n' ∉ l ∧ l ⊆ t ∧ l.length < t.length := by
  induction t with
  | nil => exact ⟨[], rfl, by simp⟩
  | cons c t ih =>
    have ht : t = [] ∨ t.getLast? = some '\n' := by
      rcases t with _ | ⟨d, t⟩
      · exact .inl rfl
      · exact .inr (by simpa using h)
    obtain ⟨ls, rfl, hls⟩ := ih ht
    by_cases hc : c = '\n'
    · subst hc
      refine ⟨[] :: ls, by simp, fun l hl => ?_⟩
      rcases List.mem_cons.mp hl with rfl | hl
      · simp
      · obtain ⟨hn, hsub, hlt⟩ := hls l hl
        exact ⟨hn, fun x hx => List.mem_cons_of_mem _ (hsub hx), Nat.lt_succ_of_lt hlt⟩
    · rcases ls with _ | ⟨l, ls⟩
      · simp [hc] at h
      -- the character belongs to the first line
      refine ⟨(c :: l) :: ls, by simp, fun m hm => ?_⟩
      rcases List.mem_cons.mp hm with rfl | hm
      · obtain ⟨hn, hsub, hlt⟩ := hls l List.mem_cons_self
        refine ⟨by simp [hn, Ne.symm hc], ?_, Nat.succ_lt_succ hlt⟩
        exact List.cons_subset_cons c hsub
      · obtain ⟨hn, hsub, hlt⟩ := hls m (List.mem_cons_of_mem l hm)
        exact ⟨hn, fun x hx => List.mem_cons_of_mem c (hsub hx), Nat.lt_succ_of_lt hlt⟩

end Lines
