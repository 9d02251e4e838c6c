import Mathlib.Data.List.DropRight

/-!
# Trimming a list at both ends

What a list begins and ends with is cut off, as far as a condition holds.

* `trim`, `Bare` — what is left, and that nothing more is to be cut off;
* `exists_trim`, `trim_unique` — the list around what is left;
* `trim_trim`, `countP_trim_lt` — two conditions, one of which is weaker.
-/

universe u

namespace Trim

variable {α : Type u} {p q : α → Bool} {l s a b : List α}

/-- What is left of a list, when both its ends are cut off as far as `p` holds. -/
def trim (p : α → Bool) (l : List α) : List α := (l.rdropWhile p).dropWhile p

/-- The list neither begins nor ends with what is to be cut off. -/
def Bare (p : α → Bool) (s : List α) : Prop := (∀ c ∈ s.head?, p c = false) ∧ ∀ c ∈ s.getLast?, p c = false

instance (p : α → Bool) (s : List α) : Decidable (Bare p s) := inferInstanceAs (Decidable (_ ∧ _))

theorem dropWhile_all (h : ∀ c ∈ a, p c = true) (s : List α) : (a ++ s).dropWhile p = s.dropWhile p := by
  induction a with
  | nil => rfl
  | cons c a ih =>
    rw [List.cons_append, List.dropWhile_cons_of_pos (h c List.mem_cons_self)]
    exact ih fun d hd => h d (List.mem_cons_of_mem c hd)

theorem rdropWhile_all (h : ∀ c ∈ b, p c = true) (s : List α) : (s ++ b).rdropWhile p = s.rdropWhile p := by
  rw [List.rdropWhile, List.reverse_append, dropWhile_all fun c hc => h c (List.mem_reverse.mp hc)]
  rfl

theorem dropWhile_bare (h : ∀ c ∈ s.head?, p c = false) : s.dropWhile p = s := by
  cases s with
  | nil => rfl
  | cons c s => exact List.dropWhile_cons_of_neg (by rw [h c rfl]; exact Bool.false_ne_true)

theorem rdropWhile_bare (h : ∀ c ∈ s.getLast?, p c = false) : s.rdropWhile p = s := by
  rw [List.rdropWhile, dropWhile_bare, List.reverse_reverse]
  rwa [List.head?_reverse]

/-- **The list around what is left.** -/
theorem exists_trim (p : α → Bool) (l : List α) :
    ∃ a b, l = a ++ trim p l ++ b ∧ (∀ c ∈ a, p c = true) ∧ (∀ c ∈ b, p c = true) ∧ Bare p (trim p l) := by
  refine ⟨(l.rdropWhile p).takeWhile p, l.rtakeWhile p, ?_, ?_, ?_, ?_, ?_⟩
  · rw [trim, List.takeWhile_append_dropWhile, List.rdropWhile_append_rtakeWhile]
  · exact fun c hc => List.mem_takeWhile_imp hc
  · exact fun c hc => List.mem_rtakeWhile_imp hc
  · intro c hc
    have hhead := List.head?_dropWhile_not p (l.rdropWhile p)
    rw [show ((l.rdropWhile p).dropWhile p).head? = some c from hc] at hhead
    simpa using hhead
  · intro c hc
    -- the last element of what is left is that of the list without its end
    have hlast : c ∈ (l.rdropWhile p).getLast? := by
      rw [← List.takeWhile_append_dropWhile (p := p) (l := l.rdropWhile p)]
      exact List.mem_getLast?_append_of_mem_getLast? hc
    obtain ⟨hne, rfl⟩ := List.mem_getLast?_eq_getLast hlast
    exact Bool.eq_false_iff.mpr (List.rdropWhile_last_not p l hne)

/-- What is left is determined. -/
theorem trim_unique (ha : ∀ c ∈ a, p c = true) (hb : ∀ c ∈ b, p c = true) (hs : Bare p s) :
    trim p (a ++ s ++ b) = s := by
  rw [trim, rdropWhile_all hb]
  rcases List.eq_nil_or_concat s with rfl | ⟨t, c, rfl⟩
  · rw [List.append_nil, List.rdropWhile_eq_nil_iff.mpr ha]
    rfl
  · rw [rdropWhile_bare, dropWhile_all ha, dropWhile_bare hs.1]
    intro d hd
    refine hs.2 d ?_
    rwa [List.getLast?_append_of_ne_nil _ (by simp)] at hd

theorem trim_eq_self (hs : Bare p s) : trim p s = s := by
  have h := trim_unique (a := []) (b := []) (by simp) (by simp) hs
  rwa [List.nil_append, List.append_nil] at h

/-- The first element is left to the second cut. -/
theorem dropWhile_cons_rdropWhile (c : α) (u : List α) : (c :: u.rdropWhile p).dropWhile p = trim p (c :: u) := by
  have hsplit : c :: u = c :: u.rdropWhile p ++ u.rtakeWhile p := by
    rw [List.cons_append, List.rdropWhile_append_rtakeWhile]
  rw [trim, hsplit, rdropWhile_all fun d hd => List.mem_rtakeWhile_imp hd]
  rcases hu : u.rdropWhile p with _ | ⟨d, v⟩
  · rw [List.rdropWhile_singleton]
    split_ifs with hc
    · exact List.dropWhile_cons_of_pos hc
    · rfl
  · rw [List.rdropWhile_eq_self_iff.mpr]
    intro hne hlast
    refine List.rdropWhile_last_not p u (by rw [hu]; exact List.cons_ne_nil d v) ?_
    simp only [hu]
    rwa [List.getLast_cons (List.cons_ne_nil d v)] at hlast

/-- Only what is in the list is looked at. -/
theorem trim_congr (h : ∀ c ∈ l, p c = q c) : trim p l = trim q l := by
  obtain ⟨a, b, hl, ha, hb, hbare⟩ := exists_trim q l
  have hmem {c : α} (hc : c ∈ a ∨ c ∈ trim q l ∨ c ∈ b) : p c = q c := by
    refine h c ?_
    rw [hl, List.mem_append, List.mem_append]
    tauto
  conv_lhs => rw [hl]
  refine trim_unique ?_ ?_ ⟨?_, ?_⟩
  · intro c hc
    rw [hmem (.inl hc), ha c hc]
  · intro c hc
    rw [hmem (.inr (.inr hc)), hb c hc]
  · intro c hc
    rw [hmem (.inr (.inl (List.mem_of_mem_head? hc))), hbare.1 c hc]
  · intro c hc
    rw [hmem (.inr (.inl (List.mem_of_mem_getLast? hc))), hbare.2 c hc]

/-- A weaker condition cuts off more. -/
theorem trim_trim (h : ∀ c, p c = true → q c = true) (l : List α) : trim q (trim p l) = trim q l := by
  obtain ⟨a, b, hl, ha, hb, -⟩ := exists_trim p l
  obtain ⟨a', b', hs, ha', hb', hbare⟩ := exists_trim q (trim p l)
  have hlist : l = (a ++ a') ++ trim q (trim p l) ++ (b' ++ b) := by
    conv_lhs => rw [hl, hs]
    simp only [List.append_assoc]
  conv_rhs => rw [hlist]
  refine (trim_unique ?_ ?_ hbare).symm
  · intro c hc
    exact (List.mem_append.mp hc).elim (fun hc => h c (ha c hc)) (ha' c)
  · intro c hc
    exact (List.mem_append.mp hc).elim (hb' c) fun hc => h c (hb c hc)

/-- **Elements at the ends are lost**, if they are among those that are cut off. -/
theorem countP_trim_lt {r : α → Bool} (hr : ∀ c, r c = true → q c = true) (h : ¬ Bare r s) :
    (trim q s).countP r < s.countP r := by
  obtain ⟨a, b, hs, -, -, hbare⟩ := exists_trim q s
  have hsplit : s.countP r = a.countP r + (trim q s).countP r + b.countP r := by
    conv_lhs => rw [hs, List.countP_append, List.countP_append]
  have hmem {c : α} {t : List α} (hc : c ∈ t) (hrc : r c = true) : 0 < t.countP r :=
    List.countP_pos_iff.mpr ⟨c, hc, hrc⟩
  suffices hends : 0 < a.countP r ∨ 0 < b.countP r by omega
  rw [Bare, not_and_or] at h
  push Not at h
  rw [hs] at h
  rcases h with ⟨c, hc, hrc⟩ | ⟨c, hc, hrc⟩
  · rw [ne_eq, Bool.not_eq_false] at hrc
    cases a with
    | cons d a =>
      obtain rfl : d = c := Option.some.inj hc
      exact .inl (hmem List.mem_cons_self hrc)
    | nil =>
      right
      rcases ht : trim q s with _ | ⟨d, t⟩
      · rw [ht] at hc
        exact hmem (List.mem_of_mem_head? hc) hrc
      · rw [ht] at hc hbare
        obtain rfl : d = c := Option.some.inj hc
        have hlow := hbare.1 d rfl
        rw [hr d hrc] at hlow
        cases hlow
  · rw [ne_eq, Bool.not_eq_false] at hrc
    rcases List.eq_nil_or_concat b with rfl | ⟨b, d, rfl⟩
    · left
      rw [List.append_nil] at hc
      rcases List.eq_nil_or_concat (trim q s) with ht | ⟨t, d, ht⟩
      · rw [ht, List.append_nil] at hc
        exact hmem (List.mem_of_mem_getLast? hc) hrc
      · rw [ht, List.getLast?_append_of_ne_nil _ (by simp)] at hc
        rw [ht] at hbare
        have hlow := hbare.2 c hc
        rw [hr c hrc] at hlow
        cases hlow
    · right
      rw [List.getLast?_append_of_ne_nil _ (by simp)] at hc
      exact hmem (List.mem_of_mem_getLast? hc) hrc

end Trim
