import Mathlib.Data.List.Perm.Subperm
import Mathlib.Logic.Function.Basic

/-!
# Buffered hand-over

Values are accepted for a key and wait there; a worker takes everything that waits for a key
as one batch, and hands the batch over when it has finished with it. What waits may also be
dropped. This is all that a write-back cache with several writers does to its data, whatever
decides when a batch is taken.

* `Accounted` — an accepted value is finished, dropped, waiting or in a batch; every
  operation keeps it;
* `Ordered` — values of one key are finished in the order in which they were accepted; this
  needs that no worker takes a batch of a key while another one holds a batch of it
  (`Alone`);
* `Ordered.held_eq`, `Ordered.free_eq` — where nothing was dropped, the three parts make up what was accepted.
-/

namespace Pipeline

universe u v w

/-- Keys `κ`, workers `ι`, values `ν`. -/
structure Pipe (κ : Type u) (ι : Type v) (ν : Type w) where
  /-- everything ever accepted, oldest first -/
  accepted : κ → List ν
  /-- what waits -/
  pending : κ → List ν
  /-- the batch a worker holds -/
  taken : ι → Option (κ × List ν)
  /-- everything handed over, oldest first -/
  finished : κ → List ν
  /-- everything dropped while it waited -/
  dropped : κ → List ν

/-- What can happen to the data. -/
inductive Transfer (κ : Type u) (ι : Type v) (ν : Type w) where
  /-- nothing -/
  | stay : Transfer κ ι ν
  /-- values are accepted -/
  | accept : κ → List ν → Transfer κ ι ν
  /-- what waits for a key is dropped -/
  | drop : κ → Transfer κ ι ν
  /-- a worker takes a batch -/
  | take : ι → κ → Transfer κ ι ν
  /-- a worker hands its batch over -/
  | finish : ι → Transfer κ ι ν

variable {κ : Type u} {ι : Type v} {ν : Type w} [DecidableEq κ] [DecidableEq ι]

/-- One operation; a worker holds one batch at a time. -/
def Pipe.apply (p : Pipe κ ι ν) : Transfer κ ι ν → Option (Pipe κ ι ν)
  | .stay => some p
  | .accept k vs => some { p with
      accepted := Function.update p.accepted k (p.accepted k ++ vs)
      pending := Function.update p.pending k (p.pending k ++ vs) }
  | .drop k => some { p with
      pending := Function.update p.pending k []
      dropped := Function.update p.dropped k (p.dropped k ++ p.pending k) }
  | .take i k =>
    match p.taken i with
    | some _ => none
    | none => some { p with
        pending := Function.update p.pending k []
        taken := Function.update p.taken i (some (k, p.pending k)) }
  | .finish i =>
    match p.taken i with
    | none => none
    | some (k, vs) => some { p with
        taken := Function.update p.taken i none
        finished := Function.update p.finished k (p.finished k ++ vs) }

/-- Appending to the list of one key takes nothing from any list. -/
theorem subset_update_append (g : κ → List ν) (k : κ) (vs : List ν) (l : κ) :
    g l ⊆ Function.update g k (g k ++ vs) l := by
  by_cases hl : l = k
  · subst hl
    rw [Function.update_self]
    exact List.subset_append_left _ _
  · rw [Function.update_of_ne hl]
    exact List.Subset.refl _

/-! ## No value gets lost -/

/-- Where a value of key `k` can be. -/
def Pipe.Holds (p : Pipe κ ι ν) (k : κ) (v : ν) : Prop :=
  v ∈ p.finished k ∨ v ∈ p.dropped k ∨ v ∈ p.pending k ∨ ∃ i vs, p.taken i = some (k, vs) ∧ v ∈ vs

/-- Every accepted value is somewhere. -/
def Pipe.Accounted (p : Pipe κ ι ν) : Prop := ∀ k, ∀ v ∈ p.accepted k, p.Holds k v

variable {p q : Pipe κ ι ν} {op : Transfer κ ι ν}

/-- A value that is somewhere stays somewhere. -/
theorem Pipe.Holds.apply {k : κ} {v : ν} (h : p.Holds k v) (ha : p.apply op = some q) :
    q.Holds k v := by
  cases op with
  | stay =>
    obtain rfl := Option.some.inj ha
    exact h
  | accept l vs =>
    obtain rfl := Option.some.inj ha
    obtain h | h | h | h := h
    · exact .inl h
    · exact .inr (.inl h)
    · refine .inr (.inr (.inl ?_))
      by_cases hk : k = l
      · subst hk
        simp [h]
      · simpa [hk] using h
    · exact .inr (.inr (.inr h))
  | drop l =>
    obtain rfl := Option.some.inj ha
    obtain h | h | h | h := h
    · exact .inl h
    · refine .inr (.inl ?_)
      by_cases hk : k = l
      · subst hk
        simp [h]
      · simpa [hk] using h
    · by_cases hk : k = l
      · subst hk
        exact .inr (.inl (by simp [h]))
      · exact .inr (.inr (.inl (by simpa [hk] using h)))
    · exact .inr (.inr (.inr h))
  | take i l =>
    simp only [Pipe.apply] at ha
    split at ha
    · exact absurd ha (by simp)
    · rename_i hi
      obtain rfl := Option.some.inj ha
      obtain h | h | h | ⟨j, vs, hj, hv⟩ := h
      · exact .inl h
      · exact .inr (.inl h)
      · by_cases hk : k = l
        · subst hk
          exact .inr (.inr (.inr ⟨i, p.pending k, by simp, h⟩))
        · exact .inr (.inr (.inl (by simpa [hk] using h)))
      · have hji : j ≠ i := by
          rintro rfl
          simp [hi] at hj
        exact .inr (.inr (.inr ⟨j, vs, by simpa [hji] using hj, hv⟩))
  | finish i =>
    simp only [Pipe.apply] at ha
    split at ha
    · exact absurd ha (by simp)
    · rename_i l ws hi
      obtain rfl := Option.some.inj ha
      obtain h | h | h | ⟨j, vs, hj, hv⟩ := h
      · refine .inl ?_
        by_cases hk : k = l
        · subst hk
          simp [h]
        · simpa [hk] using h
      · exact .inr (.inl h)
      · exact .inr (.inr (.inl h))
      · by_cases hji : j = i
        · subst hji
          rw [hi] at hj
          obtain ⟨rfl, rfl⟩ := Prod.mk.inj (Option.some.inj hj)
          exact .inl (by simp [hv])
        · exact .inr (.inr (.inr ⟨j, vs, by simpa [hji] using hj, hv⟩))

/-- Nothing but `accept` changes what has been accepted. -/
theorem Pipe.accepted_apply (ha : p.apply op = some q) :
    q.accepted = p.accepted ∨ ∃ k vs, op = .accept k vs ∧
      q.accepted = Function.update p.accepted k (p.accepted k ++ vs) ∧
      q.pending = Function.update p.pending k (p.pending k ++ vs) := by
  cases op with
  | stay =>
    obtain rfl := Option.some.inj ha
    exact .inl rfl
  | accept l vs =>
    obtain rfl := Option.some.inj ha
    exact .inr ⟨l, vs, rfl, rfl, rfl⟩
  | drop l =>
    obtain rfl := Option.some.inj ha
    exact .inl rfl
  | take i l =>
    simp only [Pipe.apply] at ha
    split at ha
    · exact absurd ha (by simp)
    · obtain rfl := Option.some.inj ha
      exact .inl rfl
  | finish i =>
    simp only [Pipe.apply] at ha
    split at ha
    · exact absurd ha (by simp)
    · obtain rfl := Option.some.inj ha
      exact .inl rfl

/-- **No operation loses a value.** -/
theorem Pipe.Accounted.apply (h : p.Accounted) (ha : p.apply op = some q) : q.Accounted := by
  intro k v hv
  rcases Pipe.accepted_apply ha with heq | ⟨l, vs, rfl, hacc, hpend⟩
  · rw [heq] at hv
    exact (h k v hv).apply ha
  · rw [hacc] at hv
    by_cases hk : k = l
    · subst hk
      rw [Function.update_self] at hv
      rcases List.mem_append.mp hv with hv | hv
      · exact (h k v hv).apply ha
      · exact .inr (.inr (.inl (by rw [hpend]; simp [hv])))
    · rw [Function.update_of_ne hk] at hv
      exact (h k v hv).apply ha

/-! ## Order -/

/-- No other worker holds a batch of the key that is about to be taken. -/
def Pipe.Alone (p : Pipe κ ι ν) : Transfer κ ι ν → Prop
  | .take _ k => ∀ j vs, p.taken j ≠ some (k, vs)
  | _ => True

/-- What is finished, held and waiting for a key is, in this order, a part of what was
accepted for it, and one worker at most holds a batch of it. -/
structure Pipe.Ordered (p : Pipe κ ι ν) : Prop where
  one : ∀ {i j k vs ws}, p.taken i = some (k, vs) → p.taken j = some (k, ws) → i = j
  held : ∀ {i k vs}, p.taken i = some (k, vs) →
    (p.finished k ++ vs ++ p.pending k).Sublist (p.accepted k)
  free : ∀ k, (p.finished k ++ p.pending k).Sublist (p.accepted k)

/-- **Operations of lone workers keep the order.** -/
theorem Pipe.Ordered.apply (h : p.Ordered) (hg : p.Alone op) (ha : p.apply op = some q) :
    q.Ordered := by
  cases op with
  | stay =>
    obtain rfl := Option.some.inj ha
    exact h
  | accept l vs =>
    obtain rfl := Option.some.inj ha
    refine ⟨h.one, fun {i k ws} hi => ?_, fun k => ?_⟩
    · by_cases hk : k = l
      · subst hk
        simpa [List.append_assoc] using (h.held hi).append_right vs
      · simpa [hk] using h.held hi
    · by_cases hk : k = l
      · subst hk
        simpa [List.append_assoc] using (h.free k).append_right vs
      · simpa [hk] using h.free k
  | drop l =>
    obtain rfl := Option.some.inj ha
    refine ⟨h.one, fun {i k ws} hi => ?_, fun k => ?_⟩
    · by_cases hk : k = l
      · subst hk
        simpa using (List.sublist_append_left _ _).trans (h.held hi)
      · simpa [hk] using h.held hi
    · by_cases hk : k = l
      · subst hk
        simpa using (List.sublist_append_left _ _).trans (h.free k)
      · simpa [hk] using h.free k
  | take i l =>
    simp only [Pipe.apply] at ha
    split at ha
    · exact absurd ha (by simp)
    · obtain rfl := Option.some.inj ha
      -- the other batches are of other keys
      have hother : ∀ {j k ws}, j ≠ i → p.taken j = some (k, ws) → k ≠ l := by
        rintro j k ws - hj rfl
        exact hg j ws hj
      refine ⟨fun {j j' k ws ws'} hj hj' => ?_, fun {j k ws} hj => ?_, fun k => ?_⟩
      · by_cases hji : j = i <;> by_cases hji' : j' = i
        · rw [hji, hji']
        · simp only [hji, Function.update_self, Function.update_of_ne hji'] at hj hj'
          obtain ⟨rfl, -⟩ := Prod.mk.inj (Option.some.inj hj)
          exact absurd rfl (hother hji' hj')
        · simp only [hji', Function.update_self, Function.update_of_ne hji] at hj hj'
          obtain ⟨rfl, -⟩ := Prod.mk.inj (Option.some.inj hj')
          exact absurd rfl (hother hji hj)
        · simp only [Function.update_of_ne hji, Function.update_of_ne hji'] at hj hj'
          exact h.one hj hj'
      · by_cases hji : j = i
        · simp only [hji, Function.update_self] at hj
          obtain ⟨rfl, rfl⟩ := Prod.mk.inj (Option.some.inj hj)
          simpa using h.free l
        · simp only [Function.update_of_ne hji] at hj
          simpa [hother hji hj] using h.held hj
      · by_cases hk : k = l
        · subst hk
          simpa using (List.sublist_append_left _ _).trans (h.free k)
        · simpa [hk] using h.free k
  | finish i =>
    simp only [Pipe.apply] at ha
    split at ha
    · exact absurd ha (by simp)
    · rename_i l ws hi
      obtain rfl := Option.some.inj ha
      have hother : ∀ {j k us}, j ≠ i → p.taken j = some (k, us) → k ≠ l := by
        rintro j k us hji hj rfl
        exact hji (h.one hj hi)
      refine ⟨fun {j j' k us us'} hj hj' => ?_, fun {j k us} hj => ?_, fun k => ?_⟩
      · by_cases hji : j = i
        · simp [hji] at hj
        · by_cases hji' : j' = i
          · simp [hji'] at hj'
          · simp only [Function.update_of_ne hji, Function.update_of_ne hji'] at hj hj'
            exact h.one hj hj'
      · by_cases hji : j = i
        · simp [hji] at hj
        · simp only [Function.update_of_ne hji] at hj
          simpa [hother hji hj] using h.held hj
      · by_cases hk : k = l
        · subst hk
          simpa using h.held hi
        · simpa [hk] using h.free k

/-- Where nothing was dropped, what is finished, held and waiting is all that was accepted. -/
theorem Pipe.Ordered.held_eq (h : p.Ordered) (hacc : p.Accounted) {i : ι} {k : κ} {vs : List ν}
    (hi : p.taken i = some (k, vs)) (hdrop : p.dropped k = []) (hnodup : (p.accepted k).Nodup) :
    p.finished k ++ vs ++ p.pending k = p.accepted k := by
  refine (h.held hi).eq_of_length_le (hnodup.subperm fun v hv => ?_).length_le
  rw [List.mem_append, List.mem_append]
  rcases hacc k v hv with hv | hv | hv | ⟨j, ws, hj, hv⟩
  · exact .inl (.inl hv)
  · rw [hdrop] at hv
    cases hv
  · exact .inr hv
  · obtain rfl := h.one hi hj
    obtain ⟨-, rfl⟩ := Prod.mk.inj (Option.some.inj (hi.symm.trans hj))
    exact .inl (.inr hv)

/-- The same for a key that no worker holds a batch of. -/
theorem Pipe.Ordered.free_eq (h : p.Ordered) (hacc : p.Accounted) {k : κ}
    (hfree : ∀ i vs, p.taken i ≠ some (k, vs)) (hdrop : p.dropped k = []) (hnodup : (p.accepted k).Nodup) :
    p.finished k ++ p.pending k = p.accepted k := by
  refine (h.free k).eq_of_length_le (hnodup.subperm fun v hv => ?_).length_le
  rw [List.mem_append]
  rcases hacc k v hv with hv | hv | hv | ⟨i, vs, hi, -⟩
  · exact .inl hv
  · rw [hdrop] at hv
    cases hv
  · exact .inr hv
  · exact absurd hi (hfree i vs)

end Pipeline
