import Mathlib.Data.List.Induction
import Mathlib.Data.List.Nodup
import Mathlib.Logic.Function.Basic

/-!
# Doubly linked lists

Records in memory that carry a `prev` and a `next` link, with a pointer to the first and to the
last record of the list. A write through a pointer to no record is `none`.

* `Holds m q` — the records of `q` are linked in this order, and no other record has a link;
* `unlink_holds`, `pushFront_holds`, `pushBack_holds` — the three operations never write through
  a dangling pointer, and do to the links what they are for;
* `Holds.follows_next`, `Holds.follows_prev` — walking along the links visits `q`, once from each
  end.
-/

namespace Dll

universe u v

/-- A record and its links. -/
structure Node (A : Type u) (D : Type v) : Type (max u v) where
  /-- the rest of the record -/
  data : D
  /-- the record in front of it -/
  prev : Option A
  /-- the record behind it -/
  next : Option A
  deriving DecidableEq

/-- The memory and the two ends of the list. -/
structure Mem (A : Type u) (D : Type v) : Type (max u v) where
  /-- the records -/
  node : A → Option (Node A D)
  /-- the first record of the list -/
  head : Option A
  /-- the last one -/
  tail : Option A

variable {A : Type u} {D : Type v} [DecidableEq A]

/-! ## Operations -/

/-- Write to the record at `a`. -/
def Mem.modify (m : Mem A D) (a : A) (f : Node A D → Node A D) : Option (Mem A D) :=
  (m.node a).map fun n => { m with node := Function.update m.node a (some (f n)) }

/-- Let `x` come behind `p`, or first. -/
def Mem.setNext (m : Mem A D) (p x : Option A) : Option (Mem A D) :=
  match p with
  | none => some { m with head := x }
  | some a => m.modify a fun n => { n with next := x }

/-- Let `x` come in front of `p`, or last. -/
def Mem.setPrev (m : Mem A D) (p x : Option A) : Option (Mem A D) :=
  match p with
  | none => some { m with tail := x }
  | some a => m.modify a fun n => { n with prev := x }

/-- Take `a` out of the list. -/
def Mem.unlink (m : Mem A D) (a : A) : Option (Mem A D) :=
  (m.node a).bind fun n => (m.setNext n.prev n.next).bind fun m =>
    (m.node a).bind fun n => (m.setPrev n.next n.prev).bind fun m =>
      m.modify a fun n => { n with prev := none, next := none }

/-- Let `x` come in front of the first record, if there is one. -/
def Mem.setHeadPrev (m : Mem A D) (x : Option A) : Option (Mem A D) :=
  match m.head with
  | none => some m
  | some h => m.modify h fun n => { n with prev := x }

/-- Put `a` in front of the list. -/
def Mem.pushFront (m : Mem A D) (a : A) : Option (Mem A D) :=
  (m.modify a fun n => { n with prev := none, next := m.head }).bind fun m =>
    (m.setHeadPrev (some a)).map fun m =>
      { m with head := some a, tail := m.tail.or (some a) }

/-- Put `a` at the end of the list. -/
def Mem.pushBack (m : Mem A D) (a : A) : Option (Mem A D) :=
  (m.modify a fun n => { n with prev := m.tail }).bind fun m =>
    (m.setNext m.tail (some a)).map fun m => { m with tail := some a }

/-- Write to the rest of the record at `a`. -/
def Mem.modifyData (m : Mem A D) (a : A) (f : D → D) : Option (Mem A D) :=
  m.modify a fun n => { n with data := f n.data }

/-! ## Segments -/

/-- The records of a list are linked in its order, between `pre` and `post`. -/
def Seg (node : A → Option (Node A D)) : Option A → List A → Option A → Prop
  | _, [], _ => True
  | pre, a :: as, post =>
    ∃ n, node a = some n ∧ n.prev = pre ∧ n.next = as.head?.or post ∧ Seg node (some a) as post

variable {node node' : A → Option (Node A D)} {pre post : Option A} {m m' : Mem A D} {a : A}
  {xs ys q : List A}

omit [DecidableEq A] in
theorem seg_append : Seg node pre (xs ++ ys) post ↔
    Seg node pre xs (ys.head?.or post) ∧ Seg node (xs.getLast?.or pre) ys post := by
  induction xs generalizing pre with
  | nil => simp [Seg]
  | cons x xs ih =>
    have hlast : (x :: xs).getLast?.or pre = xs.getLast?.or (some x) := by
      rw [List.getLast?_cons]
      cases xs.getLast? <;> rfl
    simp only [List.cons_append, Seg, ih, List.head?_append, Option.or_assoc, hlast]
    constructor
    · rintro ⟨n, hn, hp, hnx, h₁, h₂⟩
      exact ⟨⟨n, hn, hp, hnx, h₁⟩, h₂⟩
    · rintro ⟨⟨n, hn, hp, hnx, h₁⟩, h₂⟩
      exact ⟨n, hn, hp, hnx, h₁, h₂⟩

omit [DecidableEq A] in
/-- **Frame**: what happens to other records does not matter. -/
theorem Seg.congr (h : Seg node pre q post) (heq : ∀ a ∈ q, node' a = node a) :
    Seg node' pre q post := by
  induction q generalizing pre with
  | nil => trivial
  | cons a as ih =>
    obtain ⟨n, hn, hp, hnx, hrest⟩ := h
    refine ⟨n, (heq a List.mem_cons_self).trans hn, hp, hnx, ih hrest fun b hb => ?_⟩
    exact heq b (List.mem_cons_of_mem a hb)

/-- No record has lost its data. -/
def SameData (m m' : Mem A D) : Prop :=
  ∀ a, (m'.node a).map Node.data = (m.node a).map Node.data

omit [DecidableEq A] in
theorem SameData.trans {m'' : Mem A D} (h : SameData m m') (h' : SameData m' m'') :
    SameData m m'' := fun a => (h' a).trans (h a)

/-- A write to one record. -/
theorem modify_eq_some {f : Node A D → Node A D} (h : m.modify a f = some m') :
    ∃ n, m.node a = some n ∧ m'.node a = some (f n) ∧ (∀ b, b ≠ a → m'.node b = m.node b) ∧
      m'.head = m.head ∧ m'.tail = m.tail := by
  obtain ⟨n, hn, rfl⟩ := Option.map_eq_some_iff.mp h
  exact ⟨n, hn, by simp, fun b hb => by simp [hb], rfl, rfl⟩

theorem modify_ok {n : Node A D} (h : m.node a = some n) (f : Node A D → Node A D) :
    ∃ m', m.modify a f = some m' ∧ m'.node a = some (f n) ∧ (∀ b, b ≠ a → m'.node b = m.node b) ∧
      m'.head = m.head ∧ m'.tail = m.tail := by
  refine ⟨{ m with node := Function.update m.node a (some (f n)) }, by simp [Mem.modify, h],
    by simp, fun b hb => by simp [hb], rfl, rfl⟩

theorem modify_sameData {f : Node A D → Node A D} (h : m.modify a f = some m')
    (hf : ∀ n, (f n).data = n.data) : SameData m m' := by
  obtain ⟨n, hn, hn', hother, -, -⟩ := modify_eq_some h
  intro b
  by_cases hb : b = a
  · subst hb
    simp [hn, hn', hf]
  · rw [hother b hb]

/-- **The end of a segment** gets another successor. -/
theorem setNext_seg (hseg : Seg m.node none xs post) (hnd : xs.Nodup)
    (hhead : m.head = xs.head?.or post) (x : Option A) :
    ∃ m', m.setNext xs.getLast? x = some m' ∧ Seg m'.node none xs x ∧ m'.head = xs.head?.or x ∧
      m'.tail = m.tail ∧ (∀ b, b ∉ xs → m'.node b = m.node b) ∧ SameData m m' := by
  rcases List.eq_nil_or_concat xs with rfl | ⟨xs, a, rfl⟩
  · exact ⟨{ m with head := x }, rfl, trivial, rfl, rfl, fun _ _ => rfl, fun _ => rfl⟩
  · rw [List.concat_eq_append] at *
    obtain ⟨hxs, n, hn, hp, -, -⟩ := seg_append.mp hseg
    have ha : a ∉ xs := fun h => (List.nodup_append.mp hnd).2.2 a h a (by simp) rfl
    obtain ⟨m', hmod, hn', hother, hhead', htail'⟩ := modify_ok hn fun n => { n with next := x }
    have hlast : (xs ++ [a]).getLast? = some a := by simp
    rw [hlast]
    refine ⟨m', hmod, seg_append.mpr ⟨?_, ?_⟩, ?_, htail', ?_, modify_sameData hmod fun _ => rfl⟩
    · exact hxs.congr fun b hb => hother b fun h => ha (h ▸ hb)
    · exact ⟨{ n with next := x }, hn', hp, rfl, trivial⟩
    · rw [hhead', hhead, List.head?_append, Option.or_assoc, Option.or_assoc]
      rfl
    · exact fun b hb => hother b fun h => hb (by simp [h])

/-- **The start of a segment** gets another predecessor. -/
theorem setPrev_seg (hseg : Seg m.node pre ys none) (hnd : ys.Nodup)
    (htail : m.tail = ys.getLast?.or pre) (x : Option A) :
    ∃ m', m.setPrev ys.head? x = some m' ∧ Seg m'.node x ys none ∧ m'.tail = ys.getLast?.or x ∧
      m'.head = m.head ∧ (∀ b, b ∉ ys → m'.node b = m.node b) ∧ SameData m m' := by
  cases ys with
  | nil => exact ⟨{ m with tail := x }, rfl, trivial, rfl, rfl, fun _ _ => rfl, fun _ => rfl⟩
  | cons a ys =>
    obtain ⟨n, hn, -, hnx, hrest⟩ := hseg
    obtain ⟨m', hmod, hn', hother, hhead', htail'⟩ := modify_ok hn fun n => { n with prev := x }
    refine ⟨m', hmod, ⟨{ n with prev := x }, hn', rfl, hnx, ?_⟩, ?_, hhead', ?_,
      modify_sameData hmod fun _ => rfl⟩
    · refine hrest.congr fun b hb => hother b ?_
      rintro rfl
      exact (List.nodup_cons.mp hnd).1 hb
    · rw [htail', htail, List.getLast?_cons]
      rfl
    · exact fun b hb => hother b fun h => hb (by simp [h])

/-! ## Lists -/

/-- **The records of `q` are linked in this order**, and no other record has a link. -/
structure Holds (m : Mem A D) (q : List A) : Prop where
  nodup : q.Nodup
  head : m.head = q.head?
  tail : m.tail = q.getLast?
  seg : Seg m.node none q none
  off : ∀ a n, m.node a = some n → a ∉ q → n.prev = none ∧ n.next = none

theorem unlink_holds (h : Holds m (xs ++ a :: ys)) :
    ∃ m', m.unlink a = some m' ∧ Holds m' (xs ++ ys) ∧ SameData m m' := by
  have hnd := h.nodup
  obtain ⟨hndx, hndy, hdis⟩ := List.nodup_append.mp hnd
  obtain ⟨hay, hndy⟩ := List.nodup_cons.mp hndy
  have hax : a ∉ xs := fun hx => hdis a hx a List.mem_cons_self rfl
  have hxy : ∀ b ∈ xs, b ∉ ys := fun b hb hy => hdis b hb b (List.mem_cons_of_mem a hy) rfl
  obtain ⟨hx, n, hn, hnp, hnn, hy⟩ := seg_append.mp h.seg
  simp only [List.head?_cons, Option.or_none] at hx hnp hnn
  -- the record in front of `a`, or the head
  obtain ⟨m₁, hm₁, hx₁, hhead₁, htail₁, hframe₁, hdata₁⟩ := setNext_seg hx hndx
    (by rw [h.head, List.head?_append]; rfl) ys.head?
  have hn₁ : m₁.node a = some n := (hframe₁ a hax).trans hn
  have hy₁ : Seg m₁.node (some a) ys none := hy.congr fun b hb => hframe₁ b fun hbx => hxy b hbx hb
  -- the record behind `a`, or the tail
  have htail : m₁.tail = ys.getLast?.or (some a) := by
    rw [htail₁, h.tail, List.getLast?_append, List.getLast?_cons]
    cases ys.getLast? <;> rfl
  obtain ⟨m₂, hm₂, hy₂, htail₂, hhead₂, hframe₂, hdata₂⟩ := setPrev_seg hy₁ hndy htail xs.getLast?
  have hn₂ : m₂.node a = some n := (hframe₂ a hay).trans hn₁
  obtain ⟨m₃, hm₃, hn₃, hother, hhead₃, htail₃⟩ :=
    modify_ok hn₂ fun n => { n with prev := none, next := none }
  refine ⟨m₃, ?_, ⟨?_, ?_, ?_, ?_, ?_⟩,
    (hdata₁.trans hdata₂).trans (modify_sameData hm₃ fun _ => rfl)⟩
  · simp only [Mem.unlink, hn, hnp, hnn, hm₁, hn₁, hm₂, Option.bind_some]
    exact hm₃
  · exact List.nodup_append.mpr ⟨hndx, hndy, fun b hb c hc hbc => hxy b hb (hbc ▸ hc)⟩
  · rw [hhead₃, hhead₂, hhead₁, List.head?_append]
  · rw [htail₃, htail₂, List.getLast?_append]
  · refine seg_append.mpr ⟨?_, ?_⟩
    · rw [Option.or_none]
      refine hx₁.congr fun b hb => ?_
      rw [hother b fun h => hax (h ▸ hb), hframe₂ b (hxy b hb)]
    · rw [Option.or_none]
      exact hy₂.congr fun b hb => hother b fun h => hay (h ▸ hb)
  · intro b n' hb hbq
    by_cases hba : b = a
    · subst hba
      obtain rfl := Option.some.inj (hn₃.symm.trans hb)
      exact ⟨rfl, rfl⟩
    · rw [List.mem_append, not_or] at hbq
      rw [hother b hba, hframe₂ b hbq.2, hframe₁ b hbq.1] at hb
      exact h.off b n' hb (by simp [hba, hbq.1, hbq.2])

/-- **A record without links** is put in front of the list. -/
theorem pushFront_holds {n : Node A D} (h : Holds m q) (hn : m.node a = some n) (ha : a ∉ q) :
    ∃ m', m.pushFront a = some m' ∧ Holds m' (a :: q) ∧ SameData m m' := by
  obtain ⟨m₁, hm₁, hn₁, hother₁, hhead₁, htail₁⟩ :=
    modify_ok hn fun n => { n with prev := none, next := m.head }
  have hq₁ : Seg m₁.node none q none := h.seg.congr fun b hb => hother₁ b fun h => ha (h ▸ hb)
  obtain ⟨m₂, hm₂, hq₂, htail₂, hhead₂, hframe₂, hdata₂⟩ :=
    setPrev_seg hq₁ h.nodup (by rw [htail₁, h.tail, Option.or_none]) (some a)
  -- in the code, the tail is looked at only after the head has been set
  have hset : ∃ m₃, m₁.setHeadPrev (some a) = some m₃ ∧ m₃.node = m₂.node ∧
      m₃.tail.or (some a) = m₂.tail := by
    have hhead : m₁.head = q.head? := hhead₁.trans h.head
    cases q with
    | nil =>
      obtain rfl := Option.some.inj hm₂
      refine ⟨m₁, by simp [Mem.setHeadPrev, hhead], rfl, ?_⟩
      rw [htail₁, h.tail]
      rfl
    | cons b q =>
      refine ⟨m₂, ?_, rfl, ?_⟩
      · simp only [Mem.setHeadPrev, hhead]
        exact hm₂
      · rw [htail₂, List.getLast?_cons]
        rfl
  obtain ⟨m₃, hm₃, hnode₃, htail₃⟩ := hset
  refine ⟨{ m₃ with head := some a, tail := m₃.tail.or (some a) }, ?_, ⟨?_, rfl, ?_, ?_, ?_⟩, ?_⟩
  · simp only [Mem.pushFront, hm₁, hm₃, Option.bind_some, Option.map_some]
  · exact List.nodup_cons.mpr ⟨ha, h.nodup⟩
  · show m₃.tail.or (some a) = _
    rw [htail₃, htail₂, List.getLast?_cons]
    cases q.getLast? <;> rfl
  · show Seg m₃.node none (a :: q) none
    rw [hnode₃]
    exact ⟨_, (hframe₂ a ha).trans hn₁, rfl, by simp [h.head], hq₂⟩
  · intro b n' hb hbq
    obtain ⟨hba, hbq⟩ := not_or.mp (mt List.mem_cons.mpr hbq)
    have hb' : m.node b = some n' := by
      rw [← hother₁ b hba, ← hframe₂ b hbq, ← hnode₃]
      exact hb
    exact h.off b n' hb' hbq
  · refine (modify_sameData hm₁ fun _ => rfl).trans (hdata₂.trans fun b => ?_)
    show (m₃.node b).map _ = _
    rw [hnode₃]

/-- **A record without links** is put at the end of the list. -/
theorem pushBack_holds {n : Node A D} (h : Holds m q) (hn : m.node a = some n) (ha : a ∉ q) :
    ∃ m', m.pushBack a = some m' ∧ Holds m' (q ++ [a]) ∧ SameData m m' := by
  obtain ⟨m₁, hm₁, hn₁, hother₁, hhead₁, htail₁⟩ := modify_ok hn fun n => { n with prev := m.tail }
  have hq₁ : Seg m₁.node none q none := h.seg.congr fun b hb => hother₁ b fun h => ha (h ▸ hb)
  obtain ⟨m₂, hm₂, hq₂, hhead₂, htail₂, hframe₂, hdata₂⟩ :=
    setNext_seg hq₁ h.nodup (by rw [hhead₁, h.head, Option.or_none]) (some a)
  have hn₂ := (hframe₂ a ha).trans hn₁
  refine ⟨{ m₂ with tail := some a }, ?_, ⟨?_, ?_, ?_, ?_, ?_⟩, ?_⟩
  · have htail : m₁.tail = q.getLast? := htail₁.trans h.tail
    rw [Mem.pushBack, hm₁, Option.bind_some, htail, hm₂]
    rfl
  · exact List.nodup_append.mpr ⟨h.nodup, by simp, fun b hb c hc hbc => by
      obtain rfl := List.mem_singleton.mp hc
      exact ha (hbc ▸ hb)⟩
  · show m₂.head = _
    rw [hhead₂, List.head?_append]
    rfl
  · simp
  · refine seg_append.mpr ⟨hq₂, _, hn₂, ?_, (h.off a n hn ha).2, trivial⟩
    simp [h.tail]
  · intro b n' hb hbq
    rw [List.mem_append, List.mem_singleton, not_or] at hbq
    have hb' : m.node b = some n' := by
      rw [← hother₁ b hbq.2, ← hframe₂ b hbq.1]
      exact hb
    exact h.off b n' hb' hbq.1
  · exact (modify_sameData hm₁ fun _ => rfl).trans hdata₂

/-- **Writing to the rest of a record** leaves the list alone. -/
theorem Holds.modifyData {f : D → D} (h : Holds m q) (hm : m.modifyData a f = some m') :
    Holds m' q := by
  obtain ⟨n, hn, hn', hother, hhead, htail⟩ := modify_eq_some hm
  have hlinks : ∀ b n', m'.node b = some n' →
      ∃ n, m.node b = some n ∧ n.prev = n'.prev ∧ n.next = n'.next := by
    intro b n' hb
    by_cases hba : b = a
    · subst hba
      obtain rfl := Option.some.inj (hn'.symm.trans hb)
      exact ⟨n, hn, rfl, rfl⟩
    · exact ⟨n', (hother b hba).symm.trans hb, rfl, rfl⟩
  refine ⟨h.nodup, hhead.trans h.head, htail.trans h.tail, ?_, fun b n' hb hbq => ?_⟩
  · have hseg : ∀ (as : List A) pre, Seg m.node pre as none → Seg m'.node pre as none := by
      intro as
      induction as with
      | nil => exact fun _ _ => trivial
      | cons b as ih =>
        rintro pre ⟨k, hk, hp, hnx, hrest⟩
        by_cases hba : b = a
        · subst hba
          obtain rfl := Option.some.inj (hn.symm.trans hk)
          exact ⟨_, hn', hp, hnx, ih _ hrest⟩
        · exact ⟨k, (hother b hba).trans hk, hp, hnx, ih _ hrest⟩
    exact hseg q none h.seg
  · obtain ⟨k, hk, hp, hnx⟩ := hlinks b n' hb
    obtain ⟨hp', hnx'⟩ := h.off b k hk hbq
    exact ⟨hp.symm.trans hp', hnx.symm.trans hnx'⟩

/-- A new record, or none, where no listed record lies. -/
theorem Holds.store (h : Holds m q) (ha : a ∉ q) (d : Option D) :
    Holds { m with node := Function.update m.node a (d.map fun d => ⟨d, none, none⟩) } q := by
  refine ⟨h.nodup, h.head, h.tail, ?_, fun b n hb hbq => ?_⟩
  · refine h.seg.congr fun b hb => Function.update_of_ne ?_ _ _
    rintro rfl
    exact ha hb
  · by_cases hba : b = a
    · subst hba
      simp only [Function.update_self] at hb
      obtain ⟨-, -, rfl⟩ := Option.map_eq_some_iff.mp hb
      exact ⟨rfl, rfl⟩
    · simp only [Function.update_of_ne hba] at hb
      exact h.off b n hb hbq

omit [DecidableEq A] in
/-- A listed record is there. -/
theorem Holds.node_of_mem (h : Holds m q) (ha : a ∈ q) : ∃ n, m.node a = some n := by
  obtain ⟨xs, ys, rfl⟩ := List.append_of_mem ha
  obtain ⟨-, n, hn, -⟩ := seg_append.mp h.seg
  exact ⟨n, hn⟩

/-! ## Walks -/

/-- Starting at `p` and following `f`, one comes through a list and to its end. -/
def Follows (f : A → Option A) : Option A → List A → Prop
  | p, [] => p = none
  | p, a :: as => p = some a ∧ Follows f (f a) as

/-- The link to the record behind `a`. -/
def Mem.next (m : Mem A D) (a : A) : Option A := (m.node a).bind Node.next

/-- The link to the record in front of `a`. -/
def Mem.prev (m : Mem A D) (a : A) : Option A := (m.node a).bind Node.prev

omit [DecidableEq A] in
theorem Seg.follows_next (h : Seg m.node pre q none) : Follows m.next q.head? q := by
  induction q generalizing pre with
  | nil => rfl
  | cons a q ih =>
    obtain ⟨n, hn, -, hnx, hrest⟩ := h
    refine ⟨rfl, ?_⟩
    have hnext : m.next a = q.head? := by simp [Mem.next, hn, hnx]
    rw [hnext]
    exact ih hrest

omit [DecidableEq A] in
theorem Seg.follows_prev (h : Seg m.node none q post) : Follows m.prev q.getLast? q.reverse := by
  induction q using List.reverseRecOn generalizing post with
  | nil => rfl
  | append_singleton q a ih =>
    obtain ⟨hq, n, hn, hp, -, -⟩ := seg_append.mp h
    rw [List.reverse_append, List.getLast?_append]
    refine ⟨rfl, ?_⟩
    have hprev : m.prev a = q.getLast? := by simpa [Mem.prev, hn] using hp
    rw [hprev]
    exact ih hq

omit [DecidableEq A] in
theorem Holds.follows_next (h : Holds m q) : Follows m.next m.head q :=
  h.head ▸ h.seg.follows_next

omit [DecidableEq A] in
theorem Holds.follows_prev (h : Holds m q) : Follows m.prev m.tail q.reverse :=
  h.tail ▸ h.seg.follows_prev

/-! ## Data -/

/-- Every record has data that meets `P`. -/
def Mem.AllData (P : D → Prop) (m : Mem A D) : Prop := ∀ a n, m.node a = some n → P n.data

variable {P : D → Prop}

theorem Mem.AllData.modify {f : Node A D → Node A D} (hm : m.AllData P)
    (h : m.modify a f = some m') (hf : ∀ n, P n.data → P (f n).data) : m'.AllData P := by
  obtain ⟨n, hn, hn', hother, -, -⟩ := modify_eq_some h
  intro b k hk
  by_cases hb : b = a
  · subst hb
    obtain rfl := Option.some.inj (hn'.symm.trans hk)
    exact hf n (hm b n hn)
  · rw [hother b hb] at hk
    exact hm b k hk

theorem Mem.AllData.setNext {p x : Option A} (hm : m.AllData P) (h : m.setNext p x = some m') :
    m'.AllData P := by
  cases p with
  | none =>
    obtain rfl := Option.some.inj h
    exact hm
  | some b => exact Mem.AllData.modify (a := b) hm h fun _ hn => hn

theorem Mem.AllData.setPrev {p x : Option A} (hm : m.AllData P) (h : m.setPrev p x = some m') :
    m'.AllData P := by
  cases p with
  | none =>
    obtain rfl := Option.some.inj h
    exact hm
  | some b => exact Mem.AllData.modify (a := b) hm h fun _ hn => hn

theorem Mem.AllData.unlink (hm : m.AllData P) (h : m.unlink a = some m') : m'.AllData P := by
  obtain ⟨n, -, h⟩ := Option.bind_eq_some_iff.mp h
  obtain ⟨m₁, h₁, h⟩ := Option.bind_eq_some_iff.mp h
  obtain ⟨n, -, h⟩ := Option.bind_eq_some_iff.mp h
  obtain ⟨m₂, h₂, h⟩ := Option.bind_eq_some_iff.mp h
  exact ((hm.setNext h₁).setPrev h₂).modify h fun _ hn => hn

theorem Mem.AllData.pushFront (hm : m.AllData P) (h : m.pushFront a = some m') : m'.AllData P := by
  obtain ⟨m₁, h₁, h⟩ := Option.bind_eq_some_iff.mp h
  obtain ⟨m₂, h₂, rfl⟩ := Option.map_eq_some_iff.mp h
  have hm₁ := hm.modify h₁ fun _ hn => hn
  have hm₂ : m₂.AllData P := by
    rw [Mem.setHeadPrev] at h₂
    split at h₂
    · obtain rfl := Option.some.inj h₂
      exact hm₁
    · exact hm₁.modify h₂ fun _ hn => hn
  exact hm₂

theorem Mem.AllData.pushBack (hm : m.AllData P) (h : m.pushBack a = some m') : m'.AllData P := by
  obtain ⟨m₁, h₁, h⟩ := Option.bind_eq_some_iff.mp h
  obtain ⟨m₂, h₂, rfl⟩ := Option.map_eq_some_iff.mp h
  have hm₂ : m₂.AllData P := (hm.modify h₁ fun _ hn => hn).setNext h₂
  exact hm₂

theorem Mem.AllData.modifyData {f : D → D} (hm : m.AllData P) (h : m.modifyData a f = some m')
    (hf : ∀ x, P x → P (f x)) : m'.AllData P :=
  hm.modify h fun n hn => hf n.data hn

end Dll
