import Mathlib.Order.Nat
import Rrdtool.Lib.Parse

/-!
# What a parser takes

A parser whose input begins with `l` takes `l` away, whatever comes behind it, and hands back a value. That is how what
a printer has written is read again, part by part.

* `Takes.bind`, `Takes.map`, `takes_timesFrom` — one after the other;
* `Loops.next`, `Loops.passes`, `Loops.done` — loops, pass by pass;
* `map_loop` — a loop, when only a part of its value is looked at.
-/

universe u v w x

namespace Parse

variable {σ : Type u} {α : Type v} {β : Type w} {γ : Type v} {ι : Type x}

/-- As often as `n`, with the number of the pass and a value. -/
def timesFrom : ℕ → (ℕ → α → Parser σ α) → α → Parser σ α
  | 0, _, a => ret a
  | n + 1, f, a => bind (timesFrom n f a) (f n)

/-! ## Values -/

theorem bind_assoc {δ : Type*} (y : Parser σ α) (f : α → Parser σ β) (g : β → Parser σ δ) :
    bind (bind y f) g = bind y fun a => bind (f a) g := by
  funext s
  rw [bind, bind, bind]
  cases y s with
  | mk o t =>
    cases o with
    | none => rfl
    | some a => rfl

theorem map_bind {δ : Type*} (y : Parser σ α) (f : α → Parser σ β) (g : β → δ) :
    map (bind y f) g = bind y fun a => map (f a) g := bind_assoc y f _

theorem bind_map {δ : Type*} (y : Parser σ α) (f : α → β) (g : β → Parser σ δ) :
    bind (map y f) g = bind y fun a => g (f a) := bind_assoc y _ g

theorem map_map {δ : Type*} (y : Parser σ α) (f : α → β) (g : β → δ) :
    map (map y f) g = map y fun a => g (f a) := bind_map y f _

@[simp] theorem map_id (y : Parser σ α) : (map y fun a => a) = y := by
  funext s
  rw [map, bind]
  cases y s with
  | mk o t =>
    cases o with
    | none => rfl
    | some a => rfl

@[simp] theorem map_unit (y : Parser σ Unit) (f : Unit → Unit) : map y f = y := map_id y

theorem map_ite {p : Prop} [Decidable p] {y z : Parser σ α} {f : α → β} :
    map (if p then y else z) f = if p then map y f else map z f := apply_ite (map · f) p y z

/-- A function on the value of a pass. -/
def Pass.map {δ : Type*} (f : α → δ) : Pass α → Pass δ
  | .next a => .next (f a)
  | .done a => .done (f a)

/-- **A loop of which only a part of the value is looked at** is a loop over that part. -/
theorem map_loop {δ : Type*} {item : Parser σ β} {onEnd : α → Parser σ α} {body : β → α → Parser σ (Pass α)}
    {onEnd' : δ → Parser σ δ} {body' : β → δ → Parser σ (Pass δ)} (f : α → δ)
    (hend : ∀ a, map (onEnd a) f = onEnd' (f a)) (hbody : ∀ b a, map (body b a) (Pass.map f) = body' b (f a))
    (fuel : ℕ) (a : α) : map (loop item onEnd body fuel a) f = loop item onEnd' body' fuel (f a) := by
  have hlast (a : α) (s : σ) : map (loop item onEnd body 0 a) f s = loop item onEnd' body' 0 (f a) s := by
    rw [map, bind, loop, loop]
    cases item s with
    | mk o t =>
      cases o with
      | none => exact congrFun (hend a) t
      | some b => rfl
  induction fuel generalizing a with
  | zero => exact funext (hlast a)
  | succ fuel ih =>
    funext s
    rw [map, bind, loop, loop]
    cases item s with
    | mk o t =>
      cases o with
      | none => exact congrFun (hend a) t
      | some b =>
        have hpass := congrFun (hbody b a) t
        rw [map, bind] at hpass
        dsimp only
        rw [← hpass]
        cases body b a t with
        | mk p r =>
          cases p with
          | none => rfl
          | some p =>
            cases p with
            | next a₁ => exact congrFun (ih a₁) r
            | done a₁ => rfl

/-! ## One after the other -/

/-- How the state of a parser is seen. -/
structure View (σ : Type u) (ι : Type x) : Type (max u x) where
  /-- the input that is left -/
  left : σ → List ι
  /-- nothing has gone wrong -/
  good : σ → Prop
  /-- how much there is to be read at most -/
  size : σ → ℕ

variable {V : View σ ι} {k l m : List ι} {a a' : α} {b : β} {s : σ}

/-- What is known behind a parser that has taken its part of an input and handed back a value. -/
def Taken (V : View σ ι) (s : σ) (k : List ι) (a : α) (r : Option α × σ) : Prop :=
  ∃ t, r = (some a, t) ∧ V.left t = k ∧ V.good t ∧ V.size t ≤ V.size s

/-- **The parser takes `l`**, and hands back `a`. -/
def Takes (V : View σ ι) (y : Parser σ α) (l : List ι) (a : α) : Prop :=
  ∀ s k, V.good s → V.left s = l ++ k → Taken V s k a (y s)

/-- The parser takes one item, and there is less to be read. -/
def TakesItem (V : View σ ι) (y : Parser σ β) (i : ι) (b : β) : Prop :=
  ∀ s k, V.good s → V.left s = i :: k →
    ∃ t, y s = (some b, t) ∧ V.left t = k ∧ V.good t ∧ V.size t < V.size s

theorem TakesItem.takes {y : Parser σ β} {i : ι} (h : TakesItem V y i b) : Takes V y [i] b := by
  intro s k hgood hleft
  obtain ⟨t, ht, hk, hgood', hlt⟩ := h s k hgood hleft
  exact ⟨t, ht, hk, hgood', hlt.le⟩

theorem takes_ret (a : α) : Takes V (ret a) [] a := fun s _ hgood hleft => ⟨s, rfl, hleft, hgood, le_rfl⟩

theorem Takes.bind {y : Parser σ α} {f : α → Parser σ β} (hy : Takes V y l a) (hf : Takes V (f a) m b) :
    Takes V (Parse.bind y f) (l ++ m) b := by
  intro s k hgood hleft
  rw [List.append_assoc] at hleft
  obtain ⟨t, ht, hk, hgood₁, hle₁⟩ := hy s (m ++ k) hgood hleft
  obtain ⟨r, hr, hk', hgood₂, hle₂⟩ := hf t k hgood₁ hk
  refine ⟨r, ?_, hk', hgood₂, hle₂.trans hle₁⟩
  rw [Parse.bind, ht]
  exact hr

theorem Takes.map {y : Parser σ α} (hy : Takes V y l a) (f : α → β) : Takes V (Parse.map y f) l (f a) := by
  have h := hy.bind (f := fun a => ret (f a)) (takes_ret (f a))
  rwa [List.append_nil] at h

theorem Takes.orElse {y : Parser σ α} (hy : Takes V y l a) : Takes V (orElse y a') l a := by
  intro s k hgood hleft
  obtain ⟨t, ht, hk⟩ := hy s k hgood hleft
  refine ⟨t, ?_, hk⟩
  rw [Parse.orElse, ht]

/-- The passes take one part each. -/
theorem takes_timesFrom {n : ℕ} {f : ℕ → α → Parser σ α} (A : ℕ → α) (L : ℕ → List ι)
    (h : ∀ i < n, Takes V (f i (A i)) (L i) (A (i + 1))) :
    Takes V (timesFrom n f (A 0)) ((List.range n).flatMap L) (A n) := by
  induction n with
  | zero => exact takes_ret _
  | succ n ih =>
    rw [List.range_succ, List.flatMap_append, List.flatMap_singleton]
    exact (ih fun i hi => h i (Nat.lt_succ_of_lt hi)).bind (h n n.lt_succ_self)

/-! ## Loops -/

variable {item : Parser σ β} {onEnd : α → Parser σ α} {body : β → α → Parser σ (Pass α)}

/-- **The loop takes `l`**, if there are passes enough. -/
def Loops (V : View σ ι) (item : Parser σ β) (onEnd : α → Parser σ α) (body : β → α → Parser σ (Pass α)) (a : α)
    (l : List ι) (a' : α) : Prop :=
  ∀ fuel s k, V.size s ≤ fuel → V.good s → V.left s = l ++ k → Taken V s k a' (loop item onEnd body fuel a s)

theorem Loops.takes {size : σ → ℕ} (hsize : size = V.size) (h : Loops V item onEnd body a l a') :
    Takes V (fun s => loop item onEnd body (size s) a s) l a' := by
  subst hsize
  exact fun s k hgood hleft => h _ s k le_rfl hgood hleft

/-- The loop ends with this pass. -/
theorem Loops.done {i : ι} (hitem : TakesItem V item i b) (hbody : Takes V (body b a) l (.done a')) :
    Loops V item onEnd body a (i :: l) a' := by
  intro fuel s k hfuel hgood hleft
  obtain ⟨t, ht, hk, hgood₁, hlt⟩ := hitem s (l ++ k) hgood hleft
  obtain ⟨r, hr, hk', hgood₂, hle⟩ := hbody t k hgood₁ hk
  refine ⟨r, ?_, hk', hgood₂, hle.trans hlt.le⟩
  cases fuel with
  | zero => exact absurd hfuel (Nat.not_le.mpr (Nat.zero_lt_of_lt hlt))
  | succ fuel =>
    rw [loop, ht]
    dsimp only
    rw [hr]

/-- The loop goes on behind this pass. -/
theorem Loops.next {i : ι} {a₁ : α} (hitem : TakesItem V item i b) (hbody : Takes V (body b a) l (.next a₁))
    (h : Loops V item onEnd body a₁ m a') : Loops V item onEnd body a (i :: l ++ m) a' := by
  intro fuel s k hfuel hgood hleft
  rw [List.append_assoc] at hleft
  obtain ⟨t, ht, hk, hgood₁, hlt⟩ := hitem s (l ++ (m ++ k)) hgood hleft
  obtain ⟨r, hr, hk', hgood₂, hle⟩ := hbody t (m ++ k) hgood₁ hk
  cases fuel with
  | zero => exact absurd hfuel (Nat.not_le.mpr (Nat.zero_lt_of_lt hlt))
  | succ fuel =>
    have hfuel' : V.size r ≤ fuel := Nat.lt_succ_iff.mp ((hle.trans_lt hlt).trans_le hfuel)
    obtain ⟨q, hq, hk'', hgood₃, hle'⟩ := h fuel r k hfuel' hgood₂ hk'
    refine ⟨q, ?_, hk'', hgood₃, hle'.trans (hle.trans hlt.le)⟩
    rw [loop, ht]
    dsimp only
    rw [hr]
    exact hq

/-- **As many passes as `n`**, each of which takes a part of its own. -/
theorem Loops.passes {n : ℕ} (A : ℕ → α) (I : ℕ → ι) (B : ℕ → β) (L : ℕ → List ι)
    (hitem : ∀ i < n, TakesItem V item (I i) (B i))
    (hbody : ∀ i < n, Takes V (body (B i) (A i)) (L i) (.next (A (i + 1))))
    (h : Loops V item onEnd body (A n) m a') :
    Loops V item onEnd body (A 0) ((List.range n).flatMap (fun i => I i :: L i) ++ m) a' := by
  induction n generalizing m with
  | zero => exact h
  | succ n ih =>
    rw [List.range_succ, List.flatMap_append, List.flatMap_singleton, List.append_assoc]
    exact ih (fun i hi => hitem i (Nat.lt_succ_of_lt hi)) (fun i hi => hbody i (Nat.lt_succ_of_lt hi))
      (.next (hitem n n.lt_succ_self) (hbody n n.lt_succ_self) h)

end Parse
