import Rrdtool.Rpn.Calc

/-!
# The stack of the RPN calculator

An operator that finds its operands stays inside of the part of the stack that is in use. The two that
take a count from the stack do not check that it is positive.

* `rpnOp_inside` — one lemma for each family of operators, and all of them together;
* `stack_safe_iff` — an evaluation stays inside of the stack exactly where no negative count is met.
-/

namespace Rrdtool

open Loop RpnState

/-! ## Accesses inside of the stack -/

/-- **An access inside of the stack**: of the array, not above the top plus one, and of elements that have
been written. -/
def Touch.Safe : Touch → Prop
  | .cell index size top known => 0 ≤ index ∧ index < size ∧ index ≤ top + 1 ∧ known = true
  | .sort base count size top known =>
    0 ≤ count ∧ 0 ≤ base ∧ base + count ≤ top + 1 ∧ top < size ∧ known = true

instance : DecidablePred Touch.Safe := fun t =>
  match t with
  | .cell .. => inferInstanceAs (Decidable (_ ∧ _))
  | .sort .. => inferInstanceAs (Decidable (_ ∧ _))

/-- No element above `d` is accessed. -/
def Touch.Below (d : ℤ) : Touch → Prop
  | .cell index _ _ _ => index ≤ d
  | .sort base count _ _ _ => base + count ≤ d + 1

/-- **The part in use has been written**, and `m` more elements have room. -/
structure RpnState.Sound (m : ℤ) (c : RpnState) : Prop where
  floor : -1 ≤ c.stptr
  room : c.stptr + m < c.size
  known : ∀ i, 0 ≤ i → i ≤ c.stptr → c.known i = true

/-- An operator starts: its stack has grown. -/
structure RpnState.Ready (c : RpnState) : Prop extends c.Sound 4 where
  start : c.top = c.stptr

/-- What an operator does to a state: all its accesses are safe and not above `d`. -/
structure Inside (d : ℤ) (c : RpnState) (o : CalcOutcome) : Prop where
  touched : ∀ t ∈ o.state.touched, t ∈ c.touched ∨ t.Safe ∧ t.Below d
  sound : ∀ c', o = .ok c' → c'.Sound 0

variable {c : RpnState} {d m : ℤ}

theorem RpnState.Sound.mono (h : c.Sound m) {k : ℤ} (hk : k ≤ m) : c.Sound k :=
  ⟨h.floor, by have := h.room; omega, h.known⟩

/-- An operator that fails before it accesses the stack. -/
theorem inside_fail (d : ℤ) (c : RpnState) (e : CalcError) : Inside d c (.fail e c) :=
  ⟨fun _ ht => .inl ht, nofun⟩

/-- A check of the depth. -/
theorem inside_need {minsize : ℤ} {k : RpnState → CalcOutcome}
    (hk : minsize ≤ c.stptr → Inside d c (k c)) : Inside d c (c.need minsize k) := by
  rw [RpnState.need]
  split_ifs with h
  · exact inside_fail d c _
  · exact hk (by omega)

/-- An operator goes on with what it has done so far. -/
theorem Inside.trans {c' : RpnState} {o : CalcOutcome} (h : Inside d c' o)
    (hc : ∀ t ∈ c'.touched, t ∈ c.touched ∨ t.Safe ∧ t.Below d) : Inside d c o := by
  refine ⟨fun t ht => ?_, h.sound⟩
  rcases h.touched t ht with h | h
  · exact hc t h
  · exact .inr h

theorem RpnState.Sound.load (h : c.Sound m) (i : ℤ) : (c.load i).Sound m := ⟨h.floor, h.room, h.known⟩

theorem RpnState.Sound.store (h : c.Sound m) (i : ℤ) (v : RrdValue) : (c.store i v).Sound m := by
  refine ⟨h.floor, h.room, fun j h0 hj => ?_⟩
  rw [store_known, Function.update_apply]
  split_ifs
  · rfl
  · exact h.known j h0 hj

/-- Elements are dropped. -/
theorem RpnState.Sound.move (h : c.Sound m) {k : ℤ} (hk : k ≤ 0) (hfloor : -1 ≤ c.stptr + k) :
    (c.move k).Sound m := by
  obtain ⟨-, hroom, hknown⟩ := h
  refine ⟨hfloor, ?_, fun j h0 hj => hknown j h0 ?_⟩
  · simp only [move_stptr, move_size]
    omega
  · rw [move_stptr] at hj
    omega

theorem RpnState.Sound.push (h : c.Sound m) (v : RrdValue) : (c.push v).Sound (m - 1) := by
  obtain ⟨hfloor, hroom, hknown⟩ := h
  refine ⟨?_, ?_, fun j h0 hj => ?_⟩
  · rw [push_stptr]
    omega
  · rw [push_stptr, push_size]
    omega
  · rw [push_known, Function.update_apply]
    split_ifs with hne
    · rfl
    · rw [push_stptr] at hj
      exact hknown j h0 (by omega)

theorem RpnState.Sound.readData (h : c.Sound m) (rpi : ℕ) (pos : ℤ) : (c.readData rpi pos).Sound m :=
  ⟨h.floor, h.room, h.known⟩

/-- A read of an element in use, or a write. -/
theorem safe_cell {i top size : ℤ} {known : Bool} (hroom : top + 1 < size) (h0 : 0 ≤ i)
    (hi : i ≤ top + 1) (hd : i ≤ d) (hknown : known = true) :
    (Touch.cell i size top known).Safe ∧ (Touch.cell i size top known).Below d :=
  ⟨⟨h0, by omega, hi, hknown⟩, hd⟩

theorem inside_readData {rpi : ℕ} {pos : ℤ} {o : CalcOutcome} (h : Inside d (c.readData rpi pos) o) :
    Inside d c o := ⟨h.touched, h.sound⟩

/-- An operator that returns, with its accesses. -/
theorem inside_ok {c' : RpnState} (ts : List Touch) (hts : c'.touched = ts ++ c.touched)
    (h : ∀ t ∈ ts, t.Safe ∧ t.Below d) (hsound : c'.Sound 0) : Inside d c (.ok c') := by
  refine ⟨fun t ht => ?_, ?_⟩
  · change t ∈ c'.touched at ht
    rw [hts] at ht
    rcases List.mem_append.mp ht with ht | ht
    · exact .inr (h t ht)
    · exact .inl ht
  · rintro _ ⟨⟩
    exact hsound

theorem RpnState.Ready.readData (h : c.Ready) (rpi : ℕ) (pos : ℤ) : (c.readData rpi pos).Ready :=
  ⟨⟨h.floor, h.room, h.known⟩, h.start⟩

/-! ## The families -/

theorem inside_push (h : c.Ready) (v : RrdValue) : Inside (c.stptr + 1) c (.ok (c.push v)) := by
  have hfloor := h.floor
  have hroom := h.room
  have htop := h.start
  refine inside_ok [.cell (c.stptr + 1) c.size c.top true] rfl ?_
    ((h.toSound.push v).mono (by decide))
  rw [List.forall_mem_singleton]
  exact safe_cell (by omega) (by omega) (by omega) (le_refl _) rfl

theorem inside_unary (h : c.Ready) (f : RrdValue → RrdValue) : Inside c.stptr c (c.unary f) := by
  have hroom := h.room
  have htop := h.start
  refine inside_need fun h0 =>
    inside_ok [.cell c.stptr c.size c.top true, .cell c.stptr c.size c.top (c.known c.stptr)]
      rfl ?_ (((h.toSound.load _).store _ _).mono (by decide))
  simp only [List.forall_mem_cons, List.not_mem_nil, false_imp_iff, implies_true, and_true]
  constructor
  · exact safe_cell (by omega) h0 (by omega) (le_refl _) rfl
  · exact safe_cell (by omega) h0 (by omega) (le_refl _) (h.known _ h0 (le_refl _))

theorem inside_binary (h : c.Ready) (f : RrdValue → RrdValue → RrdValue) :
    Inside c.stptr c (c.binary f) := by
  have hroom := h.room
  have htop := h.start
  refine inside_need fun h1 =>
    inside_ok [.cell (c.stptr - 1) c.size c.top true,
        .cell c.stptr c.size c.top (c.known c.stptr),
        .cell (c.stptr - 1) c.size c.top (c.known (c.stptr - 1))] rfl ?_ ?_
  · simp only [List.forall_mem_cons, List.not_mem_nil, false_imp_iff, implies_true, and_true]
    refine ⟨?_, ?_, ?_⟩
    · exact safe_cell (by omega) (by omega) (by omega) (by omega) rfl
    · exact safe_cell (by omega) (by omega) (by omega) (le_refl _) (h.known _ (by omega) (le_refl _))
    · exact safe_cell (by omega) (by omega) (by omega) (by omega) (h.known _ (by omega) (by omega))
  · exact ((((h.toSound.load _).load _).store _ _).move (by decide) (by simp; omega)).mono (by decide)

theorem inside_ternary (h : c.Ready) (f : RrdValue → RrdValue → RrdValue → RrdValue) :
    Inside c.stptr c (c.ternary f) := by
  have hroom := h.room
  have htop := h.start
  refine inside_need fun h2 =>
    inside_ok [.cell (c.stptr - 2) c.size c.top true,
        .cell c.stptr c.size c.top (c.known c.stptr),
        .cell (c.stptr - 1) c.size c.top (c.known (c.stptr - 1)),
        .cell (c.stptr - 2) c.size c.top (c.known (c.stptr - 2))] rfl ?_ ?_
  · simp only [List.forall_mem_cons, List.not_mem_nil, false_imp_iff, implies_true, and_true]
    refine ⟨?_, ?_, ?_, ?_⟩
    · exact safe_cell (by omega) (by omega) (by omega) (by omega) rfl
    · exact safe_cell (by omega) (by omega) (by omega) (le_refl _) (h.known _ (by omega) (le_refl _))
    · exact safe_cell (by omega) (by omega) (by omega) (by omega) (h.known _ (by omega) (by omega))
    · exact safe_cell (by omega) (by omega) (by omega) (by omega) (h.known _ (by omega) (by omega))
  · exact (((((h.toSound.load _).load _).load _).store _ _).move (by decide) (by simp; omega)).mono (by decide)

/-! ## Operators with a body of their own -/

variable {env : RpnEnv} {call : RpnCall}

theorem inside_variable (h : c.Ready) (n : RpnNode) (rpi : ℕ) :
    Inside (c.stptr + 1) c (opVariable env call n rpi c) := by
  rw [opVariable]
  by_cases hvdef : n.dsCnt = 0
  · rw [if_pos hvdef]
    exact inside_fail _ c _
  rw [if_neg hvdef]
  dsimp only
  -- whatever is pushed, the pointer may move on afterwards
  have hpush (c' : RpnState) (hc : Inside (c.stptr + 1) c (.ok c')) :
      Inside (c.stptr + 1) c (if n.step = 0 then .fail .divisionByZero c'
        else if call.dataIdx.tmod n.step = 0 then
          .ok { c' with data := Function.update c'.data rpi (c.data rpi + n.dsCnt) }
        else .ok c') := by
    split_ifs
    · exact ⟨hc.touched, nofun⟩
    · refine ⟨hc.touched, ?_⟩
      rintro _ ⟨⟩
      have hs := hc.sound c' rfl
      exact ⟨hs.floor, hs.room, hs.known⟩
    · exact hc
  refine hpush _ ?_
  split_ifs
  · exact inside_readData (inside_push (h.readData rpi _) _)
  · exact inside_push h _
  · exact inside_readData (inside_push (h.readData rpi _) _)

theorem inside_dup (h : c.Ready) : Inside (c.stptr + 1) c (opDup c) := by
  have hroom := h.room
  have htop := h.start
  refine inside_need fun h0 =>
    inside_ok [.cell (c.stptr + 1) c.size c.top true,
      .cell c.stptr c.size c.top (c.known c.stptr)] rfl ?_ ?_
  · simp only [List.forall_mem_cons, List.not_mem_nil, false_imp_iff, implies_true, and_true]
    constructor
    · exact safe_cell (by omega) (by omega) (by omega) (le_refl _) rfl
    · exact safe_cell (by omega) h0 (by omega) (by omega) (h.known _ h0 (le_refl _))
  · have hs : (c.push (c.cells c.stptr)).Sound 0 := (h.toSound.push _).mono (by decide)
    exact ⟨hs.floor, hs.room, hs.known⟩

theorem inside_exc (h : c.Ready) : Inside c.stptr c (opExc c) := by
  have hroom := h.room
  have htop := h.start
  refine inside_need fun h1 =>
    inside_ok [.cell (c.stptr - 1) c.size c.top true, .cell c.stptr c.size c.top true,
      .cell (c.stptr - 1) c.size c.top (c.known (c.stptr - 1)),
      .cell c.stptr c.size c.top (c.known c.stptr)] rfl ?_
      (((((h.toSound.load _).load _).store _ _).store _ _).mono (by decide))
  simp only [List.forall_mem_cons, List.not_mem_nil, false_imp_iff, implies_true, and_true]
  refine ⟨?_, ?_, ?_, ?_⟩
  · exact safe_cell (by omega) (by omega) (by omega) (by omega) rfl
  · exact safe_cell (by omega) (by omega) (by omega) (le_refl _) rfl
  · exact safe_cell (by omega) (by omega) (by omega) (by omega) (h.known _ (by omega) (by omega))
  · exact safe_cell (by omega) (by omega) (by omega) (le_refl _) (h.known _ (by omega) (le_refl _))

/-! ## Counts from the stack -/

/-- **What a loop does to a state**: accesses to elements not above `d`, and nothing to `top` and `size`. -/
structure Visits (d : ℤ) (c c' : RpnState) : Prop where
  touched : ∀ t ∈ c'.touched, t ∈ c.touched ∨ t.Safe ∧ t.Below d
  top : c'.top = c.top
  size : c'.size = c.size

variable {c' c'' : RpnState}

theorem Visits.refl (d : ℤ) (c : RpnState) : Visits d c c := ⟨fun _ ht => .inl ht, rfl, rfl⟩

theorem Visits.trans (h : Visits d c c') (h' : Visits d c' c'') : Visits d c c'' := by
  refine ⟨fun t ht => ?_, h'.top.trans h.top, h'.size.trans h.size⟩
  rcases h'.touched t ht with ht | ht
  · exact h.touched t ht
  · exact .inr ht

theorem Visits.load (h : Visits d c c') {i : ℤ} (hroom : c.top + 1 < c.size) (h0 : 0 ≤ i)
    (hi : i ≤ c.top + 1) (hd : i ≤ d) (hknown : c'.known i = true) : Visits d c (c'.load i) := by
  refine ⟨fun t ht => ?_, h.top, h.size⟩
  rcases List.mem_cons.mp ht with rfl | ht
  · rw [h.size, h.top]
    exact .inr (safe_cell hroom h0 hi hd hknown)
  · exact h.touched t ht

theorem Visits.store (h : Visits d c c') {i : ℤ} (hroom : c.top + 1 < c.size) (h0 : 0 ≤ i)
    (hi : i ≤ c.top + 1) (hd : i ≤ d) (v : RrdValue) : Visits d c (c'.store i v) := by
  refine ⟨fun t ht => ?_, h.top, h.size⟩
  rcases List.mem_cons.mp ht with rfl | ht
  · rw [h.size, h.top]
    exact .inr (safe_cell hroom h0 hi hd rfl)
  · exact h.touched t ht

theorem Visits.move (h : Visits d c c') (k : ℤ) : Visits d c (c'.move k) := ⟨h.touched, h.top, h.size⟩

/-- The end of an operator. -/
theorem Visits.inside (h : Visits d c c') (hsound : c'.Sound 0) : Inside d c (.ok c') := by
  refine ⟨h.touched, ?_⟩
  rintro _ ⟨⟩
  exact hsound

theorem Visits.fail (h : Visits d c c') (e : CalcError) : Inside d c (.fail e c') := ⟨h.touched, nofun⟩

/-- A check of the depth, later on. -/
theorem Visits.need (h : Visits d c c') {minsize : ℤ} {k : RpnState → CalcOutcome}
    (hk : minsize ≤ c'.stptr → Inside d c (k c')) : Inside d c (c'.need minsize k) := by
  rw [RpnState.need]
  split_ifs with hlt
  · exact h.fail _
  · exact hk (by omega)

/-- The count is popped. -/
theorem visits_pop (h : c.Ready) (h0 : 0 ≤ c.stptr) :
    Visits c.stptr c ((c.load c.stptr).move (-1)) ∧ ((c.load c.stptr).move (-1)).Sound 4 := by
  have hroom := h.room
  have htop := h.start
  constructor
  · exact ((Visits.refl _ c).load (by omega) h0 (by omega) (le_refl _) (h.known _ h0 (le_refl _))).move _
  · exact (h.toSound.load _).move (by decide) (by simp; omega)

theorem cInt_range (x : RrdValue) : -2 ^ 31 ≤ cInt x ∧ cInt x < 2 ^ 31 := by
  rw [cInt]
  split_ifs with h
  · exact h
  · decide

theorem wrapInt_of_range {z : ℤ} (hlo : -2 ^ 31 ≤ z) (hhi : z < 2 ^ 31) : wrapInt z = z :=
  Int.bmod_eq_of_le (by omega) (by omega)

/-- A count that passes the check: only the smallest `int` wraps. -/
theorem cInt_le_of_checked {x : RrdValue} {k : ℤ} (hk : -1 ≤ k) (h : wrapInt (cInt x - 1) ≤ k) :
    cInt x ≤ k + 1 := by
  have hrange := cInt_range x
  by_cases hmin : cInt x = -2 ^ 31
  · omega
  · rw [wrapInt_of_range (by omega) (by omega)] at h
    omega

/-- What `SORT` needs of the count on the top: that it is not negative, or that the check of the depth
refuses it. -/
def SortFits (c : RpnState) : Prop :=
  0 ≤ c.stptr → 0 ≤ cInt (c.cells c.stptr) ∨ c.stptr - 1 < wrapInt (cInt (c.cells c.stptr) - 1)

theorem inside_sort (h : c.Ready) (hcount : SortFits c) : Inside c.stptr c (opSort c) := by
  have hroom := h.room
  have htop := h.start
  refine inside_need fun h0 => ?_
  obtain ⟨hpop, hsound⟩ := visits_pop h h0
  have hspn := hcount h0
  have hstptr : ((c.load c.stptr).move (-1)).stptr = c.stptr - 1 := rfl
  generalize (c.load c.stptr).move (-1) = c1 at hpop hsound hstptr
  have hsound0 := hsound.mono (k := 0) (by decide)
  refine hpop.need fun hle => ?_
  have hle := cInt_le_of_checked hsound.floor hle
  have hspn : 0 ≤ cInt (c.cells c.stptr) := by
    rcases hspn with hspn | hspn
    · exact hspn
    · omega
  refine Visits.inside ⟨fun t ht => ?_, hpop.top, hpop.size⟩
    ⟨hsound0.floor, hsound0.room, hsound0.known⟩
  rcases List.mem_cons.mp ht with rfl | ht
  · right
    rw [hpop.top, hpop.size]
    refine ⟨⟨hspn, by omega, by omega, by omega, ?_⟩, ?_⟩
    · rw [List.all_eq_true]
      intro k hk
      have hlt := List.mem_range.mp hk
      exact hsound.known _ (by omega) (by omega)
    · change c1.stptr - cInt (c.cells c.stptr) + 1 + cInt (c.cells c.stptr) ≤ c.stptr + 1
      omega
  · exact hpop.touched t ht

theorem visits_revLoop (fuel : ℕ) {p q : ℤ} (h : Visits d c c') (hsound : c'.Sound 4)
    (hroom : c.top + 1 < c.size) (hp : 0 ≤ p) (hq : q ≤ c'.stptr) (hqd : q ≤ d) (hqtop : q ≤ c.top + 1) :
    Visits d c (revLoop fuel p q c') ∧ (revLoop fuel p q c').Sound 4 := by
  induction fuel generalizing p q c' with
  | zero => exact ⟨h, hsound⟩
  | succ fuel ih =>
    rw [revLoop]
    split_ifs with hpq
    · have hload := (h.load hroom (by omega) hqtop hqd (hsound.known q (by omega) hq)).load (i := p) hroom
        hp (by omega) (by omega) (hsound.known p hp (by omega))
      have hstore := (hload.store (i := q) hroom (by omega) hqtop hqd (c'.cells p)).store (i := p) hroom hp
        (by omega) (by omega) (c'.cells q)
      refine ih hstore ((((hsound.load q).load p).store q _).store p _) (by omega) ?_ (by omega) (by omega)
      simp only [store_stptr, load_stptr]
      omega
    · exact ⟨h, hsound⟩

theorem inside_rev (h : c.Ready) : Inside c.stptr c (opRev c) := by
  have hroom := h.room
  have htop := h.start
  refine inside_need fun h0 => ?_
  obtain ⟨hpop, hsound⟩ := visits_pop h h0
  have hstptr : ((c.load c.stptr).move (-1)).stptr = c.stptr - 1 := rfl
  generalize (c.load c.stptr).move (-1) = c1 at hpop hsound hstptr
  refine hpop.need fun hle => ?_
  have hle := cInt_le_of_checked hsound.floor hle
  obtain ⟨hloop, hs⟩ := visits_revLoop (cInt (c.cells c.stptr)).toNat (p := c1.stptr - cInt (c.cells c.stptr) + 1)
    (q := c1.stptr) hpop hsound (by omega) (by omega) (le_refl _) (by omega) (by omega)
  exact hloop.inside (hs.mono (by decide))

/-- The values of an average are popped. -/
theorem visits_avg (n : ℕ) (h : Visits d c c') (hsound : c'.Sound 4) (hroom : c.top + 1 < c.size)
    (hd : c'.stptr ≤ d) (htop : c'.stptr ≤ c.top) (hn : n ≤ c'.stptr + 1) (a : RrdValue × ℕ) :
    Visits d c (forLoop n (fun _ s => avgPass s) (c', a)).1 ∧
      (forLoop n (fun _ s => avgPass s) (c', a)).1.Sound 4 ∧
      (forLoop n (fun _ s => avgPass s) (c', a)).1.stptr = c'.stptr - n := by
  refine forLoop_invariant (fun k (s : RpnState × RrdValue × ℕ) =>
    Visits d c s.1 ∧ s.1.Sound 4 ∧ s.1.stptr = c'.stptr - k) ⟨h, hsound, by simp⟩ ?_
  rintro k s hk ⟨hv, hs, hstptr⟩
  have h0 : 0 ≤ s.1.stptr := by omega
  have hpass : (avgPass s).1 = (s.1.load s.1.stptr).move (-1) := by
    rw [avgPass]
    split_ifs
    · rfl
    · rfl
  rw [hpass]
  refine ⟨(hv.load hroom h0 (by omega) (by omega) (hs.known _ h0 (le_refl _))).move _,
    (hs.load _).move (by decide) (by simp; omega), ?_⟩
  simp only [move_stptr, load_stptr, hstptr]
  push_cast
  ring

theorem inside_avg (h : c.Ready) : Inside c.stptr c (opAvg c) := by
  have hroom := h.room
  have htop := h.start
  refine inside_need fun h0 => ?_
  obtain ⟨hpop, hsound⟩ := visits_pop h h0
  have hstptr : ((c.load c.stptr).move (-1)).stptr = c.stptr - 1 := rfl
  generalize (c.load c.stptr).move (-1) = c1 at hpop hsound hstptr
  refine hpop.need fun hle => ?_
  have hle := cInt_le_of_checked hsound.floor hle
  obtain ⟨hv, hs, hend⟩ := visits_avg (cInt (c.cells c.stptr)).toNat hpop hsound (by omega) (by omega)
    (by omega) (by omega) (.num 0, 0)
  have hfloor := hs.floor
  refine Visits.inside ?_ ((hs.push _).mono (by decide))
  exact (hv.move 1).store (by omega) (by omega) (by omega) (by omega) _

/-! ## Windows in the data -/

/-- Nothing but the log of the data reads differs. -/
structure SameStack (c c' : RpnState) : Prop where
  cells : c'.cells = c.cells
  known : c'.known = c.known
  size : c'.size = c.size
  stptr : c'.stptr = c.stptr
  top : c'.top = c.top
  data : c'.data = c.data
  touched : c'.touched = c.touched

theorem SameStack.refl (c : RpnState) : SameStack c c := ⟨rfl, rfl, rfl, rfl, rfl, rfl, rfl⟩

theorem SameStack.trans (h : SameStack c c') (h' : SameStack c' c'') : SameStack c c'' :=
  ⟨h'.cells.trans h.cells, h'.known.trans h.known, h'.size.trans h.size, h'.stptr.trans h.stptr,
    h'.top.trans h.top, h'.data.trans h.data, h'.touched.trans h.touched⟩

theorem SameStack.visits (h : SameStack c c') (d : ℤ) : Visits d c c' :=
  ⟨fun _ ht => .inl (h.touched ▸ ht), h.top, h.size⟩

theorem SameStack.sound (h : SameStack c c') (hs : c.Sound m) : c'.Sound m :=
  ⟨h.stptr ▸ hs.floor, by rw [h.stptr, h.size]; exact hs.room, by rw [h.stptr, h.known]; exact hs.known⟩

theorem trendPass_same (env : RpnEnv) (v : RpnNode) (rpi : ℕ) (ignorenan : Bool)
    (s : RpnState × TrendAcc) : SameStack s.1 (trendPass env v rpi ignorenan s).1 := by
  rw [trendPass]
  split_ifs
  · exact ⟨rfl, rfl, rfl, rfl, rfl, rfl, rfl⟩
  · exact ⟨rfl, rfl, rfl, rfl, rfl, rfl, rfl⟩

theorem trendLoop_same (env : RpnEnv) (v : RpnNode) (rpi : ℕ) (ignorenan : Bool) (dur : ℤ)
    (s : RpnState × TrendAcc) : SameStack s.1 (trendLoop env v rpi ignorenan dur s).1 := by
  fun_induction trendLoop env v rpi ignorenan dur s with
  | case1 dur s _ ih => exact (trendPass_same env v rpi ignorenan s).trans ih
  | case2 dur s _ => exact SameStack.refl _

theorem inside_trend (h : c.Ready) (op : Op) (v : Option RpnNode) (rpi : ℕ) :
    Inside c.stptr c (opTrend env call op v rpi c) := by
  have hroom := h.room
  have htop := h.start
  refine inside_need fun h1 => ?_
  cases v with
  | none => exact inside_fail _ c _
  | some v =>
    have hload : Visits c.stptr c (c.load c.stptr) := (Visits.refl _ c).load (by omega) (by omega)
      (by omega) (le_refl _) (h.known _ (by omega) (le_refl _))
    -- the result replaces the variable
    have hend (c' : RpnState) (hc' : SameStack (c.load c.stptr) c') (x : RrdValue) :
        Inside c.stptr c (.ok ((c'.move (-1)).store (c.stptr - 1) x)) := by
      have hstptr : c'.stptr = c.stptr := hc'.stptr
      have hsound := hc'.sound (h.toSound.load c.stptr)
      refine Visits.inside ?_ (((hsound.move (by decide) (by omega)).store _ _).mono (by decide))
      exact ((hload.trans (hc'.visits _)).move _).store (by omega) (by omega) (by omega) (by omega) _
    have hloop (b : Bool) (dur : ℤ) : SameStack (c.load c.stptr) (trendLoop env v (rpi - 2) b dur
        (trendPass env v (rpi - 2) b (c.load c.stptr, ⟨.num 0, 0, 0⟩))).1 :=
      (trendPass_same env v (rpi - 2) b (c.load c.stptr, ⟨.num 0, 0, 0⟩)).trans
        (trendLoop_same env v (rpi - 2) b dur _)
    dsimp only
    by_cases hvar : v.op ≠ .variable
    · rw [if_pos hvar]
      exact inside_fail _ c _
    rw [if_neg hvar]
    by_cases hrows : ceilQuot (cLong (c.cells c.stptr)) v.step ≤ call.outputIdx + 1
    · rw [if_pos hrows]
      exact hend _ (hloop _ _) _
    · rw [if_neg hrows]
      exact hend _ (SameStack.refl _) _

theorem predictPass_same (env : RpnEnv) (call : RpnCall) (v : RpnNode) (rpi : ℕ) (offset : ℤ)
    (s : RpnState × PredictAcc) : SameStack s.1 (predictPass env call v rpi offset s).1 := by
  rw [predictPass]
  split_ifs with hin
  · dsimp only
    split_ifs
    · exact ⟨rfl, rfl, rfl, rfl, rfl, rfl, rfl⟩
    · exact ⟨rfl, rfl, rfl, rfl, rfl, rfl, rfl⟩
  · exact SameStack.refl _

theorem predictLoop_same (env : RpnEnv) (call : RpnCall) (v : RpnNode) (rpi n : ℕ) (from_ : ℤ)
    (s : RpnState × PredictAcc) :
    SameStack s.1 (forLoop n (fun i s => predictPass env call v rpi (from_ + i) s) s).1 :=
  forLoop_invariant (fun _ (t : RpnState × PredictAcc) => SameStack s.1 t.1) (SameStack.refl _) fun _ _ _ ht =>
    SameStack.trans ht (predictPass_same ..)

/-- The element that a shift is taken from. -/
def shiftIndex (c : RpnState) (negative : Bool) (loop : ℕ) : ℤ :=
  if negative then c.stptr else c.stptr + loop

/-- One shift reads one element. -/
theorem predictShift_same (env : RpnEnv) (call : RpnCall) (v : RpnNode) (rpi : ℕ) (locstep : ℤ)
    (negative : Bool) (loop : ℕ) (s : RpnState × PredictAcc) :
    SameStack (s.1.load (shiftIndex s.1 negative loop))
      (predictShift env call v rpi locstep negative loop s).state.1 := by
  rw [predictShift]
  by_cases hneg : (if negative then cInt (Dbl.ofNat loop * s.1.cells (shiftIndex s.1 negative loop))
      else cInt (s.1.cells (shiftIndex s.1 negative loop))) < 0
  · rw [shiftIndex] at hneg
    rw [if_pos hneg]
    exact SameStack.refl _
  · rw [shiftIndex] at hneg
    rw [if_neg hneg]
    exact predictLoop_same env call v rpi _ _ (s.1.load (shiftIndex s.1 negative loop), s.2)

/-- What `PREDICT` needs: with a negative number of shifts, one element more than its operands. -/
def PredictFits (c : RpnState) : Prop :=
  2 ≤ c.stptr → cInt (c.cells (c.stptr - 2)) < 0 → 3 ≤ c.stptr

/-- The shifts are read from elements of `c`, and the result replaces the first of them. -/
theorem inside_predictShifts (h : c.Ready) (hc' : Visits c.stptr c c') (hknown : c'.known = c.known)
    (hstptr : c'.stptr = c.stptr - 2) {shifts : ℤ} (hle : shifts ≤ c'.stptr)
    (hfits : shifts < 0 → 3 ≤ c.stptr) (op : Op) (v : RpnNode) (rpi : ℕ) (locstepsize : ℤ) :
    Inside c.stptr c (predictShifts env call op v rpi locstepsize shifts c') := by
  have hroom := h.room
  have htop := h.start
  rw [predictShifts]
  obtain ⟨c2, hc2, hv2, hknown2, hstptr2⟩ : ∃ c2,
      (if shifts < 0 then c'.move (-1) else c'.move (-shifts)) = c2 ∧ Visits c.stptr c c2 ∧
        c2.known = c.known ∧ c2.stptr = c.stptr - 2 - (if shifts < 0 then 1 else shifts) := by
    split_ifs with hneg
    · exact ⟨_, rfl, hc'.move _, hknown, by rw [move_stptr, hstptr]; ring⟩
    · exact ⟨_, rfl, hc'.move _, hknown, by rw [move_stptr, hstptr]; ring⟩
  rw [hc2]
  have hbase : 0 ≤ c2.stptr ∧ c2.stptr ≤ c.stptr := by
    rw [hstptr2]
    split_ifs with hneg
    · have := hfits hneg
      omega
    · omega
  -- every shift is read below the operands
  have hindex (loop : ℕ) (hlt : loop < (if shifts < 0 then wrapInt (-shifts) else shifts).toNat)
      (t : RpnState) (ht : t.stptr = c2.stptr) :
      0 ≤ shiftIndex t (decide (shifts < 0)) loop ∧ shiftIndex t (decide (shifts < 0)) loop ≤ c.stptr := by
    rw [shiftIndex, ht]
    by_cases hneg : shifts < 0
    · rw [decide_eq_true hneg, if_pos rfl]
      exact hbase
    · rw [if_neg hneg] at hlt hstptr2
      rw [decide_eq_false hneg, if_neg (by decide)]
      omega
  have hloop : Visits c.stptr c (forLoopE (if shifts < 0 then wrapInt (-shifts) else shifts).toNat
        (predictShift env call v (rpi - 1) (ceilQuot locstepsize v.step) (decide (shifts < 0)))
        (c2, ⟨.num 0, .num 0, 0⟩)).state.1 ∧
      (forLoopE (if shifts < 0 then wrapInt (-shifts) else shifts).toNat
        (predictShift env call v (rpi - 1) (ceilQuot locstepsize v.step) (decide (shifts < 0)))
        (c2, ⟨.num 0, .num 0, 0⟩)).state.1.known = c.known ∧
      (forLoopE (if shifts < 0 then wrapInt (-shifts) else shifts).toNat
        (predictShift env call v (rpi - 1) (ceilQuot locstepsize v.step) (decide (shifts < 0)))
        (c2, ⟨.num 0, .num 0, 0⟩)).state.1.stptr = c2.stptr := by
    refine forLoopE_state
      (fun t : RpnState × PredictAcc => Visits c.stptr c t.1 ∧ t.1.known = c.known ∧ t.1.stptr = c2.stptr)
      ⟨hv2, hknown2, rfl⟩ ?_
    rintro loop ⟨t, a⟩ hlt ⟨hv, hk, hs⟩
    have hsame := predictShift_same env call v (rpi - 1) (ceilQuot locstepsize v.step)
      (decide (shifts < 0)) loop (t, a)
    obtain ⟨hlo, hhi⟩ := hindex loop hlt t hs
    have hload := hv.load (by omega) hlo (by omega) hhi (by rw [hk]; exact h.known _ hlo hhi)
    exact ⟨hload.trans (hsame.visits _), hsame.known.trans hk, hsame.stptr.trans hs⟩
  cases hrun : forLoopE (if shifts < 0 then wrapInt (-shifts) else shifts).toNat
      (predictShift env call v (rpi - 1) (ceilQuot locstepsize v.step) (decide (shifts < 0)))
      (c2, ⟨.num 0, .num 0, 0⟩) with
  | fail e t =>
    rw [hrun] at hloop
    exact hloop.1.fail e
  | ok t =>
    rw [hrun] at hloop
    obtain ⟨hv, hk, hs⟩ := hloop
    simp only [Outcome.state_ok] at hv hk hs
    refine (hv.store (by omega) (by omega) (by omega) (by omega) _).inside ?_
    have hsize := hv.size
    refine RpnState.Sound.store ⟨by omega, by omega, fun i h0 hi => ?_⟩ _ _
    rw [hk]
    exact h.known i h0 (by omega)

theorem inside_predict (h : c.Ready) (hshifts : PredictFits c) (op : Op) (v : RpnNode) (rpi : ℕ) :
    Inside c.stptr c (opPredict env call op v rpi c) := by
  have hroom := h.room
  have htop := h.start
  refine inside_need fun h2 => ?_
  have hpop : Visits c.stptr c ((((c.move (-1)).load (c.stptr - 1)).move (-1)).load (c.stptr - 2)) :=
    (((((Visits.refl _ c).move (-1)).load (by omega) (by omega) (by omega) (by omega)
      (h.known _ (by omega) (by omega))).move (-1)).load (by omega) (by omega) (by omega) (by omega)
      (h.known _ (by omega) (by omega)))
  have hstptr : ((((c.move (-1)).load (c.stptr - 1)).move (-1)).load (c.stptr - 2)).stptr =
      c.stptr - 2 := by
    simp only [move_stptr, load_stptr]
    ring
  exact hpop.need fun hle =>
    inside_predictShifts h hpop rfl hstptr hle (hshifts h2) op v rpi _

/-! ## All operators -/

variable {prog : List RpnNode} {n : RpnNode} {rpi : ℕ}

/-- **What an operator needs of the counts on the stack.** -/
structure OpFits (n : RpnNode) (c : RpnState) : Prop where
  sort : n.op = .sort → SortFits c
  predict : n.op = .predict ∨ n.op = .predictsigma → PredictFits c

theorem Inside.mono {o : CalcOutcome} (h : Inside d c o) {d' : ℤ} (hd : d ≤ d') : Inside d' c o := by
  refine ⟨fun t ht => ?_, h.sound⟩
  rcases h.touched t ht with ht | ⟨hsafe, hbelow⟩
  · exact .inl ht
  · refine .inr ⟨hsafe, ?_⟩
    cases t with
    | cell => exact le_trans hbelow hd
    | sort =>
      simp only [Touch.Below] at hbelow ⊢
      omega

/-- **One operator**: it stays inside of the stack, and leaves a stack that is in order. -/
theorem rpnOp_inside (h : c.Ready) (hfits : OpFits n c) :
    Inside (c.stptr + 1) c (rpnOp env call prog rpi n c) := by
  have hle : c.stptr ≤ c.stptr + 1 := by omega
  rw [rpnOp]
  cases hop : n.op with
  | number | count | prev | unkn | inf | neginf | now | time | ltime => exact inside_push h _
  | «variable» | prevOther => exact inside_variable h n rpi
  | add | addnan | sub | mul | div | mod | atan2 | lt | le | gt | ge | ne | eq | min | max =>
    exact (inside_binary h _).mono hle
  | sin | atan | rad2deg | deg2rad | cos | ceil | floor | log | exp | un | isinf | sqrt | abs =>
    exact (inside_unary h _).mono hle
  | cond | limit => exact (inside_ternary h _).mono hle
  | dup => exact inside_dup h
  | pop =>
    refine inside_need fun h0 => ((Visits.refl _ c).move (-1)).inside ?_
    exact (h.toSound.move (by decide) (by omega)).mono (by decide)
  | exc => exact (inside_exc h).mono hle
  | sort => exact (inside_sort h (hfits.sort hop)).mono hle
  | rev => exact (inside_rev h).mono hle
  | predict => exact (inside_predict h (hfits.predict (.inl hop)) ..).mono hle
  | predictsigma => exact (inside_predict h (hfits.predict (.inr hop)) ..).mono hle
  | trend | trendnan => exact (inside_trend h ..).mono hle
  | avg => exact (inside_avg h).mono hle

/-! ## The log -/

/-- A check of the depth forgets no access. -/
theorem logs_need {c : RpnState} {ts : List Touch} {minsize : ℤ} {k : RpnState → CalcOutcome}
    (hc : ts ⊆ c.touched) (hk : ts ⊆ (k c).state.touched) : ts ⊆ (c.need minsize k).state.touched := by
  rw [RpnState.need]
  split_ifs
  · exact hc
  · exact hk

theorem push_logs (c : RpnState) (v : RrdValue) : c.touched ⊆ (c.push v).touched :=
  List.subset_cons_self _ _

theorem load_logs (c : RpnState) (i : ℤ) : c.touched ⊆ (c.load i).touched := List.subset_cons_self _ _

theorem store_logs (c : RpnState) (i : ℤ) (v : RrdValue) : c.touched ⊆ (c.store i v).touched :=
  List.subset_cons_self _ _

theorem unary_logs (c : RpnState) (f : RrdValue → RrdValue) : c.touched ⊆ (c.unary f).state.touched :=
  logs_need (List.Subset.refl _) fun t ht => by simp [ht]

theorem binary_logs (c : RpnState) (f : RrdValue → RrdValue → RrdValue) :
    c.touched ⊆ (c.binary f).state.touched :=
  logs_need (List.Subset.refl _) fun t ht => by simp [ht]

theorem ternary_logs (c : RpnState) (f : RrdValue → RrdValue → RrdValue → RrdValue) :
    c.touched ⊆ (c.ternary f).state.touched :=
  logs_need (List.Subset.refl _) fun t ht => by simp [ht]

theorem opVariable_logs (c : RpnState) (n : RpnNode) (rpi : ℕ) :
    c.touched ⊆ (opVariable env call n rpi c).state.touched := by
  intro t ht
  rw [opVariable]
  split_ifs <;> simp [ht]

theorem revLoop_logs (fuel : ℕ) (p q : ℤ) (c : RpnState) : c.touched ⊆ (revLoop fuel p q c).touched := by
  induction fuel generalizing p q c with
  | zero => exact List.Subset.refl _
  | succ fuel ih =>
    rw [revLoop]
    split_ifs
    · refine List.Subset.trans ?_ (ih ..)
      intro t ht
      simp [ht]
    · exact List.Subset.refl _

theorem avgPass_logs (s : RpnState × RrdValue × ℕ) : s.1.touched ⊆ (avgPass s).1.touched := by
  rw [avgPass]
  split_ifs
  · exact load_logs s.1 s.1.stptr
  · exact load_logs s.1 s.1.stptr

theorem opAvg_logs (c : RpnState) : c.touched ⊆ (opAvg c).state.touched := by
  refine logs_need (List.Subset.refl _) (logs_need (load_logs c c.stptr) ?_)
  refine List.Subset.trans ?_ (push_logs _ _)
  exact forLoop_invariant (fun _ (s : RpnState × RrdValue × ℕ) => c.touched ⊆ s.1.touched)
    (load_logs c c.stptr) fun _ s _ hs => List.Subset.trans hs (avgPass_logs s)

theorem SameStack.logs (h : SameStack c c') : c.touched ⊆ c'.touched := by
  rw [h.touched]
  exact List.Subset.refl _

theorem opTrend_logs (c : RpnState) (op : Op) (v : Option RpnNode) (rpi : ℕ) :
    c.touched ⊆ (opTrend env call op v rpi c).state.touched := by
  refine logs_need (List.Subset.refl _) ?_
  cases v with
  | none => exact List.Subset.refl _
  | some v =>
    dsimp only
    split_ifs
    · exact List.Subset.refl _
    all_goals
      refine List.Subset.trans (load_logs c c.stptr) (List.Subset.trans ?_ (store_logs _ _ _))
      first
      | exact List.Subset.refl _
      | exact ((trendPass_same env v (rpi - 2) _ (c.load c.stptr, ⟨.num 0, 0, 0⟩)).trans
          (trendLoop_same env v (rpi - 2) _ _ _)).logs

theorem predictShift_logs (v : RpnNode) (rpi : ℕ) (locstep : ℤ) (negative : Bool) (loop : ℕ)
    (s : RpnState × PredictAcc) :
    s.1.touched ⊆ (predictShift env call v rpi locstep negative loop s).state.1.touched :=
  List.Subset.trans (load_logs s.1 _) (predictShift_same ..).logs

/-- The shifts start here. -/
def shiftStart (shifts : ℤ) (c : RpnState) : RpnState :=
  if shifts < 0 then c.move (-1) else c.move (-shifts)

theorem shiftStart_touched (shifts : ℤ) (c : RpnState) : (shiftStart shifts c).touched = c.touched := by
  rw [shiftStart]
  split_ifs
  · rfl
  · rfl

theorem predictShifts_logs (c : RpnState) (op : Op) (v : RpnNode) (rpi : ℕ) (locstepsize shifts : ℤ) :
    c.touched ⊆ (predictShifts env call op v rpi locstepsize shifts c).state.touched := by
  have hloop (k : ℕ) : c.touched ⊆ (forLoopE k
      (predictShift env call v (rpi - 1) (ceilQuot locstepsize v.step) (decide (shifts < 0)))
      (shiftStart shifts c, ⟨.num 0, .num 0, 0⟩)).state.1.touched := by
    refine forLoopE_state (fun s : RpnState × PredictAcc => c.touched ⊆ s.1.touched) ?_ ?_
    · rw [shiftStart_touched]
      exact List.Subset.refl _
    · exact fun loop s _ hs => List.Subset.trans hs (predictShift_logs v (rpi - 1) _ _ loop s)
  have h := hloop (if shifts < 0 then wrapInt (-shifts) else shifts).toNat
  rw [shiftStart] at h
  rw [predictShifts]
  cases hrun : forLoopE (if shifts < 0 then wrapInt (-shifts) else shifts).toNat
      (predictShift env call v (rpi - 1) (ceilQuot locstepsize v.step) (decide (shifts < 0)))
      (if shifts < 0 then c.move (-1) else c.move (-shifts), ⟨.num 0, .num 0, 0⟩) with
  | fail e s =>
    rw [hrun] at h
    exact h
  | ok s =>
    rw [hrun] at h
    exact List.Subset.trans h (store_logs _ _ _)

theorem opPredict_logs (c : RpnState) (op : Op) (v : RpnNode) (rpi : ℕ) :
    c.touched ⊆ (opPredict env call op v rpi c).state.touched := by
  have hpop : c.touched ⊆ ((((c.move (-1)).load (c.stptr - 1)).move (-1)).load (c.stptr - 2)).touched := by
    intro t ht
    simp [ht]
  exact logs_need (List.Subset.refl _)
    (logs_need hpop (List.Subset.trans hpop (predictShifts_logs _ op v rpi _ _)))

/-- **The log only grows.** -/
theorem rpnOp_logs (c : RpnState) : c.touched ⊆ (rpnOp env call prog rpi n c).state.touched := by
  rw [rpnOp]
  cases n.op with
  | number | count | prev | unkn | inf | neginf | now | time | ltime => exact push_logs c _
  | «variable» | prevOther => exact opVariable_logs c n rpi
  | add | addnan | sub | mul | div | mod | atan2 | lt | le | gt | ge | ne | eq | min | max =>
    exact binary_logs c _
  | sin | atan | rad2deg | deg2rad | cos | ceil | floor | log | exp | un | isinf | sqrt | abs =>
    exact unary_logs c _
  | cond | limit => exact ternary_logs c _
  | dup => exact logs_need (List.Subset.refl _) fun t ht => by simp [ht]
  | pop => exact logs_need (List.Subset.refl _) (List.Subset.refl _)
  | exc => exact logs_need (List.Subset.refl _) fun t ht => by simp [ht]
  | sort =>
    exact logs_need (List.Subset.refl _) (logs_need (load_logs c c.stptr)
      (List.Subset.trans (load_logs c c.stptr) (List.subset_cons_self _ _)))
  | rev =>
    exact logs_need (List.Subset.refl _) (logs_need (load_logs c c.stptr)
      (List.Subset.trans (load_logs c c.stptr) (revLoop_logs _ _ _ ((c.load c.stptr).move (-1)))))
  | predict | predictsigma => exact opPredict_logs c _ _ _
  | trend | trendnan => exact opTrend_logs c _ _ _
  | avg => exact opAvg_logs c

/-! ## Counts that do not fit -/

theorem not_safe_of_neg {i size top : ℤ} {known : Bool} (h : i < 0) :
    ¬ (Touch.cell i size top known).Safe := by
  rintro ⟨h0, -⟩
  omega

/-- An access that is not safe is in the log of an operator whose counts do not fit. -/
theorem unsafe_of_not_sortFits (h : ¬ SortFits c) : ∃ t ∈ (opSort c).state.touched, ¬ t.Safe := by
  simp only [SortFits, not_forall, not_or, not_le, not_lt] at h
  obtain ⟨h0, hneg, hle⟩ := h
  rw [opSort, RpnState.need, if_neg (by omega)]
  simp only [RpnState.need, move_stptr, load_stptr]
  rw [if_neg (by omega)]
  refine ⟨_, List.mem_cons_self, ?_⟩
  rintro ⟨hcount, -⟩
  omega

/-- The first shift, or else the result, is in front of the stack. -/
theorem unsafe_of_not_predictFits (h : ¬ PredictFits c) (op : Op) (v : RpnNode) (rpi : ℕ) :
    ∃ t ∈ (opPredict env call op v rpi c).state.touched, ¬ t.Safe := by
  simp only [PredictFits, not_forall, not_le] at h
  obtain ⟨h2, hneg, h3⟩ := h
  have hstptr : c.stptr = 2 := by omega
  rw [opPredict, RpnState.need, if_neg (by omega)]
  simp only [RpnState.need, move_stptr, load_stptr]
  rw [if_neg (by omega), predictShifts]
  simp only [if_pos hneg]
  generalize hc1 : ((((c.move (-1)).load (c.stptr - 1)).move (-1)).load (c.stptr - 2)).move (-1) = c1
  have hbase : c1.stptr = -1 := by
    rw [← hc1]
    simp only [move_stptr, load_stptr, hstptr]
    decide
  have hkeep (k : ℕ) : (forLoopE k (predictShift env call v (rpi - 1)
      (ceilQuot (cInt (c.cells (c.stptr - 1))) v.step) (decide (cInt (c.cells (c.stptr - 2)) < 0)))
      (c1, ⟨.num 0, .num 0, 0⟩)).state.1.stptr = -1 := by
    refine forLoopE_state (fun s : RpnState × PredictAcc => s.1.stptr = -1) hbase ?_
    intro loop s _ hs
    exact (predictShift_same env call v (rpi - 1) _ _ loop s).stptr.trans hs
  cases hrun : forLoopE (wrapInt (-cInt (c.cells (c.stptr - 2)))).toNat (predictShift env call v (rpi - 1)
      (ceilQuot (cInt (c.cells (c.stptr - 1))) v.step) (decide (cInt (c.cells (c.stptr - 2)) < 0)))
      (c1, ⟨.num 0, .num 0, 0⟩) with
  | fail e t =>
    obtain ⟨loop, u, -, hu, hfail⟩ := forLoopE_eq_fail.mp hrun
    have hstart := hkeep loop
    rw [hu] at hstart
    have hsame := predictShift_same env call v (rpi - 1)
      (ceilQuot (cInt (c.cells (c.stptr - 1))) v.step) (decide (cInt (c.cells (c.stptr - 2)) < 0)) loop u
    rw [hfail] at hsame
    have hindex : shiftIndex u.1 (decide (cInt (c.cells (c.stptr - 2)) < 0)) loop = -1 := by
      rw [shiftIndex, decide_eq_true hneg, if_pos rfl]
      exact hstart
    exact ⟨_, hsame.logs List.mem_cons_self, not_safe_of_neg (by omega)⟩
  | ok t =>
    have hend := hkeep (wrapInt (-cInt (c.cells (c.stptr - 2)))).toNat
    rw [hrun] at hend
    rw [Outcome.state_ok] at hend
    exact ⟨_, List.mem_cons_self, not_safe_of_neg (by omega)⟩

theorem unsafe_of_not_opFits (h : ¬ OpFits n c) :
    ∃ t ∈ (rpnOp env call prog rpi n c).state.touched, ¬ t.Safe := by
  by_cases hsort : n.op = .sort ∧ ¬ SortFits c
  · rw [rpnOp, hsort.1]
    exact unsafe_of_not_sortFits hsort.2
  · have hpredict : (n.op = .predict ∨ n.op = .predictsigma) ∧ ¬ PredictFits c := by
      by_contra hne
      refine h ⟨fun hop => ?_, fun hop => ?_⟩
      · exact not_not.mp fun hfit => hsort ⟨hop, hfit⟩
      · exact not_not.mp fun hfit => hne ⟨hop, hfit⟩
    rw [rpnOp]
    rcases hpredict.1 with hop | hop
    · rw [hop]
      exact unsafe_of_not_predictFits hpredict.2 _ _ _
    · rw [hop]
      exact unsafe_of_not_predictFits hpredict.2 _ _ _

/-! ## Runs -/

variable {s : RpnStack}

theorem grow_touched (env : RpnEnv) (c : RpnState) : (c.grow env).state.touched = c.touched := by
  rw [RpnState.grow]
  dsimp only
  split_ifs
  · rfl
  · rfl
  · rfl

/-- The stack has grown where it had to. -/
theorem ready_of_grow (h : c.Sound 0) (hgrow : c.grow env = .ok c') : c'.start.Ready := by
  have hroom := h.room
  rw [RpnState.grow] at hgrow
  dsimp only at hgrow
  split_ifs at hgrow with hsize
  · obtain rfl := Outcome.ok.inj hgrow
    exact ⟨⟨h.floor, by simp only [RpnState.start, stackblock]; omega, h.known⟩, rfl⟩
  · obtain rfl := Outcome.ok.inj hgrow
    exact ⟨⟨h.floor, by simp only [RpnState.start]; omega, h.known⟩, rfl⟩

theorem RpnStack.state_sound (s : RpnStack) : s.state.Sound 0 := by
  refine ⟨le_refl _, ?_, fun i h0 hi => ?_⟩
  · simp only [RpnStack.state]
    omega
  · simp only [RpnStack.state] at hi
    omega

/-- **One pass.** -/
theorem rpnPass_inside (h : c.Sound 0) (hsafe : ∀ t ∈ c.touched, t.Safe)
    (hfits : ∀ n c', prog[rpi]? = some n → c.grow env = .ok c' → OpFits n c') :
    (∀ t ∈ (rpnPass env call prog rpi c).state.touched, t.Safe) ∧
      ∀ c', rpnPass env call prog rpi c = .ok c' → c'.Sound 0 := by
  rw [rpnPass]
  cases hn : prog[rpi]? with
  | none =>
    refine ⟨hsafe, ?_⟩
    rintro _ ⟨⟩
    exact h
  | some n =>
    have hgrown := grow_touched env c
    cases hgrow : c.grow env with
    | fail e c1 =>
      rw [hgrow] at hgrown
      refine ⟨?_, nofun⟩
      simp only [Outcome.fail_andThen, Outcome.state_fail] at hgrown ⊢
      rw [hgrown]
      exact hsafe
    | ok c1 =>
      rw [hgrow] at hgrown
      have hfit := hfits n c1 hn hgrow
      have hop : Inside (c1.stptr + 1) c1.start (rpnOp env call prog rpi n c1.start) :=
        rpnOp_inside (ready_of_grow h hgrow) ⟨hfit.sort, hfit.predict⟩
      refine ⟨fun t ht => ?_, hop.sound⟩
      rcases hop.touched t ht with ht | ht
      · rw [Outcome.state_ok] at hgrown
        change t ∈ c1.touched at ht
        rw [hgrown] at ht
        exact hsafe t ht
      · exact ht.1

theorem rpnRun_succ (k : ℕ) (c : RpnState) :
    rpnRun env call prog (k + 1) c = (rpnRun env call prog k c).andThen (rpnPass env call prog k) :=
  forLoopE_succ ..

/-- **All passes**, as long as the counts fit. -/
theorem rpnRun_inside (k : ℕ)
    (hfits : ∀ j n c c', j < k → prog[j]? = some n → rpnRun env call prog j s.state = .ok c →
      c.grow env = .ok c' → OpFits n c') :
    (∀ t ∈ (rpnRun env call prog k s.state).state.touched, t.Safe) ∧
      ∀ c, rpnRun env call prog k s.state = .ok c → c.Sound 0 := by
  induction k with
  | zero =>
    refine ⟨nofun, ?_⟩
    rintro _ ⟨⟩
    exact s.state_sound
  | succ k ih =>
    obtain ⟨hsafe, hsound⟩ := ih fun j n c c' hj => hfits j n c c' (by omega)
    rw [rpnRun_succ]
    cases hrun : rpnRun env call prog k s.state with
    | fail e c =>
      rw [hrun] at hsafe
      exact ⟨hsafe, nofun⟩
    | ok c =>
      rw [hrun] at hsafe
      exact rpnPass_inside (hsound c hrun) hsafe fun n c' hn hgrow =>
        hfits k n c c' (by omega) hn hrun hgrow

theorem rpnPass_logs (c : RpnState) : c.touched ⊆ (rpnPass env call prog rpi c).state.touched := by
  rw [rpnPass]
  cases prog[rpi]? with
  | none => exact List.Subset.refl _
  | some n =>
    have hgrown := grow_touched env c
    cases hgrow : c.grow env with
    | fail e c1 =>
      rw [hgrow, Outcome.state_fail] at hgrown
      simp only [Outcome.fail_andThen, Outcome.state_fail, hgrown]
      exact List.Subset.refl _
    | ok c1 =>
      rw [hgrow, Outcome.state_ok] at hgrown
      simp only [Outcome.ok_andThen]
      rw [← hgrown]
      exact rpnOp_logs c1.start

theorem rpnRun_mono {k m : ℕ} (h : k ≤ m) (c : RpnState) :
    (rpnRun env call prog k c).state.touched ⊆ (rpnRun env call prog m c).state.touched := by
  induction m, h using Nat.le_induction with
  | base => exact List.Subset.refl _
  | succ m hm ih =>
    refine List.Subset.trans ih ?_
    rw [rpnRun_succ]
    cases rpnRun env call prog m c with
    | fail e c' => exact List.Subset.refl _
    | ok c' => exact rpnPass_logs c'

/-- What the first passes access stays in the log. -/
theorem rpnRun_logs {k : ℕ} (hk : k ≤ prog.length) (s : RpnStack) :
    (rpnRun env call prog k s.state).state.touched ⊆ (rpnCalcArray env call prog s).state.touched := by
  refine List.Subset.trans (rpnRun_mono hk s.state) ?_
  rw [rpnCalcArray]
  cases rpnRun env call prog prog.length s.state with
  | fail e c => exact List.Subset.refl _
  | ok c =>
    rw [Outcome.ok_andThen, rpnFinish]
    split_ifs
    · exact List.Subset.refl _
    · exact load_logs c.start 0

/-- **The stack is safe**: every access of an evaluation is. -/
def StackSafe (env : RpnEnv) (call : RpnCall) (prog : List RpnNode) (s : RpnStack) : Prop :=
  ∀ t ∈ (rpnCalcArray env call prog s).state.touched, t.Safe

/-- Where every count fits, before each operator. -/
def CountsFit (env : RpnEnv) (call : RpnCall) (prog : List RpnNode) (s : RpnStack) : Prop :=
  ∀ k n c c', prog[k]? = some n → rpnRun env call prog k s.state = .ok c → c.grow env = .ok c' →
    OpFits n c'

/-- **An evaluation stays inside of the stack exactly where the counts fit**: `SORT` finds no negative one
that passes the check of the depth, and `PREDICT` finds a negative one only with an element below its
operands. -/
theorem stackSafe_iff (env : RpnEnv) (call : RpnCall) (prog : List RpnNode) (s : RpnStack) :
    StackSafe env call prog s ↔ CountsFit env call prog s := by
  constructor
  · intro hsafe k n c c' hn hrun hgrow
    by_contra hfits
    obtain ⟨t, ht, hunsafe⟩ : ∃ t ∈ (rpnOp env call prog k n c'.start).state.touched, ¬ t.Safe :=
      unsafe_of_not_opFits fun h => hfits ⟨h.sort, h.predict⟩
    refine hunsafe (hsafe t (rpnRun_logs (k := k + 1) ?_ s ?_))
    · exact (List.getElem?_eq_some_iff.mp hn).1
    · rw [rpnRun_succ, hrun, Outcome.ok_andThen, rpnPass, hn]
      simp only [hgrow, Outcome.ok_andThen]
      exact ht
  · intro hfits
    obtain ⟨hsafe, hsound⟩ := rpnRun_inside prog.length fun j n c c' _ => hfits j n c c'
    rw [StackSafe, rpnCalcArray]
    cases hrun : rpnRun env call prog prog.length s.state with
    | fail e c =>
      rw [hrun] at hsafe
      exact hsafe
    | ok c =>
      rw [hrun] at hsafe
      have hs := hsound c hrun
      have hroom := hs.room
      rw [Outcome.ok_andThen, rpnFinish]
      split_ifs with hend
      · exact hsafe
      · intro t ht
        rcases List.mem_cons.mp ht with rfl | ht
        · have hstptr : c.stptr = 0 := not_not.mp hend
          refine ⟨le_refl _, ?_, ?_, hs.known 0 (le_refl _) (by omega)⟩
          · simp only [RpnState.start]
            omega
          · simp only [RpnState.start]
            omega
        · exact hsafe t ht

/-- `1,-1,SORT`: the count is negative, and the check of the depth lets it pass. -/
theorem negative_sort_unsafe :
    ¬ ∀ (env : RpnEnv) (call : RpnCall) (prog : List RpnNode) (s : RpnStack),
      StackSafe env call prog s := by
  intro h
  have hsafe := h ⟨⟨id, id, id, id, id, id, fun a _ => a, .num 0, .num 0⟩, fun _ => 0, fun _ _ => .nan,
      fun _ => true⟩ ⟨0, fun _ => .nan, 0⟩
    [⟨⟨.number, .num 1, 0⟩, 0, 0, 0⟩, ⟨⟨.number, .num (-1), 0⟩, 0, 0, 0⟩, ⟨⟨.sort, .num 0, 0⟩, 0, 0, 0⟩]
    ⟨fun _ => .nan, fun _ => false, 0, fun _ => 0⟩
    (.sort 2 (-1) 100 1 true)
  exact absurd (hsafe (by decide +kernel)) (by decide)

end Rrdtool
