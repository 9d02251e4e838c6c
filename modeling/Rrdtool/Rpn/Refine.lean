import Rrdtool.Graph.Percent
import Rrdtool.Rpn.Depth

/-!
# The calculator on its array and the calculator on a list

`rpnCalc`, which the update works with, keeps the stack as a list; `rpnCalcArray` is `rpn_calc` as it works on
its array, with what earlier evaluations have left there. On the programs of a `COMPUTE` DS they return the
same number, or fail with the same error.

* `Shows` — the list that an array and a stack pointer stand for;
* `refines_op` — one operator, by families;
* `rpnCalcArray_refines` — a whole evaluation.
-/

namespace Rrdtool

open Loop RpnState

/-- **The array shows the list**, from the stack pointer down. What is above does not matter. -/
structure Shows (c : RpnState) (s : List RrdValue) : Prop where
  depth : c.stptr + 1 = s.length
  elem : ∀ k (h : k < s.length), c.cells (c.stptr - k) = s[k]

/-- The same error. -/
def CalcError.toRpn : CalcError → Option RpnError
  | .stackUnderflow => some .stackUnderflow
  | .vdef => some .vdef
  | .malformedTrend => some .malformedTrend
  | .finalStackSize => some .finalStackSize
  | .stackOverflow => none
  | .negativeShift _ => none
  | .divisionByZero => none

/-- **An outcome on the array and one on the list**: the same elements, or the same error. -/
inductive Refines : CalcOutcome → Except RpnError (List RrdValue) → Prop where
  /-- both return -/
  | ok {c : RpnState} {s : List RrdValue} : Shows c s → Refines (.ok c) (.ok s)
  /-- both fail -/
  | fail {e : CalcError} {c : RpnState} {e' : RpnError} : e.toRpn = some e' → Refines (.fail e c) (.error e')

variable {c : RpnState} {s : List RrdValue} {a b x v : RrdValue} {lib : Libm} {output : ℕ → RrdValue} {outputIdx : ℕ}

namespace Shows

/-- The array agrees with the list on a stack pointer and the elements below it. -/
theorem of_agree {c' : RpnState} (h : Shows c s) (hstptr : c'.stptr = c.stptr)
    (hcells : ∀ i ≤ c.stptr, c'.cells i = c.cells i) : Shows c' s where
  depth := by rw [hstptr, h.depth]
  elem k hk := by rw [hstptr, hcells _ (by omega), h.elem k hk]

theorem top (h : Shows c (a :: s)) : c.cells c.stptr = a := by
  have := h.elem 0 (Nat.zero_lt_succ _)
  rwa [Nat.cast_zero, sub_zero] at this

theorem second (h : Shows c (b :: a :: s)) : c.cells (c.stptr - 1) = a :=
  h.elem 1 (by simp)

theorem third (h : Shows c (x :: b :: a :: s)) : c.cells (c.stptr - 2) = a :=
  h.elem 2 (by simp)

/-- What is on top is dropped. -/
theorem drop (h : Shows c s) {n : ℕ} (hn : n ≤ s.length) {c' : RpnState} (hstptr : c'.stptr = c.stptr - n)
    (hcells : ∀ i ≤ c'.stptr, c'.cells i = c.cells i) : Shows c' (s.drop n) where
  depth := by
    have := h.depth
    rw [hstptr, List.length_drop]
    omega
  elem k hk := by
    rw [List.length_drop] at hk
    have hindex : c'.stptr - k = c.stptr - (n + k : ℕ) := by
      rw [hstptr]
      push_cast
      ring
    rw [hcells _ (by omega), hindex, h.elem (n + k) (by omega), List.getElem_drop]

/-- An element is put on top of others. -/
theorem cons {c' : RpnState} (h : Shows c s) (hstptr : c'.stptr = c.stptr + 1)
    (htop : c'.cells c'.stptr = v) (hcells : ∀ i ≤ c.stptr, c'.cells i = c.cells i) : Shows c' (v :: s) where
  depth := by
    have := h.depth
    rw [hstptr, List.length_cons]
    omega
  elem k hk := by
    cases k with
    | zero => rw [Nat.cast_zero, sub_zero, htop, List.getElem_cons_zero]
    | succ k =>
      have hindex : c'.stptr - (k + 1 : ℕ) = c.stptr - k := by
        rw [hstptr]
        push_cast
        ring
      rw [List.length_cons] at hk
      rw [hindex, hcells _ (by omega), h.elem k (by omega), List.getElem_cons_succ]

/-- The list is the only one. -/
theorem eq {t : List RrdValue} (h : Shows c s) (h' : Shows c t) : s = t := by
  have hlen : s.length = t.length := by
    have := h.depth
    have := h'.depth
    omega
  refine List.ext_getElem hlen fun k hk hk' => ?_
  rw [← h.elem k hk, h'.elem k hk']

theorem push (h : Shows c s) (v : RrdValue) : Shows (c.push v) (v :: s) := by
  refine h.cons rfl (Function.update_self ..) fun i hi => ?_
  exact Function.update_of_ne (by omega) ..

/-- The elements on top are replaced by one. -/
theorem replace (h : Shows c s) {n : ℕ} (hn : n ≤ s.length) {c' : RpnState} (hstptr : c'.stptr = c.stptr - n + 1)
    (htop : c'.cells c'.stptr = v) (hcells : ∀ i < c'.stptr, c'.cells i = c.cells i) :
    Shows c' (v :: s.drop n) := by
  have hdrop : Shows { c with stptr := c.stptr - n } (s.drop n) := h.drop hn rfl fun _ _ => rfl
  refine hdrop.cons hstptr htop fun i hi => hcells i ?_
  rw [hstptr]
  exact Int.lt_add_one_iff.mpr hi

end Shows

/-! ## Families -/

theorem refines_underflow {minsize : ℤ} {k : RpnState → CalcOutcome} (h : c.stptr < minsize) :
    Refines (c.need minsize k) (.error .stackUnderflow) := by
  rw [RpnState.need, if_pos h]
  exact .fail rfl

theorem need_of_le {minsize : ℤ} {k : RpnState → CalcOutcome} (h : minsize ≤ c.stptr) : c.need minsize k = k c :=
  if_neg (not_lt.mpr h)

theorem refines_leaf (h : Shows c s) (hv : v = x) : Refines (.ok (c.push v)) (.ok (x :: s)) := hv ▸ .ok (h.push v)

theorem refines_unary (h : Shows c s) (f : RrdValue → RrdValue) : Refines (c.unary f) (rpnUnary f s) := by
  have hdepth := h.depth
  rcases s with _ | ⟨a, s⟩
  · exact refines_underflow (by simp at hdepth; omega)
  · rw [List.length_cons] at hdepth
    rw [unary, need_of_le (by omega), h.top]
    refine .ok (h.replace (n := 1) (by simp) (by simp) (Function.update_self ..) fun i hi => ?_)
    exact Function.update_of_ne (by simp at hi; omega) ..

theorem refines_binary (h : Shows c s) (f : RrdValue → RrdValue → RrdValue) :
    Refines (c.binary f) (rpnBinary f s) := by
  have hdepth := h.depth
  rcases s with _ | ⟨b, _ | ⟨a, s⟩⟩
  · exact refines_underflow (by simp at hdepth; omega)
  · exact refines_underflow (by simp at hdepth; omega)
  · rw [List.length_cons, List.length_cons] at hdepth
    rw [binary, need_of_le (by omega), h.top, h.second]
    refine .ok (h.replace (n := 2) (by simp) ?_ ?_ fun i hi => ?_)
    · simp
      omega
    · exact Function.update_self ..
    · exact Function.update_of_ne (by simp at hi; omega) ..

/-- Replace the three top elements by a function of them. -/
def rpnTernary (f : RrdValue → RrdValue → RrdValue → RrdValue) : List RrdValue → Except RpnError (List RrdValue)
  | x :: b :: a :: s => .ok (f a b x :: s)
  | _ => .error .stackUnderflow

theorem refines_ternary (h : Shows c s) (f : RrdValue → RrdValue → RrdValue → RrdValue) :
    Refines (c.ternary f) (rpnTernary f s) := by
  have hdepth := h.depth
  rcases s with _ | ⟨x, _ | ⟨b, _ | ⟨a, s⟩⟩⟩
  · exact refines_underflow (by simp at hdepth; omega)
  · exact refines_underflow (by simp at hdepth; omega)
  · exact refines_underflow (by simp at hdepth; omega)
  · rw [List.length_cons, List.length_cons, List.length_cons] at hdepth
    rw [ternary, need_of_le (by omega), h.top, h.second, h.third]
    refine .ok (h.replace (n := 3) (by simp) ?_ ?_ fun i hi => ?_)
    · simp
      omega
    · exact Function.update_self ..
    · exact Function.update_of_ne (by simp at hi; omega) ..

theorem refines_dup (h : Shows c s) (ptr : ℕ) : Refines (opDup c) (rpnStep lib output outputIdx ⟨.dup, v, ptr⟩ s) := by
  have hdepth := h.depth
  rcases s with _ | ⟨a, s⟩
  · exact refines_underflow (by simp at hdepth; omega)
  · rw [List.length_cons] at hdepth
    rw [opDup, need_of_le (by omega), h.top]
    refine .ok (h.cons rfl (Function.update_self ..) fun i hi => ?_)
    exact Function.update_of_ne (by simp; omega) ..

theorem refines_pop (h : Shows c s) (ptr : ℕ) :
    Refines (c.need 0 fun c => .ok (c.move (-1))) (rpnStep lib output outputIdx ⟨.pop, v, ptr⟩ s) := by
  have hdepth := h.depth
  rcases s with _ | ⟨a, s⟩
  · exact refines_underflow (by simp at hdepth; omega)
  · rw [List.length_cons] at hdepth
    rw [need_of_le (by omega)]
    exact .ok (h.drop (n := 1) (by simp) rfl fun _ _ => rfl)

/-- Two elements change places. -/
theorem swap_cells (c : RpnState) (p q i : ℤ) :
    ((((c.load q).load p).store q (c.cells p)).store p (c.cells q)).cells i =
      c.cells (if i = p then q else if i = q then p else i) := by
  change Function.update (Function.update c.cells q (c.cells p)) p (c.cells q) i = _
  rw [Function.update_apply, Function.update_apply]
  split_ifs
  · rfl
  · rfl
  · rfl

theorem refines_exc (h : Shows c s) (ptr : ℕ) : Refines (opExc c) (rpnStep lib output outputIdx ⟨.exc, v, ptr⟩ s) := by
  have hdepth := h.depth
  rcases s with _ | ⟨b, _ | ⟨a, s⟩⟩
  · exact refines_underflow (by simp at hdepth; omega)
  · exact refines_underflow (by simp at hdepth; omega)
  · rw [List.length_cons, List.length_cons] at hdepth
    rw [opExc, need_of_le (by omega), h.top, h.second]
    have hswap := swap_cells c (c.stptr - 1) c.stptr
    rw [h.top, h.second] at hswap
    refine .ok ⟨h.depth, fun k hk => ?_⟩
    change ((((c.load c.stptr).load (c.stptr - 1)).store c.stptr a).store (c.stptr - 1) b).cells (c.stptr - k) = _
    rw [hswap]
    rcases k with _ | _ | k
    · rw [Nat.cast_zero, sub_zero, if_neg (by omega), if_pos rfl, h.second]
      rfl
    · rw [if_pos (by simp), h.top]
      rfl
    · rw [if_neg (by push_cast; omega), if_neg (by push_cast; omega)]
      exact h.elem (k + 2) hk

/-! ## Operators that take a count -/

/-- A count that is not negative, as an `int`. -/
theorem cInt_count (hx : 0 ≤ x.toInt intMin) :
    cInt x = x.toInt intMin ∧ x.toInt intMin < 2 ^ 31 ∨ cInt x = -2 ^ 31 ∧ 2 ^ 31 ≤ x.toInt intMin := by
  have hmin : x.toInt (-2 ^ 31) = x.toInt intMin := rfl
  rw [cInt, hmin]
  split_ifs with hrange
  · exact .inl ⟨rfl, hrange.2⟩
  · exact .inr ⟨rfl, by omega⟩

/-- Pop a count, and check it. -/
def rpnCount (r : ℕ → List RrdValue → Except RpnError (List RrdValue)) : List RrdValue → Except RpnError (List RrdValue)
  | x :: t => if (t.length : ℤ) < x.toInt intMin then .error .stackUnderflow else r (x.toInt intMin).toNat t
  | [] => .error .stackUnderflow

/-- **A count is popped**, and checked against the depth. -/
theorem refines_count (h : Shows c s) (hlen : s.length ≤ 2 ^ 31) (hcount : ∀ x ∈ s.head?, 0 ≤ x.toInt intMin)
    {k : ℤ → RpnState → CalcOutcome} {r : ℕ → List RrdValue → Except RpnError (List RrdValue)}
    (hk : ∀ c x t (n : ℕ), s = x :: t → x.toInt intMin = n → Shows c t → n ≤ t.length → Refines (k n c) (r n t)) :
    Refines (c.need 0 fun c => ((c.load c.stptr).move (-1)).need (wrapInt (cInt (c.cells c.stptr) - 1))
      (k (cInt (c.cells c.stptr))))
      (rpnCount r s) := by
  have hdepth := h.depth
  rcases s with _ | ⟨x, t⟩
  · exact refines_underflow (by simp at hdepth; omega)
  rw [List.length_cons] at hdepth hlen
  rw [need_of_le (by omega), h.top]
  have hx := hcount x rfl
  have hshows : Shows ((c.load c.stptr).move (-1)) t := h.drop (n := 1) (by simp) rfl fun _ _ => rfl
  have hstptr : ((c.load c.stptr).move (-1)).stptr = c.stptr - 1 := rfl
  generalize (c.load c.stptr).move (-1) = c₁ at hshows hstptr ⊢
  rcases cInt_count hx with ⟨heq, hlt⟩ | ⟨heq, hle⟩
  · rw [heq, wrapInt_of_range (by omega) (by omega), rpnCount]
    by_cases hshort : (t.length : ℤ) < x.toInt intMin
    · rw [if_pos hshort]
      exact refines_underflow (by omega)
    · rw [if_neg hshort, need_of_le (by omega)]
      obtain ⟨n, hn⟩ := Int.eq_ofNat_of_zero_le hx
      rw [hn, Int.toNat_natCast]
      exact hk c₁ x t n rfl hn hshows (by omega)
  · have hwrap : wrapInt (-2 ^ 31 - 1) = 2 ^ 31 - 1 := by decide
    rw [heq, hwrap, rpnCount, if_pos (by omega)]
    exact refines_underflow (by omega)

theorem revLoop_cells (fuel : ℕ) (p q : ℤ) (c : RpnState) (hfuel : q - p ≤ fuel) (i : ℤ) :
    (revLoop fuel p q c).cells i = c.cells (if p ≤ i ∧ i ≤ q then p + q - i else i) := by
  induction fuel generalizing p q c with
  | zero =>
    rw [revLoop]
    split_ifs with hi
    · congr 1
      omega
    · rfl
  | succ fuel ih =>
    rw [revLoop]
    by_cases hpq : p < q
    · rw [if_pos hpq, ih _ _ _ (by push_cast at hfuel; omega), swap_cells]
      by_cases hin : p + 1 ≤ i ∧ i ≤ q - 1
      · have hsum : p + 1 + (q - 1) - i = p + q - i := by ring
        rw [if_pos hin, hsum, if_neg (by omega), if_neg (by omega), if_pos (by omega)]
      · rw [if_neg hin]
        by_cases hip : i = p
        · rw [if_pos hip, if_pos (by omega), hip, add_sub_cancel_left]
        · rw [if_neg hip]
          by_cases hiq : i = q
          · rw [if_pos hiq, if_pos (by omega), hiq, add_sub_cancel_right]
          · rw [if_neg hiq, if_neg (by omega)]
    · rw [if_neg hpq]
      split_ifs with hi
      · congr 1
        omega
      · rfl

theorem revLoop_stptr (fuel : ℕ) (p q : ℤ) (c : RpnState) : (revLoop fuel p q c).stptr = c.stptr := by
  induction fuel generalizing p q c with
  | zero => rfl
  | succ fuel ih =>
    rw [revLoop]
    split_ifs
    · exact ih ..
    · rfl

/-- `REV` -/
theorem refines_rev {n : ℕ} (h : Shows c s) (hn : n ≤ s.length) :
    Refines (.ok (revLoop n (c.stptr - n + 1) c.stptr c)) (.ok ((s.take n).reverse ++ s.drop n)) := by
  have hdepth := h.depth
  refine .ok ⟨?_, fun k hk => ?_⟩
  · rw [revLoop_stptr, hdepth, List.length_append, List.length_reverse, ← List.length_append,
      List.take_append_drop]
  · rw [revLoop_stptr, revLoop_cells _ _ _ _ (by omega)]
    by_cases hkn : k < n
    · have hindex : c.stptr - n + 1 + c.stptr - (c.stptr - k) = c.stptr - (n - 1 - k : ℕ) := by omega
      rw [if_pos (by omega), hindex, h.elem (n - 1 - k) (by omega), List.getElem_append_left (by simp; omega),
        List.getElem_reverse, List.getElem_take]
      congr 1
      rw [List.length_take, min_eq_left hn]
    · rw [List.length_append, List.length_reverse, List.length_take, List.length_drop, min_eq_left hn] at hk
      rw [if_neg (by omega), h.elem k (by omega), List.getElem_append_right (by simp; omega), List.getElem_drop]
      congr 1
      rw [List.length_reverse, List.length_take, min_eq_left hn]
      omega

/-- The values that an `AVG` adds up, and their number. -/
def avgSum (l : List RrdValue) : RrdValue × ℕ :=
  ((l.filter fun x => !x.isnan).foldl (fun sum x => sum + x) (.num 0), (l.filter fun x => !x.isnan).length)

theorem avgSum_concat (l : List RrdValue) (v : RrdValue) :
    avgSum (l ++ [v]) = if v.isnan then avgSum l else ((avgSum l).1 + v, (avgSum l).2 + 1) := by
  rw [avgSum, List.filter_append, List.foldl_append, List.length_append, avgSum]
  by_cases hv : v.isnan = true
  · rw [if_pos hv, List.filter_cons_of_neg (by simp [hv])]
    rfl
  · rw [if_neg hv, List.filter_cons_of_pos (by simp [hv])]
    rfl

theorem avgLoop {n : ℕ} (h : Shows c s) (hn : n ≤ s.length) :
    Shows (forLoop n (fun _ s => avgPass s) (c, .num 0, 0)).1 (s.drop n) ∧
      (forLoop n (fun _ s => avgPass s) (c, .num 0, 0)).2 = avgSum (s.take n) := by
  have hinv := @forLoop_invariant _ n (fun _ s => avgPass s) (c, .num 0, 0)
    (fun i t => i ≤ n → t.1.stptr = c.stptr - i ∧ t.1.cells = c.cells ∧ t.2 = avgSum (s.take i))
    (fun _ => ⟨(sub_zero _).symm, rfl, rfl⟩) ?_
  · obtain ⟨hstptr, hcells, hsum⟩ := hinv le_rfl
    exact ⟨h.drop hn hstptr fun i _ => by rw [hcells], hsum⟩
  · intro i t hi ih hle
    obtain ⟨hstptr, hcells, hsum⟩ := ih (by omega)
    have hval : t.1.cells t.1.stptr = s[i] := by rw [hcells, hstptr, h.elem i (by omega)]
    have hmove : t.1.stptr + -1 = c.stptr - (i + 1 : ℕ) := by
      rw [hstptr]
      push_cast
      ring
    rw [List.take_add_one, List.getElem?_eq_getElem (by omega), Option.toList_some, avgSum_concat, ← hsum, ← hval,
      avgPass]
    split_ifs
    · exact ⟨hmove, hcells, rfl⟩
    · exact ⟨hmove, hcells, rfl⟩

/-- `AVG` -/
theorem refines_avg {n : ℕ} (h : Shows c s) (hn : n ≤ s.length) :
    let t := forLoop n (fun _ s => avgPass s) (c, .num 0, 0)
    Refines (.ok (t.1.push (if 0 < t.2.2 then t.2.1 / Dbl.ofNat t.2.2 else dnan)))
      (.ok (rpnAvg (s.take n) :: s.drop n)) := by
  intro t
  obtain ⟨hshows, hsum⟩ := avgLoop h hn
  have hvalue : (if 0 < t.2.2 then t.2.1 / Dbl.ofNat t.2.2 else dnan) = rpnAvg (s.take n) := by
    rw [hsum, rpnAvg, avgSum]
    split_ifs with hpos hzero hzero
    · omega
    · rfl
    · rfl
    · omega
  rw [hvalue]
  exact .ok (hshows.push _)

theorem rpnSortLe_eq (ha : a.isnan = false) (hb : b.isnan = false) : rpnSortLe a b = decide (NotAfter a b) := by
  cases a with
  | nan => exact absurd ha (by decide)
  | neginf => cases b <;> first | exact absurd hb (by decide) | rfl
  | inf => cases b <;> first | exact absurd hb (by decide) | rfl
  | num p =>
    cases b with
    | nan => exact absurd hb (by decide)
    | neginf => rfl
    | inf => rfl
    | num q => simp [rpnSortLe, NotAfter, ← not_le]

/-- Which way round the values are does not matter to a sorting function, unless one is NaN. -/
theorem mergeSort_reverse {l : List RrdValue} (hl : ∀ a ∈ l, a.isnan = false) :
    l.reverse.mergeSort rpnSortLe = l.mergeSort rpnSortLe := by
  have hswap (m : List RrdValue) (hm : ∀ a ∈ m, a.isnan = false) :
      m.mergeSort rpnSortLe = m.mergeSort fun a b => decide (NotAfter a b) := by
    have hmap := List.map_mergeSort (f := id) (r := rpnSortLe) (s := fun a b => decide (NotAfter a b)) (l := m)
      fun a ha b hb => rpnSortLe_eq (hm a ha) (hm b hb)
    rwa [List.map_id, List.map_id] at hmap
  have hsorted (m : List RrdValue) :
      (m.mergeSort fun a b => decide (NotAfter a b)).Pairwise fun a b => decide (NotAfter a b) := by
    refine List.pairwise_mergeSort (fun a b x hab hbx => ?_) (fun a b => ?_) m
    · exact decide_eq_true (trans_of NotAfter (of_decide_eq_true hab) (of_decide_eq_true hbx))
    · simpa using total_of NotAfter a b
  rw [hswap l hl, hswap l.reverse fun a ha => hl a (List.mem_reverse.mp ha)]
  refine List.Perm.eq_of_pairwise (fun a b _ _ hab hba => ?_) (hsorted _) (hsorted _) ?_
  · exact antisymm_of NotAfter (of_decide_eq_true hab) (of_decide_eq_true hba)
  · exact (List.mergeSort_perm _ _).trans ((List.reverse_perm l).trans (List.mergeSort_perm _ _).symm)

theorem block_eq (c : RpnState) (base : ℤ) (n : ℕ) :
    c.block base n = (List.range n).map fun k : ℕ => c.cells (base + k) := by
  have hcast : (do let k ← List.range n; pure (k : ℤ)) = (List.range n).map fun k : ℕ => (k : ℤ) :=
    List.map_eq_flatMap.symm
  rw [block, hcast, List.map_map]
  rfl

/-- `qsort` is called. -/
def RpnState.logSort (c : RpnState) (spn : ℤ) : RpnState :=
  let known := (List.range spn.toNat).all fun k => c.known (c.stptr - spn + 1 + k)
  { c with touched := .sort (c.stptr - spn + 1) spn c.size c.top known :: c.touched }

/-- `SORT` of values that are not NaN -/
theorem refines_sort {n : ℕ} (h : Shows c s) (hn : n ≤ s.length) (hknown : ∀ a ∈ s.take n, a.isnan = false) :
    Refines (.ok ((c.logSort n).storeBlock (c.stptr - n + 1)
        (((c.logSort n).block (c.stptr - n + 1) n).mergeSort rpnSortLe)))
      (.ok (((s.take n).mergeSort rpnSortLe).reverse ++ s.drop n)) := by
  have hdepth := h.depth
  have hblock : (c.logSort n).block (c.stptr - n + 1) n = (s.take n).reverse := by
    have hcells : (c.logSort n).block (c.stptr - n + 1) n = c.block (c.stptr - n + 1) n := rfl
    rw [hcells, block_eq]
    refine List.ext_getElem (by simp [hn]) fun k hk hk' => ?_
    rw [List.length_map, List.length_range] at hk
    have hindex : c.stptr - n + 1 + k = c.stptr - (n - 1 - k : ℕ) := by omega
    rw [List.getElem_map, List.getElem_range, hindex, h.elem (n - 1 - k) (by omega), List.getElem_reverse,
      List.getElem_take]
    congr 1
    rw [List.length_take, min_eq_left hn]
  rw [hblock, mergeSort_reverse hknown]
  have hlen : ((s.take n).mergeSort rpnSortLe).length = n := by
    rw [List.length_mergeSort, List.length_take, min_eq_left hn]
  generalize (s.take n).mergeSort rpnSortLe = vs at hlen
  refine .ok ⟨?_, fun k hk => ?_⟩
  · change c.stptr + 1 = _
    rw [hdepth, List.length_append, List.length_reverse, List.length_drop]
    omega
  · rw [List.length_append, List.length_reverse, List.length_drop] at hk
    change (if c.stptr - n + 1 ≤ c.stptr - k then vs.getD (c.stptr - k - (c.stptr - n + 1)).toNat (c.cells (c.stptr - k))
      else c.cells (c.stptr - k)) = _
    by_cases hkn : k < n
    · have hindex : (c.stptr - k - (c.stptr - n + 1)).toNat = n - 1 - k := by omega
      rw [if_pos (by omega), hindex, List.getD_eq_getElem?_getD, List.getElem?_eq_getElem (by omega), Option.getD_some, List.getElem_append_left (by simp; omega),
        List.getElem_reverse]
      congr 1
      omega
    · rw [if_neg (by omega), h.elem k (by omega), List.getElem_append_right (by simp; omega), List.getElem_drop]
      congr 1
      rw [List.length_reverse]
      omega

/-! ## Evaluations -/

/-- **A step that the list can follow**: a count is not negative, and `SORT` is not given a NaN. -/
structure Orderly (n : Rpnp) (s : List RrdValue) : Prop where
  count : n.op = .sort ∨ n.op = .rev ∨ n.op = .avg → ∀ x ∈ s.head?, 0 ≤ x.toInt intMin
  known : n.op = .sort → ∀ x ∈ s.head?, ∀ a ∈ s.tail.take (x.toInt intMin).toNat, a.isnan = false

/-- The operators that look at the data of a variable. -/
def Op.looksBack : Op → Bool
  | .trend | .trendnan | .predict | .predictsigma => true
  | _ => false

/-- What both calculators are given. -/
structure SameCall (env : RpnEnv) (call : RpnCall) (lib : Libm) (output : ℕ → RrdValue) (outputIdx : ℕ) : Prop where
  libm : env.libm = lib
  dataIdx : call.dataIdx = 0
  ltime : lib.tzoffset = .num (env.tzoffset 0 : ℤ)
  output : call.output = output
  outputIdx : call.outputIdx = outputIdx

variable {env : RpnEnv} {call : RpnCall}

/-- **An operator with operands**, of a number that it does not take from the stack. -/
theorem refines_plain {prog : List RpnNode} {rpi : ℕ} {n : RpnNode} (hoperands : n.op.operands ≠ 0)
    (hfixed : n.op.fixedArity = true) (hback : n.op.looksBack = false) (h : Shows c s) :
    Refines (rpnOp env call prog rpi n c) (rpnStep env.libm output outputIdx n.toRpnp s) := by
  obtain ⟨⟨op, val, ptr⟩, arr, dsCnt, step⟩ := n
  cases op with
  | sin | cos | log | exp | sqrt | atan | rad2deg | deg2rad | floor | ceil | abs => exact refines_unary h _
  | un => exact refines_unary h fun a => if a.isnan then .num 1 else .num 0
  | isinf => exact refines_unary h fun a => if a.isinf then .num 1 else .num 0
  | add | addnan | sub | mul | div | mod | atan2 | lt | le | gt | ge | ne | eq | min | max =>
    exact refines_binary h _
  | cond =>
    have hop := refines_ternary h fun x a b => if x.isnan || x.eq (.num 0) then b else a
    rcases s with _ | ⟨x, _ | ⟨b, _ | ⟨a, s⟩⟩⟩
    all_goals exact hop
  | limit =>
    have hop := refines_ternary h rpnLimit
    rcases s with _ | ⟨x, _ | ⟨b, _ | ⟨a, s⟩⟩⟩
    all_goals exact hop
  | dup => exact refines_dup h ptr
  | pop => exact refines_pop h ptr
  | exc => exact refines_exc h ptr
  | sort | rev | avg => exact (Bool.noConfusion hfixed)
  | trend | trendnan | predict | predictsigma => exact (Bool.noConfusion hback)
  | number | «variable» | prevOther | count | prev | unkn | inf | neginf | now | time | ltime =>
    exact absurd rfl hoperands

/-- **One operator.** -/
theorem refines_op (hcall : SameCall env call lib output outputIdx) {prog : List RpnNode} {rpi : ℕ} {n : RpnNode}
    (hdata : n.dsCnt = 0) (hback : n.op.looksBack = false) (horder : Orderly n.toRpnp s) (hlen : s.length ≤ 2 ^ 31)
    (h : Shows c s) : Refines (rpnOp env call prog rpi n c) (rpnStep lib output outputIdx n.toRpnp s) := by
  obtain ⟨rfl, hidx, hltime, rfl, hout⟩ := hcall
  obtain ⟨⟨op, val, ptr⟩, arr, dsCnt, step⟩ := n
  dsimp only at hdata hback
  subst hdata
  cases op with
  | number | unkn | inf | neginf | now => exact .ok (h.push _)
  | «variable» | prevOther => exact .fail rfl
  | count =>
    have hvalue : (.num (call.outputIdx + 1 : ℤ) : RrdValue) = Dbl.ofNat (outputIdx + 1) := by
      rw [hout, Dbl.ofNat]
      push_cast
      rfl
    exact refines_leaf h hvalue
  | prev =>
    have hvalue : (if call.outputIdx ≤ 0 then dnan else call.output (call.outputIdx - 1).toNat) =
        if outputIdx = 0 then dnan else call.output (outputIdx - 1) := by
      rw [hout]
      by_cases hzero : outputIdx = 0
      · rw [if_pos (by omega), if_pos hzero]
      · rw [if_neg (by omega), if_neg hzero]
        congr 1
        omega
    exact refines_leaf h hvalue
  | time =>
    have hvalue : (.num (call.dataIdx : ℤ) : RrdValue) = .num 0 := by
      rw [hidx]
      rfl
    exact refines_leaf h hvalue
  | ltime =>
    have hvalue : (.num (env.tzoffset call.dataIdx : ℤ) + .num (call.dataIdx : ℤ) : RrdValue) =
        env.libm.tzoffset + .num 0 := by
      rw [hidx, hltime]
      rfl
    exact refines_leaf h hvalue
  | sin | cos | log | exp | sqrt | atan | rad2deg | deg2rad | floor | ceil | abs | un | isinf =>
    exact refines_plain (Nat.succ_ne_zero _) rfl rfl h
  | add | addnan | sub | mul | div | mod | atan2 | lt | le | gt | ge | ne | eq | min | max =>
    exact refines_plain (Nat.succ_ne_zero _) rfl rfl h
  | cond | limit | dup | pop | exc => exact refines_plain (Nat.succ_ne_zero _) rfl rfl h
  | sort =>
    have hop := refines_count h hlen (horder.count (.inl rfl))
      (k := fun spn c => .ok (((c.logSort spn).storeBlock (c.stptr - spn + 1)
        (((c.logSort spn).block (c.stptr - spn + 1) spn.toNat).mergeSort rpnSortLe))))
      (r := fun n t => .ok (((t.take n).mergeSort rpnSortLe).reverse ++ t.drop n))
      fun c x t n hs hn h hle => refines_sort h hle ?_
    · rcases s with _ | ⟨x, t⟩
      · exact hop
      · have hsign : ¬ x.toInt intMin < 0 := not_lt.mpr (horder.count (.inl rfl) x rfl)
        have hlist : rpnStep env.libm call.output outputIdx ⟨.sort, val, ptr⟩ (x :: t) =
            rpnCount (fun n t => .ok (((t.take n).mergeSort rpnSortLe).reverse ++ t.drop n)) (x :: t) := by
          rw [rpnStep, rpnCount]
          simp only [if_neg hsign]
        exact hlist ▸ hop
    · subst hs
      have hknown := horder.known rfl x rfl
      rwa [hn, Int.toNat_natCast] at hknown
  | rev =>
    have hop := refines_count h hlen (horder.count (.inr (.inl rfl)))
      (k := fun spn c => .ok (revLoop spn.toNat (c.stptr - spn + 1) c.stptr c))
      (r := fun n t => .ok ((t.take n).reverse ++ t.drop n)) fun c x t n _ _ h hn => refines_rev h hn
    rcases s with _ | ⟨x, t⟩
    · exact hop
    · exact hop
  | avg =>
    have hop := refines_count h hlen (horder.count (.inr (.inr rfl)))
      (k := fun spn c =>
        let s := forLoop spn.toNat (fun _ s => avgPass s) (c, .num 0, 0)
        .ok (s.1.push (if 0 < s.2.2 then s.2.1 / Dbl.ofNat s.2.2 else dnan)))
      (r := fun n t => .ok (rpnAvg (t.take n) :: t.drop n)) fun c x t n _ _ h hn => refines_avg h hn
    rcases s with _ | ⟨x, t⟩
    · exact hop
    · exact hop
  | trend | trendnan | predict | predictsigma => exact (Bool.noConfusion hback)

/-- The nodes one after the other, on a list. -/
def rpnSteps (lib : Libm) (output : ℕ → RrdValue) (outputIdx : ℕ) :
    List Rpnp → List RrdValue → Except RpnError (List RrdValue)
  | [], s => .ok s
  | n :: prog, s => (rpnStep lib output outputIdx n s).bind (rpnSteps lib output outputIdx prog)

/-- The end of an evaluation on a list: one element has to be left. -/
def rpnResult : List RrdValue → Except RpnError RrdValue
  | [v] => .ok v
  | _ => .error .finalStackSize

/-- Whether one element is left, the stack pointer says. -/
theorem Shows.finish (h : Shows c s) :
    (∃ v, s = [v] ∧ c.stptr = 0 ∧ c.cells 0 = v) ∨ rpnResult s = .error .finalStackSize ∧ c.stptr ≠ 0 := by
  have hdepth := h.depth
  rcases s with _ | ⟨v, _ | ⟨w, s⟩⟩
  · exact .inr ⟨rfl, by simp at hdepth; omega⟩
  · have hstptr : c.stptr = 0 := by
      simp at hdepth
      omega
    exact .inl ⟨v, rfl, hstptr, hstptr ▸ h.top⟩
  · exact .inr ⟨rfl, by simp at hdepth; omega⟩

theorem rpnCalc_eq (prog : List Rpnp) (s : List RrdValue) :
    rpnCalc lib output outputIdx prog s = (rpnSteps lib output outputIdx prog s).bind rpnResult := by
  induction prog generalizing s with
  | nil =>
    rcases s with _ | ⟨a, _ | ⟨b, s⟩⟩
    · rfl
    · rfl
    · rfl
  | cons n prog ih =>
    rw [rpnCalc, rpnSteps]
    cases rpnStep lib output outputIdx n s with
    | error e => rfl
    | ok t => exact ih t

theorem rpnSteps_concat (prog : List Rpnp) (n : Rpnp) (s : List RrdValue) :
    rpnSteps lib output outputIdx (prog ++ [n]) s =
      (rpnSteps lib output outputIdx prog s).bind (rpnStep lib output outputIdx n) := by
  induction prog generalizing s with
  | nil =>
    change (rpnStep lib output outputIdx n s).bind _ = rpnStep lib output outputIdx n s
    cases rpnStep lib output outputIdx n s with
    | error e => rfl
    | ok t => rfl
  | cons m prog ih =>
    rw [List.cons_append, rpnSteps, rpnSteps]
    cases rpnStep lib output outputIdx m s with
    | error e => rfl
    | ok t => exact ih t

theorem rpnUnary_length {f : RrdValue → RrdValue} {t : List RrdValue} (h : rpnUnary f s = .ok t) :
    t.length ≤ s.length + 1 := by
  rcases s with _ | ⟨a, s⟩
  · exact absurd h (by simp [rpnUnary])
  · obtain rfl := Except.ok.inj h
    simp

theorem rpnBinary_length {f : RrdValue → RrdValue → RrdValue} {t : List RrdValue} (h : rpnBinary f s = .ok t) :
    t.length ≤ s.length + 1 := by
  rcases s with _ | ⟨b, _ | ⟨a, s⟩⟩
  · exact absurd h (by simp [rpnBinary])
  · exact absurd h (by simp [rpnBinary])
  · obtain rfl := Except.ok.inj h
    simp

/-- An operator leaves at most one element more. -/
theorem rpnStep_length {n : Rpnp} {t : List RrdValue} (h : rpnStep lib output outputIdx n s = .ok t) :
    t.length ≤ s.length + 1 := by
  obtain ⟨op, val, ptr⟩ := n
  cases op with
  | number | count | prev | unkn | inf | neginf | now | time | ltime =>
    obtain rfl := Except.ok.inj h
    exact le_rfl
  | sin | cos | log | exp | sqrt | atan | rad2deg | deg2rad | floor | ceil | abs | un | isinf =>
    exact rpnUnary_length h
  | add | addnan | sub | mul | div | mod | atan2 | lt | le | gt | ge | ne | eq | min | max =>
    exact rpnBinary_length h
  | cond | limit =>
    rcases s with _ | ⟨b, _ | ⟨a, _ | ⟨x, s⟩⟩⟩
    · cases h
    · cases h
    · cases h
    · obtain rfl := Except.ok.inj h
      simp only [List.length_cons]
      omega
  | dup | pop =>
    rcases s with _ | ⟨a, s⟩
    · cases h
    · obtain rfl := Except.ok.inj h
      simp only [List.length_cons]
      omega
  | exc =>
    rcases s with _ | ⟨b, _ | ⟨a, s⟩⟩
    · cases h
    · cases h
    · obtain rfl := Except.ok.inj h
      exact Nat.le_succ _
  | sort | rev | avg =>
    rcases s with _ | ⟨x, s⟩
    · cases h
    · rw [rpnStep] at h
      dsimp only at h
      split_ifs at h
      obtain rfl := Except.ok.inj h
      simp
      try omega
  | «variable» | prevOther | trend | trendnan | predict | predictsigma => cases h

/-- **A run that the list can follow.** -/
def OrderlyRun (lib : Libm) (output : ℕ → RrdValue) (outputIdx : ℕ) (prog : List Rpnp) : Prop :=
  ∀ k n s, prog[k]? = some n → rpnSteps lib output outputIdx (prog.take k) [] = .ok s → Orderly n s

/-- Without counts, every run is. -/
theorem orderlyRun_of_fixedArity {prog : List Rpnp} (hfixed : ∀ n ∈ prog, n.op.fixedArity = true) :
    OrderlyRun lib output outputIdx prog := by
  intro k n s hn _
  have hop := hfixed n (List.mem_of_getElem? hn)
  refine ⟨?_, fun hsort => ?_⟩
  · rintro (hcount | hcount | hcount)
    all_goals
      rw [hcount] at hop
      exact (Bool.false_ne_true hop).elim
  · rw [hsort] at hop
    exact (Bool.false_ne_true hop).elim

section Run

variable {prog : List RpnNode} (hcall : SameCall env call lib output outputIdx) (hmem : ∀ m, env.realloc m = true)
  (hdata : ∀ n ∈ prog, n.dsCnt = 0) (hback : ∀ n ∈ prog, n.op.looksBack = false) (hlen : prog.length ≤ 2 ^ 31)
  (horder : OrderlyRun lib output outputIdx (prog.map RpnNode.toRpnp))

include hcall hmem hdata hback hlen horder

/-- **The first nodes.** The stack never has more elements than nodes have been evaluated. -/
theorem refines_run (st : RpnStack) {k : ℕ} (hk : k ≤ prog.length) :
    Refines (rpnRun env call prog k st.state)
      (rpnSteps lib output outputIdx ((prog.map RpnNode.toRpnp).take k) []) ∧
    ∀ s, rpnSteps lib output outputIdx ((prog.map RpnNode.toRpnp).take k) [] = .ok s → s.length ≤ k := by
  induction k with
  | zero =>
    refine ⟨.ok ⟨rfl, fun k hk => absurd hk (Nat.not_lt_zero k)⟩, fun s hs => ?_⟩
    obtain rfl := Except.ok.inj hs
    exact Nat.zero_le _
  | succ k ih =>
    obtain ⟨hrun, hshort⟩ := ih (by omega)
    have hn : prog[k]? = some prog[k] := List.getElem?_eq_getElem hk
    have hn' : (prog.map RpnNode.toRpnp)[k]? = some prog[k].toRpnp := by rw [List.getElem?_map, hn]; rfl
    have hmemk : prog[k] ∈ prog := List.getElem_mem hk
    rw [List.take_add_one, hn', Option.toList_some, rpnSteps_concat, rpnRun_succ]
    generalize hsteps : rpnSteps lib output outputIdx ((prog.map RpnNode.toRpnp).take k) [] = steps at hrun hshort ⊢
    generalize rpnRun env call prog k st.state = o at hrun ⊢
    cases hrun with
    | fail he => exact ⟨.fail he, nofun⟩
    | @ok c s hshows =>
      have hs := hshort s rfl
      obtain ⟨c₁, hgrow, -⟩ := grow_depth hmem c
      obtain ⟨size, rfl⟩ := grow_eq_ok hgrow
      have hshows' : Shows ({ c with size := size } : RpnState).start s := hshows.of_agree rfl fun _ _ => rfl
      have hop : Refines (rpnOp env call prog k prog[k] ({ c with size := size } : RpnState).start) _ :=
        refines_op hcall (hdata _ hmemk) (hback _ hmemk) (horder k _ s hn' hsteps) (by omega) hshows'
      refine ⟨?_, fun t ht => (rpnStep_length ht).trans (Nat.succ_le_succ hs)⟩
      rw [Outcome.ok_andThen, rpnPass, hn]
      simp only [hgrow, Outcome.ok_andThen]
      exact hop

/-- **`rpn_calc` on its array does what the calculator on a list does**: the same number, or the same error. -/
theorem rpnCalcArray_refines (st : RpnStack) :
    (∀ v, rpnCalc lib output outputIdx (prog.map RpnNode.toRpnp) [] = .ok v ↔
      ∃ c, rpnCalcArray env call prog st = .ok c ∧ c.cells 0 = v) ∧
    ∀ e, rpnCalc lib output outputIdx (prog.map RpnNode.toRpnp) [] = .error e ↔
      ∃ e' c, rpnCalcArray env call prog st = .fail e' c ∧ e'.toRpn = some e := by
  have hrun := (refines_run hcall hmem hdata hback hlen horder st le_rfl).1
  rw [List.take_of_length_le (by simp)] at hrun
  rw [rpnCalc_eq, rpnCalcArray]
  generalize rpnSteps lib output outputIdx (prog.map RpnNode.toRpnp) [] = steps at hrun
  generalize rpnRun env call prog prog.length st.state = o at hrun
  cases hrun with
  | @fail e c e' he =>
    constructor
    · intro v
      constructor
      · intro h
        cases h
      · rintro ⟨_, h, _⟩
        cases h
    · intro e₁
      constructor
      · intro h
        cases h
        exact ⟨e, c, rfl, he⟩
      · rintro ⟨_, _, h, h'⟩
        cases h
        obtain rfl := Option.some.inj (he.symm.trans h')
        rfl
  | @ok c s hshows =>
    rw [Outcome.ok_andThen, rpnFinish]
    rcases hshows.finish with ⟨w, rfl, hstptr, hw⟩ | ⟨hresult, hstptr⟩
    · rw [if_neg (not_not.mpr hstptr)]
      constructor
      · intro v
        constructor
        · intro h
          cases h
          exact ⟨_, rfl, hw⟩
        · rintro ⟨_, h, rfl⟩
          cases h
          exact congrArg Except.ok hw.symm
      · intro e
        constructor
        · intro h
          cases h
        · rintro ⟨_, _, h, -⟩
          cases h
    · rw [if_pos hstptr]
      change (∀ v, rpnResult s = .ok v ↔ _) ∧ ∀ e, rpnResult s = .error e ↔ _
      rw [hresult]
      constructor
      · intro v
        constructor
        · intro h
          cases h
        · rintro ⟨_, h, _⟩
          cases h
      · intro e
        constructor
        · intro h
          cases h
          exact ⟨_, c, rfl, rfl⟩
        · rintro ⟨_, _, h, h'⟩
          cases h
          exact congrArg Except.error (Option.some.inj h')

end Run

/-- `3,4,2,REV,-` is `4,3,-`. -/
theorem rpnCalcArray_refines_rev :
    let env : RpnEnv := ⟨⟨id, id, id, id, id, id, fun a _ => a, .num 0, .num 0⟩, fun _ => 0, fun _ _ => .nan,
      fun _ => true⟩
    let number (v : RrdValue) : RpnNode := ⟨⟨.number, v, 0⟩, 0, 0, 0⟩
    let prog := [number (.num 3), number (.num 4), number (.num 2), ⟨⟨.rev, .num 0, 0⟩, 0, 0, 0⟩,
      ⟨⟨.sub, .num 0, 0⟩, 0, 0, 0⟩]
    ∃ c, rpnCalcArray env ⟨0, fun _ => .nan, 0⟩ prog ⟨fun _ => .nan, fun _ => false, 0, fun _ => 0⟩ = .ok c ∧
      c.cells 0 = .num 1 := by
  intro env number prog
  have hcall : SameCall env ⟨0, fun _ => .nan, 0⟩ env.libm (fun _ => .nan) 0 := ⟨rfl, rfl, rfl, rfl, rfl⟩
  refine ((rpnCalcArray_refines hcall (fun _ => rfl) ?_ ?_ (by decide) ?_ _).1 _).mp (by decide +kernel)
  · simp [prog, number]
  · simp [prog, number, Op.looksBack]
  · intro k n s hn hs
    rcases k with _ | _ | _ | _ | _ | k
    · cases hn
      exact ⟨by simp [number], by simp [number]⟩
    · cases hn
      exact ⟨by simp [number], by simp [number]⟩
    · cases hn
      exact ⟨by simp [number], by simp [number]⟩
    · cases hn
      obtain rfl := Except.ok.inj hs
      refine ⟨fun _ x hx => ?_, fun h => absurd h (by decide)⟩
      obtain rfl := Option.some.inj hx
      decide
    · cases hn
      exact ⟨by simp, by simp⟩
    · cases hn

end Rrdtool
