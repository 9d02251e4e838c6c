import Rrdtool.Counter
import Rrdtool.Lib.Scan
import Mathlib.Data.List.GetD
import Mathlib.Tactic.IntervalCases

/-!
# The buffer of `rrd_diff`

`rrd_diff` subtracts in an array of 31 characters, from the right to the left. Two blanks stand in front of the digits,
and the terminator behind them, so the longest operand that fits has two digits less than the check lets pass.

* `rrdDiffMem` — the code, on the array;
* `passes_spec`, `negLoop_spec` — the passes are those of `diffDigits` and `diffComplement`;
* `rrdDiffMem_exact` — the difference is exact, and the one of `rrdDiff`;
* `rrdDiffMem_inside_iff` — the writes are inside of the array where no operand has more than 28 digits.
-/

namespace Rrdtool

open Loop

/-! ## The code -/

/-- `res`, and the places that have been written, the last one first. A character is its code. -/
structure DiffRes : Type where
  /-- the characters -/
  cells : ℤ → ℤ
  /-- the writes -/
  writes : List ℤ

/-- `res[i] = x` -/
def DiffRes.put (s : DiffRes) (i x : ℤ) : DiffRes := ⟨Function.update s.cells i x, i :: s.writes⟩

/-- Blanks up to `r1 = &res[m + 1]`, and `r1[1] = 0`. -/
def diffFill (m : ℕ) (s : DiffRes) : DiffRes := (forLoop (m + 2) (fun i s => s.put i 32) s).put (m + 2) 0

/-- The character `x` places in front of the last one, if there is one. -/
def fromEnd (a : Text) (x : ℕ) : Option ℤ := a.reverse[x]?.map fun c => (c.toNat : ℤ)

/-- The digit of a pass, where a character is missing in one of the operands or in none. -/
def diffDigit (a b : Text) (x : ℕ) (c : ℤ) : ℤ :=
  match fromEnd a x, fromEnd b x with
  | some a1, some b1 => ((a1 - c) - b1) + 48
  | some a1, none => a1 - c
  | none, b1 => (48 - b1.getD 48 - c) + 48

/-- One pass of the subtraction, with `c`. -/
def diffPass (a b : Text) (m x : ℕ) (s : DiffRes × ℤ) : DiffRes × ℤ :=
  let r1 : ℤ := m + 1 - x
  let digit := diffDigit a b x s.2
  let res := s.1.put r1 digit
  if digit < 48 then (res.put r1 (digit + 10), 1)
  else if 57 < digit then (res.put r1 (digit - 10), 1)
  else (res, 0)

/-- The loop behind a final borrow, where `k` passes are left. -/
def negLoop : ℕ → DiffRes × ℤ → DiffRes × ℤ
  | 0, s => s
  | k + 1, s =>
    let r1 : ℤ := k + 2
    if 48 ≤ s.1.cells r1 ∧ s.1.cells r1 ≤ 57 then
      let digit := (57 - s.1.cells r1 + s.2) + 48
      let res := s.1.put r1 digit
      negLoop k (if 57 < digit then (res.put r1 (digit - 10), 1) else (res, 0))
    else s

/-- What `rrd_diff` leaves in `res`, and the signs that it applies. -/
structure DiffOut : Type where
  /-- `res` -/
  res : DiffRes
  /-- `-atof(res)` -/
  borrow : Bool
  /-- "both are negatives, reverse sign" -/
  both : Bool

/-- The string in `res`. -/
def DiffOut.text (o : DiffOut) : Text :=
  ((List.range (lastDsLen + 3)).map fun i : ℕ => Char.ofNat (o.res.cells i).toNat).takeWhile fun c => c.toNat ≠ 0

/-- The sign of the result. -/
def DiffOut.sign (o : DiffOut) : ℤ := (if o.borrow then -1 else 1) * if o.both then -1 else 1

/-- What `rrd_diff` returns. -/
def DiffOut.value (o : DiffOut) : RrdValue :=
  let result := if o.borrow then -CStr.atof o.text else CStr.atof o.text
  if o.both then -result else result

/-- The subtraction of two runs of digits, and the complement behind a final borrow. -/
def diffSubtract (res : ℤ → ℤ) (a b : Text) (both : Bool) : DiffOut :=
  let m := max a.length b.length
  let s := forLoop m (diffPass a b m) (diffFill m ⟨res, []⟩, 0)
  ⟨if s.2 ≠ 0 then (negLoop m s).1 else s.1, decide (s.2 ≠ 0), both⟩

/-- **`rrd_diff`** on what is in `res` before; it may return before it gets there. -/
def rrdDiffMem (res : ℤ → ℤ) (a b : Text) : Option DiffOut :=
  let (aNeg, a) := diffOperand a
  let (bNeg, b) := diffOperand b
  if a = [] ∨ b = [] then none
  else if aNeg ≠ bNeg then none
  else if lastDsLen < max a.length b.length then none
  else some (diffSubtract res a b (aNeg && bNeg))

/-- The value that is returned. -/
def rrdDiffMemValue (res : ℤ → ℤ) (a b : Text) : RrdValue := ((rrdDiffMem res a b).map DiffOut.value).getD dnan

/-! ## The passes -/

/-- A digit, and what is borrowed for it. -/
def borrowed (r : ℤ) : ℤ × ℤ := if r < 0 then (r + 10, 1) else if 9 < r then (r - 10, 1) else (r, 0)

/-- The result of the loop, one digit longer. -/
theorem diffDigits_succ (x : ℕ) (as bs : List ℤ) (c : ℤ) :
    diffDigits (x + 1) as bs c =
      ((diffDigits x as bs c).1 ++ [(borrowed (as.getD x 0 - (diffDigits x as bs c).2 - bs.getD x 0)).1],
        (borrowed (as.getD x 0 - (diffDigits x as bs c).2 - bs.getD x 0)).2) := by
  have hfirst (m : ℕ) (as bs : List ℤ) (c : ℤ) : diffDigits (m + 1) as bs c =
      ((borrowed (as.headD 0 - c - bs.headD 0)).1 ::
          (diffDigits m as.tail bs.tail (borrowed (as.headD 0 - c - bs.headD 0)).2).1,
        (diffDigits m as.tail bs.tail (borrowed (as.headD 0 - c - bs.headD 0)).2).2) := rfl
  induction x generalizing as bs c with
  | zero =>
    have has : as.getD 0 0 = as.headD 0 := by cases as <;> rfl
    have hbs : bs.getD 0 0 = bs.headD 0 := by cases bs <;> rfl
    rw [has, hbs]
    rfl
  | succ x ih =>
    have has : as.getD (x + 1) 0 = as.tail.getD x 0 := by cases as <;> simp
    have hbs : bs.getD (x + 1) 0 = bs.tail.getD x 0 := by cases bs <;> simp
    rw [hfirst, ih, hfirst x, has, hbs]
    rfl

theorem diffDigits_length (x : ℕ) (as bs : List ℤ) (c : ℤ) : (diffDigits x as bs c).1.length = x := by
  induction x with
  | zero => rfl
  | succ x ih => rw [diffDigits_succ, List.length_append, ih, List.length_singleton]

theorem fromEnd_eq (a : Text) (x : ℕ) (ha : a.all CStr.isdigit = true) :
    fromEnd a x = (leDigits a)[x]?.map (48 + ·) := by
  rw [fromEnd, leDigits, ← List.map_reverse, List.getElem?_map, Option.map_map]
  cases hc : a.reverse[x]? with
  | none => rfl
  | some c =>
    have hmem : c ∈ a := List.mem_reverse.mp (List.mem_of_getElem? hc)
    have hdigit := List.all_eq_true.mp ha c hmem
    simp only [CStr.isdigit, Bool.and_eq_true, decide_eq_true_eq] at hdigit
    have hge : '0'.toNat ≤ c.toNat := hdigit.1
    have h0 : '0'.toNat = 48 := rfl
    rw [Option.map_some, Option.map_some, Function.comp_apply, CStr.digitVal]
    congr 1
    omega

theorem diffDigit_eq {a b : Text} (ha : a.all CStr.isdigit = true) (hb : b.all CStr.isdigit = true) (x : ℕ) (c : ℤ) :
    diffDigit a b x c = 48 + ((leDigits a).getD x 0 - c - (leDigits b).getD x 0) := by
  rw [diffDigit, fromEnd_eq a x ha, fromEnd_eq b x hb, List.getD_eq_getElem?_getD, List.getD_eq_getElem?_getD]
  cases (leDigits a)[x]? with
  | none =>
    cases (leDigits b)[x]? with
    | none =>
      simp
      ring
    | some q =>
      simp
      ring
  | some p =>
    cases (leDigits b)[x]? with
    | none =>
      simp
      ring
    | some q =>
      simp
      ring

/-- **A pass writes a digit.** -/
theorem diffPass_eq {a b : Text} (ha : a.all CStr.isdigit = true) (hb : b.all CStr.isdigit = true) (m x : ℕ)
    (s : DiffRes × ℤ) :
    let digit := borrowed ((leDigits a).getD x 0 - s.2 - (leDigits b).getD x 0)
    (diffPass a b m x s).2 = digit.2 ∧
      (diffPass a b m x s).1.cells = Function.update s.1.cells (m + 1 - x) (48 + digit.1) ∧
      ∀ i ∈ (diffPass a b m x s).1.writes, i ∈ s.1.writes ∨ i = m + 1 - x := by
  dsimp only
  rw [diffPass, diffDigit_eq ha hb]
  generalize (leDigits a).getD x 0 - s.2 - (leDigits b).getD x 0 = r
  have hlow : 48 + r < 48 ↔ r < 0 := by omega
  have hhigh : 57 < 48 + r ↔ 9 < r := by omega
  simp only [hlow, hhigh, borrowed]
  split_ifs
  · refine ⟨rfl, ?_, fun i hi => ?_⟩
    · simp only [DiffRes.put, Function.update_idem, add_assoc]
    · rcases List.mem_cons.mp hi with rfl | hi
      · exact .inr rfl
      · exact (List.mem_cons.mp hi).symm
  · refine ⟨rfl, ?_, fun i hi => ?_⟩
    · simp only [DiffRes.put, Function.update_idem, add_sub_assoc]
    · rcases List.mem_cons.mp hi with rfl | hi
      · exact .inr rfl
      · exact (List.mem_cons.mp hi).symm
  · exact ⟨rfl, rfl, fun i hi => (List.mem_cons.mp hi).symm⟩

theorem getD_concat (l : List ℤ) (d : ℤ) (k : ℕ) :
    (l ++ [d]).getD k 0 = if k = l.length then d else l.getD k 0 := by
  rw [List.getD_eq_getElem?_getD, List.getD_eq_getElem?_getD, List.getElem?_append]
  split_ifs with hlt heq heq
  · exact absurd hlt (heq ▸ lt_irrefl _)
  · rfl
  · simp [heq]
  · rw [List.getElem?_eq_none (not_lt.mp hlt), List.getElem?_eq_none (by simp; omega)]

/-- **The passes** leave the digits of the difference, the last one at the right. -/
theorem passes_spec {a b : Text} (ha : a.all CStr.isdigit = true) (hb : b.all CStr.isdigit = true) {m : ℕ} (s : DiffRes)
    {x : ℕ} (hx : x ≤ m) :
    let p := forLoop x (diffPass a b m) (s, 0)
    let q := diffDigits x (leDigits a) (leDigits b) 0
    p.2 = q.2 ∧ (∀ k : ℕ, k < x → p.1.cells (m + 1 - k) = 48 + q.1.getD k 0) ∧
      (∀ i : ℤ, i ≤ m + 1 - x ∨ m + 1 < i → p.1.cells i = s.cells i) ∧
      ∀ i ∈ p.1.writes, i ∈ s.writes ∨ 2 ≤ i ∧ i ≤ m + 1 := by
  dsimp only
  induction x with
  | zero =>
    refine ⟨rfl, fun k hk => absurd hk (Nat.not_lt_zero k), fun i _ => rfl, fun i hi => .inl hi⟩
  | succ x ih =>
    obtain ⟨hc, hdone, hrest, hwrites⟩ := ih (by omega)
    obtain ⟨hc', hcells, hwritten⟩ := diffPass_eq ha hb m x (forLoop x (diffPass a b m) (s, 0))
    rw [hc] at hc' hcells
    have hlen := diffDigits_length x (leDigits a) (leDigits b) 0
    rw [forLoop_succ, diffDigits_succ]
    refine ⟨hc', fun k hk => ?_, fun i hi => ?_, fun i hi => ?_⟩
    · rw [hcells]
      dsimp only
      by_cases hkx : k = x
      · rw [hkx, Function.update_self, getD_concat, if_pos hlen.symm]
      · have hne : (m + 1 - k : ℤ) ≠ m + 1 - x := by omega
        rw [Function.update_of_ne hne, hdone k (by omega), getD_concat, if_neg (hlen.symm ▸ hkx)]
    · rw [hcells, Function.update_of_ne (by omega), hrest i (by omega)]
    · rcases hwritten i hi with hi | rfl
      · exact hwrites i hi
      · exact .inr (by omega)

/-- **The loop behind a final borrow** leaves the complement. -/
theorem negLoop_spec {k : ℕ} {ds : List ℤ} (hds : AreDigits ds) (hlen : ds.length = k) (s : DiffRes) (c : ℤ)
    (hc : c = 0 ∨ c = 1) (hcells : ∀ i : ℕ, i < k → s.cells (k + 1 - i) = 48 + ds.getD i 0) :
    (∀ i : ℕ, i < k → (negLoop k (s, c)).1.cells (k + 1 - i) = 48 + (diffComplement ds c).getD i 0) ∧
      (∀ i : ℤ, i ≤ 1 ∨ k + 1 < i → (negLoop k (s, c)).1.cells i = s.cells i) ∧
      ∀ i ∈ (negLoop k (s, c)).1.writes, i ∈ s.writes ∨ 2 ≤ i ∧ i ≤ k + 1 := by
  induction k generalizing ds s c with
  | zero => exact ⟨fun i hi => absurd hi (Nat.not_lt_zero i), fun i _ => rfl, fun i hi => .inl hi⟩
  | succ k ih =>
    cases ds with
    | nil => cases hlen
    | cons d ds =>
      obtain ⟨hd0, hd9⟩ := hds d List.mem_cons_self
      have hfirst : s.cells (k + 2) = 48 + d := by
        have hcell := hcells 0 (Nat.succ_pos k)
        have hindex : ((k + 1 : ℕ) + 1 - (0 : ℕ) : ℤ) = k + 2 := by
          push_cast
          ring
        rwa [hindex] at hcell
      have hdigit : (57 - s.cells (k + 2) + c) + 48 = 48 + (9 - d + c) := by
        rw [hfirst]
        ring
      have hcarry : 57 < 48 + (9 - d + c) ↔ 9 < 9 - d + c := by omega
      -- what the first pass leaves
      obtain ⟨t, c', hpass, hcomplement, hc', htcells, htwrites⟩ : ∃ t c',
          (if 57 < (57 - s.cells (k + 2) + c) + 48 then
            ((s.put (k + 2) ((57 - s.cells (k + 2) + c) + 48)).put (k + 2) ((57 - s.cells (k + 2) + c) + 48 - 10), 1)
          else (s.put (k + 2) ((57 - s.cells (k + 2) + c) + 48), 0)) = (t, c') ∧
          diffComplement (d :: ds) c = (t.cells (k + 2) - 48) :: diffComplement ds c' ∧ (c' = 0 ∨ c' = 1) ∧
          (∀ i : ℤ, i ≠ k + 2 → t.cells i = s.cells i) ∧ ∀ i ∈ t.writes, i ∈ s.writes ∨ i = k + 2 := by
        rw [hdigit]
        simp only [hcarry]
        split_ifs with h
        · refine ⟨_, _, rfl, ?_, .inr rfl, fun i hi => ?_, fun i hi => ?_⟩
          · simp only [diffComplement, if_pos h, DiffRes.put, Function.update_self]
            congr 1
            ring
          · simp only [DiffRes.put, Function.update_of_ne hi]
          · rcases List.mem_cons.mp hi with rfl | hi
            · exact .inr rfl
            · exact (List.mem_cons.mp hi).symm
        · refine ⟨_, _, rfl, ?_, .inl rfl, fun i hi => ?_, fun i hi => (List.mem_cons.mp hi).symm⟩
          · simp only [diffComplement, if_neg h, DiffRes.put, Function.update_self]
            congr 1
            ring
          · simp only [DiffRes.put, Function.update_of_ne hi]
      have hloop : negLoop (k + 1) (s, c) = negLoop k (t, c') := by
        rw [negLoop, ← hpass]
        exact if_pos (by dsimp only; rw [hfirst]; omega)
      have hlen' : ds.length = k := Nat.succ.inj hlen
      obtain ⟨hdone, hrest, hwrites⟩ := ih hds.tail hlen' t c' hc' fun i hi => by
        have hcell := hcells (i + 1) (by omega)
        have hindex : ((k + 1 : ℕ) + 1 - (i + 1 : ℕ) : ℤ) = k + 1 - i := by
          push_cast
          ring
        rw [hindex] at hcell
        rw [htcells _ (by omega)]
        exact hcell
      rw [hloop]
      refine ⟨fun i hi => ?_, fun i hi => ?_, fun i hi => ?_⟩
      · rw [hcomplement]
        cases i with
        | zero =>
          have hindex : ((k + 1 : ℕ) + 1 - (0 : ℕ) : ℤ) = k + 2 := by
            push_cast
            ring
          rw [hindex, hrest _ (by omega)]
          simp
        | succ i =>
          have hindex : ((k + 1 : ℕ) + 1 - (i + 1 : ℕ) : ℤ) = k + 1 - i := by
            push_cast
            ring
          rw [hindex, hdone i (by omega)]
          rfl
      · rw [hrest i (by omega), htcells i (by omega)]
      · rcases hwrites i hi with hi | hi
        · rcases htwrites i hi with hi | rfl
          · exact .inl hi
          · exact .inr (by omega)
        · exact .inr (by omega)

theorem diffComplement_digits {ds : List ℤ} (hds : AreDigits ds) {c : ℤ} (hc : c = 0 ∨ c = 1) :
    AreDigits (diffComplement ds c) ∧ (diffComplement ds c).length = ds.length := by
  induction ds generalizing c with
  | nil => exact ⟨hds, rfl⟩
  | cons d ds ih =>
    obtain ⟨hd0, hd9⟩ := hds d List.mem_cons_self
    rw [diffComplement]
    split_ifs with h
    · obtain ⟨hrest, hlen⟩ := ih hds.tail (.inr rfl)
      exact ⟨hrest.cons (by omega), congrArg (· + 1) hlen⟩
    · obtain ⟨hrest, hlen⟩ := ih hds.tail (.inl rfl)
      exact ⟨hrest.cons (by omega), congrArg (· + 1) hlen⟩

/-- Blanks, and the terminator behind them. -/
theorem diffFill_spec (m : ℕ) (s : DiffRes) :
    (∀ i : ℤ, 0 ≤ i → i ≤ m + 1 → (diffFill m s).cells i = 32) ∧ (diffFill m s).cells (m + 2) = 0 ∧
      (∀ i ∈ (diffFill m s).writes, i ∈ s.writes ∨ 0 ≤ i ∧ i ≤ m + 2) ∧ (m + 2 : ℤ) ∈ (diffFill m s).writes := by
  have hblanks : (∀ i : ℤ, 0 ≤ i → i < (m + 2 : ℕ) → (forLoop (m + 2) (fun i s => s.put i 32) s).cells i = 32) ∧
      ∀ i ∈ (forLoop (m + 2) (fun i s => s.put i 32) s).writes, i ∈ s.writes ∨ 0 ≤ i ∧ i < (m + 2 : ℕ) := by
    refine forLoop_invariant (fun k (t : DiffRes) => (∀ i : ℤ, 0 ≤ i → i < k → t.cells i = 32) ∧
      ∀ i ∈ t.writes, i ∈ s.writes ∨ 0 ≤ i ∧ i < (k : ℤ)) ⟨fun i h0 hi => by omega, fun i hi => .inl hi⟩ ?_
    rintro k t - ⟨hcells, hwrites⟩
    refine ⟨fun i h0 hi => ?_, fun i hi => ?_⟩
    · by_cases hik : i = k
      · rw [hik]
        exact Function.update_self ..
      · exact (Function.update_of_ne hik ..).trans (hcells i h0 (by omega))
    · rcases List.mem_cons.mp hi with rfl | hi
      · exact .inr (by omega)
      · rcases hwrites i hi with hi | hi
        · exact .inl hi
        · exact .inr (by omega)
  obtain ⟨hcells, hwrites⟩ := hblanks
  rw [diffFill]
  refine ⟨fun i h0 hi => ?_, Function.update_self .., fun i hi => ?_, List.mem_cons_self⟩
  · have hne : i ≠ m + 2 := by omega
    exact (Function.update_of_ne hne ..).trans (hcells i h0 (by omega))
  · rcases List.mem_cons.mp hi with rfl | hi
    · exact .inr (by omega)
    · rcases hwrites i hi with hi | hi
      · exact .inl hi
      · exact .inr (by omega)

/-! ## What is left in the array -/

theorem diffOperand_digits (t : Text) : (diffOperand t).2.all CStr.isdigit = true := by
  induction t with
  | nil => rfl
  | cons c t ih =>
    rw [diffOperand]
    split_ifs
    · exact List.all_takeWhile
    · exact ih

/-- The integer that an operand denotes. -/
def operandVal (t : Text) : ℤ :=
  if (diffOperand t).1 then -CStr.digitsVal (diffOperand t).2 else CStr.digitsVal (diffOperand t).2

/-- **The array at the end**: two blanks, the digits of the result, and the terminator. -/
structure DiffOut.Holds (o : DiffOut) (m : ℕ) (ds : List ℤ) : Prop where
  digits : AreDigits ds
  length : ds.length = m
  blanks : o.res.cells 0 = 32 ∧ o.res.cells 1 = 32
  cells : ∀ k : ℕ, k < m → o.res.cells (m + 1 - k) = 48 + ds.getD k 0
  stop : o.res.cells (m + 2) = 0
  writes : ∀ i ∈ o.res.writes, 0 ≤ i ∧ i ≤ m + 2

variable {res : ℤ → ℤ} {a b : Text} {o : DiffOut}

/-- When `rrd_diff` gets to its array. -/
def DiffRuns (a b : Text) : Prop :=
  (diffOperand a).2 ≠ [] ∧ (diffOperand b).2 ≠ [] ∧ (diffOperand a).1 = (diffOperand b).1 ∧
    max (diffOperand a).2.length (diffOperand b).2.length ≤ lastDsLen

theorem rrdDiffMem_eq_none (h : ¬ DiffRuns a b) : rrdDiffMem res a b = none := by
  rw [rrdDiffMem]
  dsimp only
  by_cases hempty : (diffOperand a).2 = [] ∨ (diffOperand b).2 = []
  · exact if_pos hempty
  by_cases hsign : (diffOperand a).1 ≠ (diffOperand b).1
  · rw [if_neg hempty, if_pos hsign]
  by_cases hlen : lastDsLen < max (diffOperand a).2.length (diffOperand b).2.length
  · rw [if_neg hempty, if_neg hsign, if_pos hlen]
  · obtain ⟨ha, hb⟩ := not_or.mp hempty
    exact absurd ⟨ha, hb, not_not.mp hsign, not_lt.mp hlen⟩ h

theorem rrdDiffMem_eq_some (h : DiffRuns a b) : rrdDiffMem res a b =
    some (diffSubtract res (diffOperand a).2 (diffOperand b).2 (diffOperand b).1) := by
  obtain ⟨ha, hb, hsign, hlen⟩ := h
  rw [rrdDiffMem]
  dsimp only
  rw [if_neg (not_or.mpr ⟨ha, hb⟩), if_neg (not_not.mpr hsign), if_neg (not_lt.mpr hlen), hsign, Bool.and_self]

/-- What has been written stays in the log. -/
theorem diffPass_writes (a b : Text) (m x : ℕ) (s : DiffRes × ℤ) : s.1.writes ⊆ (diffPass a b m x s).1.writes := by
  intro i hi
  rw [diffPass]
  split_ifs
  · exact List.mem_cons_of_mem _ (List.mem_cons_of_mem _ hi)
  · exact List.mem_cons_of_mem _ (List.mem_cons_of_mem _ hi)
  · exact List.mem_cons_of_mem _ hi

theorem negLoop_writes (k : ℕ) (s : DiffRes × ℤ) : s.1.writes ⊆ (negLoop k s).1.writes := by
  induction k generalizing s with
  | zero => exact List.Subset.refl _
  | succ k ih =>
    intro i hi
    rw [negLoop]
    dsimp only
    split_ifs
    · exact ih _ (List.mem_cons_of_mem _ (List.mem_cons_of_mem _ hi))
    · exact ih _ (List.mem_cons_of_mem _ hi)
    · exact hi

/-- **What the subtraction leaves**: the digits of the difference. -/
theorem diffSubtract_holds {a b : Text} (ha : a.all CStr.isdigit = true) (hb : b.all CStr.isdigit = true) (both : Bool) :
    ∃ ds, (diffSubtract res a b both).Holds (max a.length b.length) ds ∧
      (max a.length b.length + 2 : ℤ) ∈ (diffSubtract res a b both).res.writes ∧
      (diffSubtract res a b both).both = both ∧
      (if (diffSubtract res a b both).borrow then -leDigitsVal ds else leDigitsVal ds) =
        (CStr.digitsVal a : ℤ) - CStr.digitsVal b := by
  have hdiff := diff_digits ha hb
  have hla : (leDigits a).length ≤ max a.length b.length := by simp [leDigits]
  have hlb : (leDigits b).length ≤ max a.length b.length := by simp [leDigits]
  rw [diffSubtract]
  generalize max a.length b.length = m at hdiff hla hlb ⊢
  obtain ⟨hblanks, hstop, hfilled, hfill⟩ := diffFill_spec m ⟨res, []⟩
  obtain ⟨-, hborrow, hdigits, hlength⟩ := diffDigits_spec (areDigits_leDigits ha) (areDigits_leDigits hb) hla hlb (.inl rfl)
  obtain ⟨hc, hcells, hrest, hwrites⟩ := passes_spec ha hb (diffFill m ⟨res, []⟩) (le_refl m)
  have hkept : (m + 2 : ℤ) ∈ (forLoop m (diffPass a b m) (diffFill m ⟨res, []⟩, 0)).1.writes :=
    forLoop_invariant (fun _ (t : DiffRes × ℤ) => (m + 2 : ℤ) ∈ t.1.writes) hfill
      fun x t _ ht => diffPass_writes a b m x t ht
  have hinside : ∀ i ∈ (forLoop m (diffPass a b m) (diffFill m ⟨res, []⟩, 0)).1.writes, 0 ≤ i ∧ i ≤ m + 2 := by
    intro i hi
    rcases hwrites i hi with hi | hi
    · exact (hfilled i hi).resolve_left List.not_mem_nil
    · omega
  have hfront (i : ℤ) (h0 : 0 ≤ i) (hi : i ≤ 1) :
      (forLoop m (diffPass a b m) (diffFill m ⟨res, []⟩, 0)).1.cells i = 32 :=
    (hrest i (.inl (by omega))).trans (hblanks i h0 (by omega))
  have hend : (forLoop m (diffPass a b m) (diffFill m ⟨res, []⟩, 0)).1.cells (m + 2) = 0 :=
    (hrest _ (.inr (by omega))).trans hstop
  generalize forLoop m (diffPass a b m) (diffFill m ⟨res, []⟩, 0) = s at hc hcells hkept hinside hfront hend ⊢
  generalize diffDigits m (leDigits a) (leDigits b) 0 = q at hdiff hborrow hdigits hlength hc hcells
  obtain ⟨s, c⟩ := s
  dsimp only at hc hcells hkept hinside hfront hend hdiff ⊢
  subst hc
  by_cases hzero : q.2 = 0
  · rw [if_neg (not_not.mpr hzero)] at hdiff
    refine ⟨q.1, ⟨hdigits, hlength, ?_, ?_, ?_, ?_⟩, ?_, rfl, ?_⟩
    · rw [if_neg (not_not.mpr hzero)]
      exact ⟨hfront 0 le_rfl (by decide), hfront 1 (by decide) le_rfl⟩
    · rw [if_neg (not_not.mpr hzero)]
      exact hcells
    · rw [if_neg (not_not.mpr hzero)]
      exact hend
    · rw [if_neg (not_not.mpr hzero)]
      exact hinside
    · rw [if_neg (not_not.mpr hzero)]
      exact hkept
    · rw [if_neg (by simpa using hzero)]
      exact hdiff
  · obtain ⟨hcomplement, hlen⟩ := diffComplement_digits hdigits hborrow
    obtain ⟨hneg, hnegRest, hnegWrites⟩ := negLoop_spec hdigits hlength s q.2 hborrow hcells
    rw [if_pos hzero] at hdiff
    refine ⟨diffComplement q.1 q.2, ⟨hcomplement, hlen.trans hlength, ?_, ?_, ?_, ?_⟩, ?_, rfl, ?_⟩
    · rw [if_pos hzero]
      exact ⟨(hnegRest 0 (.inl (by decide))).trans (hfront 0 le_rfl (by decide)),
        (hnegRest 1 (.inl le_rfl)).trans (hfront 1 (by decide) le_rfl)⟩
    · rw [if_pos hzero]
      exact hneg
    · rw [if_pos hzero]
      exact (hnegRest _ (.inr (by omega))).trans hend
    · rw [if_pos hzero]
      intro i hi
      rcases hnegWrites i hi with hi | hi
      · exact hinside i hi
      · omega
    · rw [if_pos hzero]
      exact negLoop_writes m (s, q.2) hkept
    · rw [if_pos (by simpa using hzero)]
      exact hdiff

/-! ## The string in the array -/

/-- Digits, the last one first, as a string. -/
def digitText (ds : List ℤ) : Text := ds.reverse.map fun d => Char.ofNat (48 + d).toNat

theorem digitChar_spec {d : ℤ} (h0 : 0 ≤ d) (h9 : d ≤ 9) :
    CStr.isdigit (Char.ofNat (48 + d).toNat) = true ∧ (CStr.digitVal (Char.ofNat (48 + d).toNat) : ℤ) = d := by
  interval_cases d <;> decide

theorem digitText_spec {ds : List ℤ} (h : AreDigits ds) :
    (digitText ds).all CStr.isdigit = true ∧ (CStr.digitsVal (digitText ds) : ℤ) = leDigitsVal ds := by
  have hchars : leDigits (digitText ds) = ds := by
    rw [leDigits, digitText, List.map_map, ← List.map_reverse, List.reverse_reverse]
    refine (List.map_congr_left fun d hd => ?_).trans (List.map_id ds)
    exact (digitChar_spec (h d hd).1 (h d hd).2).2
  refine ⟨?_, ?_⟩
  · rw [List.all_eq_true]
    intro c hc
    obtain ⟨d, hd, rfl⟩ := List.mem_map.mp hc
    obtain ⟨h0, h9⟩ := h d (List.mem_reverse.mp hd)
    exact (digitChar_spec h0 h9).1
  · rw [← leDigitsVal_leDigits, hchars]

/-- A string ends at its first terminator. -/
theorem takeWhile_map_range {f : ℕ → Char} {p : Char → Bool} {k n : ℕ} (hk : k < n) (hin : ∀ i, i < k → p (f i) = true)
    (hstop : p (f k) = false) : ((List.range n).map f).takeWhile p = (List.range k).map f := by
  obtain ⟨j, rfl⟩ := Nat.exists_eq_add_of_lt hk
  have hsplit : List.range (k + j + 1) = List.range k ++ k :: (List.range j).map (k + 1 + ·) := by
    rw [add_assoc, List.range_add, List.range_succ_eq_map, List.map_cons, List.map_map, add_zero]
    congr 2
    refine List.map_congr_left fun i _ => ?_
    rw [Function.comp_apply, Nat.succ_eq_add_one]
    omega
  rw [hsplit, List.map_append, List.takeWhile_append_of_pos, List.map_cons,
    List.takeWhile_cons_of_neg (by rw [hstop]; decide), List.append_nil]
  intro c hc
  obtain ⟨i, hi, rfl⟩ := List.mem_map.mp hc
  exact hin i (List.mem_range.mp hi)

/-- **The string** is two blanks and the digits. -/
theorem DiffOut.Holds.text_eq {m : ℕ} {ds : List ℤ} (h : o.Holds m ds) (hm : m ≤ lastDsLen) :
    o.text = ' ' :: ' ' :: digitText ds := by
  obtain rfl := h.length
  have hcell (i : ℕ) (hi : i < ds.length) : o.res.cells (i + 2) = 48 + ds[ds.length - 1 - i] := by
    have hcell := h.cells (ds.length - 1 - i) (by omega)
    have hindex : (ds.length + 1 - (ds.length - 1 - i : ℕ) : ℤ) = i + 2 := by omega
    rwa [hindex, List.getD_eq_getElem] at hcell
  have h0 : Char.ofNat (o.res.cells (0 : ℕ)).toNat = ' ' := by
    rw [Nat.cast_zero, h.blanks.1]
    rfl
  have h1 : Char.ofNat (o.res.cells (1 : ℕ)).toNat = ' ' := by
    rw [Nat.cast_one, h.blanks.2]
    rfl
  have hdigits : ((List.range ds.length).map fun i : ℕ => Char.ofNat (o.res.cells (i + 2 : ℕ)).toNat) = digitText ds := by
    refine List.ext_getElem (by simp [digitText]) fun i hi _ => ?_
    have him : i < ds.length := by simpa using hi
    have hcast : ((i + 2 : ℕ) : ℤ) = i + 2 := rfl
    simp only [List.getElem_map, List.getElem_range, digitText, List.getElem_reverse]
    rw [hcast, hcell i him]
  have hall : (List.range (ds.length + 2)).map (fun i : ℕ => Char.ofNat (o.res.cells i).toNat) =
      ' ' :: ' ' :: digitText ds := by
    rw [List.range_succ_eq_map, List.map_cons, List.map_map, List.range_succ_eq_map, List.map_cons, List.map_map, h0,
      Function.comp_apply, h1, ← hdigits]
    rfl
  rw [DiffOut.text, takeWhile_map_range (k := ds.length + 2), hall]
  · rw [lastDsLen] at hm ⊢
    omega
  · intro i hi
    have hmem : Char.ofNat (o.res.cells i).toNat ∈ ' ' :: ' ' :: digitText ds := by
      rw [← hall]
      exact List.mem_map_of_mem (List.mem_range.mpr hi)
    have hnonzero : ∀ c ∈ ' ' :: ' ' :: digitText ds, c.toNat ≠ 0 := by
      intro c hc
      rcases List.mem_cons.mp hc with rfl | hc
      · decide
      rcases List.mem_cons.mp hc with rfl | hc
      · decide
      · obtain ⟨h48, -⟩ := Decimal.isdigit_bounds (List.all_eq_true.mp (digitText_spec h.digits).1 c hc)
        omega
    exact decide_eq_true (hnonzero _ hmem)
  · have hcast : ((ds.length + 2 : ℕ) : ℤ) = ds.length + 2 := rfl
    rw [hcast, h.stop]
    rfl

/-- `atof` reads such a string. -/
theorem atof_digits {ds : Text} (hds : ds.all CStr.isdigit = true) (hne : ds ≠ []) (hlen : ds.length ≤ lastDsLen) :
    CStr.atof (' ' :: ' ' :: ds) = .num (CStr.digitsVal ds) := by
  have hdigits := List.all_eq_true.mp hds
  have hblanks : (' ' :: ' ' :: ds).dropWhile CStr.isspace = ds := by
    rw [List.dropWhile_cons_of_pos (by decide), List.dropWhile_cons_of_pos (by decide)]
    obtain ⟨c, t, rfl⟩ := List.exists_cons_of_ne_nil hne
    refine List.dropWhile_cons_of_neg ?_
    rw [Decimal.not_isspace_of_isdigit (hdigits c List.mem_cons_self)]
    decide
  have hsign : CStr.takeSign ds = (false, ds) := by
    obtain ⟨c, t, rfl⟩ := List.exists_cons_of_ne_nil hne
    exact Decimal.takeSign_digit (hdigits c List.mem_cons_self) t
  have hbound : (CStr.digitsVal ds : ℚ) < CStr.dblOverflow := by
    have hval := (areDigits_leDigits hds).val_bounds.2
    have hle : (leDigits ds).length ≤ 30 := by
      rw [leDigits, List.length_reverse, List.length_map]
      exact hlen
    rw [leDigitsVal_leDigits] at hval
    have hpow : (10 : ℤ) ^ (leDigits ds).length ≤ 10 ^ 30 := pow_le_pow_right₀ (by norm_num) hle
    have hlt : (CStr.digitsVal ds : ℚ) < 10 ^ 30 := by exact_mod_cast hval.trans_le hpow
    exact hlt.trans (by decide +kernel)
  rw [CStr.atof, CStr.strtod, hblanks, hsign]
  dsimp only
  rw [CStr.strtodUnsigned_digits false hdigits hne, Option.getD_some, CStr.finishStrtod, if_neg (not_le.mpr hbound)]
  rfl

/-! ## The difference -/

/-- **The string denotes the difference.** -/
theorem rrdDiffMem_text (h : DiffRuns a b) : ∃ o ds, rrdDiffMem res a b = some o ∧ o.text = ' ' :: ' ' :: ds ∧
    ds.all CStr.isdigit = true ∧ ds ≠ [] ∧ ds.length ≤ lastDsLen ∧
    o.sign * CStr.digitsVal ds = operandVal a - operandVal b := by
  obtain ⟨ds, hholds, -, hboth, hvalue⟩ := @diffSubtract_holds res (diffOperand a).2 (diffOperand b).2
    (diffOperand_digits a) (diffOperand_digits b) (diffOperand b).1
  have hrun := @rrdDiffMem_eq_some res a b h
  generalize diffSubtract res (diffOperand a).2 (diffOperand b).2 (diffOperand b).1 = o at hholds hboth hvalue hrun
  obtain ⟨hdigits, hval⟩ := digitText_spec hholds.digits
  obtain ⟨ha, -, hsign, hlen⟩ := h
  have hlength : (digitText ds).length = max (diffOperand a).2.length (diffOperand b).2.length := by
    rw [digitText, List.length_map, List.length_reverse, hholds.length]
  refine ⟨o, digitText ds, hrun, hholds.text_eq hlen, hdigits, ?_, hlength ▸ hlen, ?_⟩
  · have hpos := List.length_pos_iff.mpr ha
    rw [← List.length_pos_iff, hlength]
    omega
  · have hborrow : (if o.borrow then (-1 : ℤ) else 1) * leDigitsVal ds =
        (CStr.digitsVal (diffOperand a).2 : ℤ) - CStr.digitsVal (diffOperand b).2 := by
      rw [← hvalue]
      split_ifs
      · ring
      · ring
    rw [DiffOut.sign, hval, hboth, operandVal, operandVal, hsign, mul_right_comm, hborrow]
    split_ifs
    · ring
    · ring

theorem DiffOut.value_eq {ds : Text} (ht : o.text = ' ' :: ' ' :: ds) (hds : ds.all CStr.isdigit = true) (hne : ds ≠ [])
    (hlen : ds.length ≤ lastDsLen) : o.value = .num (o.sign * CStr.digitsVal ds : ℤ) := by
  rw [DiffOut.value, ht, atof_digits hds hne hlen, DiffOut.sign]
  have hneg (q : ℚ) : -(.num q : RrdValue) = .num (-q) := rfl
  cases o.borrow with
  | false =>
    cases o.both with
    | false => simp
    | true => simp [hneg]
  | true =>
    cases o.both with
    | false => simp [hneg]
    | true => simp [hneg]

/-- **What is returned**: the difference, if `rrd_diff` gets to its array. -/
theorem rrdDiffMemValue_eq : (DiffRuns a b → rrdDiffMemValue res a b = .num (operandVal a - operandVal b : ℤ)) ∧
    (¬ DiffRuns a b → rrdDiffMemValue res a b = dnan) := by
  constructor
  · intro h
    obtain ⟨o, ds, hrun, htext, hdigits, hne, hlen, hvalue⟩ := @rrdDiffMem_text res a b h
    rw [rrdDiffMemValue, hrun, Option.map_some, Option.getD_some, DiffOut.value_eq htext hdigits hne hlen, hvalue]
  · intro h
    rw [rrdDiffMemValue, rrdDiffMem_eq_none h]
    rfl

/-- **The subtraction in the array** is the one on lists of digits. -/
theorem rrdDiffMemValue_eq_rrdDiff (res : ℤ → ℤ) (a b : Text) : rrdDiffMemValue res a b = rrdDiff a b := by
  obtain ⟨hvalue, hunknown⟩ := @rrdDiffMemValue_eq res a b
  have hdiff := diff_digits (diffOperand_digits a) (diffOperand_digits b)
  rw [rrdDiff]
  dsimp only
  by_cases hempty : (diffOperand a).2 = [] ∨ (diffOperand b).2 = []
  · rw [if_pos hempty, hunknown fun h => hempty.elim h.1 h.2.1]
  by_cases hsign : (diffOperand a).1 ≠ (diffOperand b).1
  · rw [if_neg hempty, if_pos hsign, hunknown fun h => hsign h.2.2.1]
  by_cases hlen : lastDsLen < max (diffOperand a).2.length (diffOperand b).2.length
  · rw [if_neg hempty, if_neg hsign, if_pos hlen, hunknown fun h => absurd hlen (not_lt.mpr h.2.2.2)]
  obtain ⟨ha, hb⟩ := not_or.mp hempty
  have hsame := not_not.mp hsign
  dsimp only [leDigits] at hdiff
  rw [if_neg hempty, if_neg hsign, if_neg hlen, hvalue ⟨ha, hb, hsame, not_lt.mp hlen⟩, hdiff, operandVal, operandVal,
    hsame]
  cases (diffOperand b).1 with
  | false => simp
  | true =>
    simp
    ring

/-- **`rrd_diff` is exact** for operands of up to 28 digits, and unknown for those without digits or with different
signs. -/
theorem rrdDiffMem_exact (res : ℤ → ℤ) (a b : Text) (ha : (diffOperand a).2.length ≤ lastDsLen - 2)
    (hb : (diffOperand b).2.length ≤ lastDsLen - 2) :
    ((rrdDiffMemValue res a b).isnan = true ↔
        (diffOperand a).2 = [] ∨ (diffOperand b).2 = [] ∨ (diffOperand a).1 ≠ (diffOperand b).1) ∧
      ((rrdDiffMemValue res a b).isnan = false → ∃ o ds, rrdDiffMem res a b = some o ∧ o.text = ' ' :: ' ' :: ds ∧
        ds.all CStr.isdigit = true ∧ ds ≠ [] ∧ o.sign * CStr.digitsVal ds = operandVal a - operandVal b) := by
  have hlen : max (diffOperand a).2.length (diffOperand b).2.length ≤ lastDsLen :=
    max_le (ha.trans (Nat.sub_le _ _)) (hb.trans (Nat.sub_le _ _))
  obtain ⟨hvalue, hunknown⟩ := @rrdDiffMemValue_eq res a b
  by_cases h : DiffRuns a b
  · rw [hvalue h]
    refine ⟨iff_of_false (by simp) ?_, fun _ => ?_⟩
    · rintro (hempty | hempty | hsign)
      · exact h.1 hempty
      · exact h.2.1 hempty
      · exact hsign h.2.2.1
    · obtain ⟨o, ds, hrun, htext, hdigits, hne, -, hdiff⟩ := @rrdDiffMem_text res a b h
      exact ⟨o, ds, hrun, htext, hdigits, hne, hdiff⟩
  · rw [hunknown h]
    refine ⟨iff_of_true rfl ?_, fun hknown => by cases hknown⟩
    by_contra hno
    rw [not_or, not_or] at hno
    exact h ⟨hno.1, hno.2.1, not_not.mp hno.2.2, hlen⟩

theorem rrdDiffMem_exact_borrow :
    ∃ o ds, rrdDiffMem (fun _ => 0) "x-100".toList "-0001y7".toList = some o ∧ o.text = ' ' :: ' ' :: ds ∧
      ds.all CStr.isdigit = true ∧ ds ≠ [] ∧ o.sign * CStr.digitsVal ds = -99 := by
  have hnan : (rrdDiffMemValue (fun _ => 0) "x-100".toList "-0001y7".toList).isnan = false := by
    rw [← Bool.not_eq_true, (rrdDiffMem_exact (fun _ => 0) "x-100".toList "-0001y7".toList (by decide) (by decide)).1]
    decide
  exact (rrdDiffMem_exact (fun _ => 0) "x-100".toList "-0001y7".toList (by decide) (by decide)).2 hnan

/-- The array has a place for all. -/
def DiffOut.Inside (o : DiffOut) : Prop :=
  (∀ i ∈ o.res.writes, 0 ≤ i ∧ i ≤ lastDsLen) ∧ ∃ i : ℤ, 0 ≤ i ∧ i ≤ lastDsLen ∧ o.res.cells i = 0

/-- **The writes are inside of the array**, and so is the terminator, exactly if no operand has more than 28 digits. -/
theorem rrdDiffMem_inside_iff (h : rrdDiffMem res a b = some o) :
    o.Inside ↔ max (diffOperand a).2.length (diffOperand b).2.length ≤ lastDsLen - 2 := by
  have hruns : DiffRuns a b := by
    by_contra hno
    rw [rrdDiffMem_eq_none hno] at h
    cases h
  obtain rfl := Option.some.inj ((rrdDiffMem_eq_some hruns).symm.trans h)
  obtain ⟨ds, hholds, hwritten, -⟩ := @diffSubtract_holds res (diffOperand a).2 (diffOperand b).2
    (diffOperand_digits a) (diffOperand_digits b) (diffOperand b).1
  have h30 : lastDsLen = 30 := rfl
  rw [h30]
  constructor
  · rintro ⟨hinside, -⟩
    obtain ⟨-, hle⟩ := hinside _ hwritten
    rw [h30] at hle
    omega
  · intro hle
    refine ⟨fun i hi => ?_, _, ?_, ?_, hholds.stop⟩
    · obtain ⟨h0, hi⟩ := hholds.writes i hi
      rw [h30]
      omega
    · omega
    · rw [h30]
      omega

/-- 28 digits fit. -/
theorem rrdDiffMem_28_inside :
    ∃ o, rrdDiffMem (fun _ => 1) (List.replicate 28 '1') "0".toList = some o ∧ o.Inside := by
  obtain ⟨o, ho⟩ := Option.isSome_iff_exists.mp
    (by decide +kernel : (rrdDiffMem (fun _ => 1) (List.replicate 28 '1') "0".toList).isSome = true)
  exact ⟨o, ho, (rrdDiffMem_inside_iff ho).mpr (by decide)⟩

/-- 29 digits pass the check, and the terminator is written behind the array. -/
theorem rrdDiffMem_29_outside : ¬ ∀ (res : ℤ → ℤ) (a b : Text) (o : DiffOut), rrdDiffMem res a b = some o → o.Inside := by
  intro h
  obtain ⟨o, ho⟩ := Option.isSome_iff_exists.mp
    (by decide +kernel : (rrdDiffMem (fun _ => 1) (List.replicate 29 '1') "0".toList).isSome = true)
  have hwritten : (31 : ℤ) ∈ ((rrdDiffMem (fun _ => 1) (List.replicate 29 '1') "0".toList).map
      fun o => o.res.writes).getD [] := by decide +kernel
  rw [ho, Option.map_some, Option.getD_some] at hwritten
  exact absurd ((h _ _ _ o ho).1 31 hwritten).2 (by decide)

end Rrdtool
