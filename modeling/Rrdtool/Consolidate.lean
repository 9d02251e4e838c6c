import Rrdtool.Update
import Rrdtool.Lib.Window
import Mathlib.Algebra.BigOperators.Group.List.Basic
import Mathlib.Tactic.FieldSimp
import Mathlib.Tactic.Linarith

/-!
# Consolidation

What an RRA is for: a row is the consolidation of a window of PDPs. `consolidate` states it
for a whole window at once; `update_cdp` computes it piecemeal, with a count of the unknown
PDPs and a carried value for the window that is still open.

`CdpHolds` ties the two: the preparation area of an RRA and a DS describes the open window.
`updateCdp_holds` says that one update keeps it, `updateCdp_primary` and
`updateCdp_secondary` that the values it hands to `write_to_rras` are the consolidations of
the windows it completes.
-/

namespace Rrdtool

open Window

/-! ## The consolidation of a window -/

/-- The known values of a window. -/
def known (w : List RrdValue) : List ℚ :=
  w.filterMap fun v => match v with
    | .num q => some q
    | _ => none

/-- The number of unknown values of a window. -/
def unknown (w : List RrdValue) : ℕ := w.countP Dbl.isnan

/-- **The consolidation of a window** by the CF of an RRA: the average, the least or the
greatest of the known values, or the last value; unknown when more than the share `xff` of
the window is unknown. -/
def consolidate (cf : Cf) (xff : ℚ) (w : List RrdValue) : RrdValue :=
  if xff * w.length < unknown w then dnan
  else
    match cf with
    | .average => .num ((known w).sum / (known w).length)
    | .minimum => (known w).min?.elim dnan .num
    | .maximum => (known w).max?.elim dnan .num
    | _ => w.getLastD dnan

/-- No value of the window is infinite. -/
def Finite (w : List RrdValue) : Prop := ∀ v ∈ w, v.isinf = false

instance (w : List RrdValue) : Decidable (Finite w) :=
  inferInstanceAs (Decidable (∀ v ∈ w, v.isinf = false))

@[simp] theorem known_append (w w' : List RrdValue) : known (w ++ w') = known w ++ known w' :=
  List.filterMap_append

@[simp] theorem known_replicate_num (k : ℕ) (q : ℚ) :
    known (List.replicate k (.num q)) = List.replicate k q := by
  simp [known]

@[simp] theorem known_replicate_nan (k : ℕ) : known (List.replicate k dnan) = [] := by
  simp [known]

@[simp] theorem unknown_append (w w' : List RrdValue) :
    unknown (w ++ w') = unknown w + unknown w' :=
  List.countP_append

@[simp] theorem unknown_replicate_num (k : ℕ) (q : ℚ) :
    unknown (List.replicate k (.num q)) = 0 := by
  simp [unknown]

@[simp] theorem unknown_replicate_nan (k : ℕ) : unknown (List.replicate k dnan) = k := by
  simp [unknown, List.countP_replicate]

/-- A value that is not infinite is unknown or a number. -/
theorem nan_or_num {v : RrdValue} (h : v.isinf = false) : v = dnan ∨ ∃ q, v = .num q := by
  cases v with
  | nan => exact .inl rfl
  | num q => exact .inr ⟨q, rfl⟩
  | inf => simp [Dbl.isinf] at h
  | neginf => simp [Dbl.isinf] at h

/-- Every value of a finite window is known or unknown. -/
theorem length_known_add_unknown {w : List RrdValue} (h : Finite w) :
    (known w).length + unknown w = w.length := by
  induction w with
  | nil => rfl
  | cons v w ih =>
    have hw : Finite w := fun x hx => h x (List.mem_cons_of_mem _ hx)
    have hcons : v :: w = [v] ++ w := rfl
    rw [hcons, known_append, unknown_append, List.length_append, List.length_append, ← ih hw]
    rcases nan_or_num (h v List.mem_cons_self) with rfl | ⟨q, rfl⟩
    · simp [known, unknown]
      omega
    · simp [known, unknown]
      omega

/-! ## The carried value -/

/-- What `CDP_val` stands for while a window is open: the sum, the least or the greatest of
the known values so far, with the neutral value of the CF when there are none. -/
def carryOf (cf : Cf) (ks : List ℚ) : RrdValue :=
  match cf with
  | .average => .num ks.sum
  | .minimum => ks.min?.elim .inf .num
  | .maximum => ks.max?.elim .neginf .num
  | _ => dnan

/-- `k` more copies of `q` in the carried value. -/
def carryAdd (cf : Cf) (carry : RrdValue) (k : ℕ) (q : ℚ) : RrdValue :=
  match cf with
  | .average => carry + .num q * Dbl.ofNat k
  | .minimum => if (Dbl.num q).lt carry then .num q else carry
  | .maximum => if carry.lt (.num q) then .num q else carry
  | _ => carry

theorem max?_append_replicate (ks : List ℚ) {k : ℕ} (hk : 0 < k) (q : ℚ) :
    (ks ++ List.replicate k q).max? = some (ks.max?.elim q fun m => max m q) := by
  rw [List.max?_eq_some_iff]
  cases hm : ks.max? with
  | none =>
    obtain rfl : ks = [] := List.max?_eq_none_iff.mp hm
    simp [List.mem_replicate]
    omega
  | some m =>
    rw [List.max?_eq_some_iff] at hm
    constructor
    · simp only [Option.elim_some, List.mem_append, List.mem_replicate]
      rcases le_total m q with hle | hle
      · exact .inr ⟨by omega, max_eq_right hle⟩
      · rw [max_eq_left hle]
        exact .inl hm.1
    · intro b hb
      rcases List.mem_append.mp hb with hb | hb
      · exact (hm.2 b hb).trans (le_max_left m q)
      · rw [(List.mem_replicate.mp hb).2]
        exact le_max_right m q

theorem min?_append_replicate (ks : List ℚ) {k : ℕ} (hk : 0 < k) (q : ℚ) :
    (ks ++ List.replicate k q).min? = some (ks.min?.elim q fun m => min m q) := by
  rw [List.min?_eq_some_iff]
  cases hm : ks.min? with
  | none =>
    obtain rfl : ks = [] := List.min?_eq_none_iff.mp hm
    simp [List.mem_replicate]
    omega
  | some m =>
    rw [List.min?_eq_some_iff] at hm
    constructor
    · simp only [Option.elim_some, List.mem_append, List.mem_replicate]
      rcases le_total m q with hle | hle
      · rw [min_eq_left hle]
        exact .inl hm.1
      · exact .inr ⟨by omega, min_eq_right hle⟩
    · intro b hb
      rcases List.mem_append.mp hb with hb | hb
      · exact (min_le_left m q).trans (hm.2 b hb)
      · rw [(List.mem_replicate.mp hb).2]
        exact min_le_right m q

/-- A run of `k` known values moves the carried value in one step. -/
theorem carryOf_append_replicate (cf : Cf) (ks : List ℚ) {k : ℕ} (hk : 0 < k) (q : ℚ) :
    carryOf cf (ks ++ List.replicate k q) = carryAdd cf (carryOf cf ks) k q := by
  cases cf with
  | average =>
    simp [carryOf, carryAdd, Dbl.ofNat, List.sum_replicate]
    ring
  | minimum =>
    rcases Option.eq_none_or_eq_some ks.min? with hm | ⟨m, hm⟩
    · simp [carryOf, carryAdd, min?_append_replicate ks hk, hm]
    · simp only [carryOf, carryAdd, min?_append_replicate ks hk, hm, Option.elim_some, Dbl.num_lt,
        decide_eq_true_eq]
      split_ifs with h
      · rw [min_eq_right h.le]
      · rw [min_eq_left (not_lt.mp h)]
  | maximum =>
    rcases Option.eq_none_or_eq_some ks.max? with hm | ⟨m, hm⟩
    · simp [carryOf, carryAdd, max?_append_replicate ks hk, hm]
    · simp only [carryOf, carryAdd, max?_append_replicate ks hk, hm, Option.elim_some, Dbl.num_lt,
        decide_eq_true_eq]
      split_ifs with h
      · rw [max_eq_right h.le]
      · rw [max_eq_left (not_lt.mp h)]
  | _ => rfl

/-! ## `update_cdp` -/

@[simp] theorem ifDnan_nan (y : RrdValue) : ifDnan dnan y = y := rfl

@[simp] theorem ifDnan_num (q : ℚ) (y : RrdValue) : ifDnan (.num q) y = .num q := rfl

/-- The preparation area `c` describes the open window `w`. -/
structure CdpHolds (cf : Cf) (c : CdpPrep) (w : List RrdValue) : Prop where
  unkn : c.unknPdpCnt = unknown w
  carry : cf ≠ .last → ifDnan c.cdpVal (carryOf cf []) = carryOf cf (known w)

/-- `calculate_cdp_val` adds a run of known values to the carried value. -/
theorem calculateCdpVal_carry {cf : Cf} (hcf : cf.isPlain = true) (hl : cf ≠ .last)
    (c : RrdValue) (e : ℕ) (q : ℚ) :
    ifDnan (calculateCdpVal c (.num q) e cf) (carryOf cf []) =
      carryAdd cf (ifDnan c (carryOf cf [])) e q := by
  cases cf with
  | average =>
    cases c with
    | nan => simp [calculateCdpVal, carryAdd, carryOf, ifDnan, Dbl.ofNat]
    | num m => simp [calculateCdpVal, carryAdd, ifDnan, Dbl.ofNat]
    | inf => rfl
    | neginf => rfl
  | minimum =>
    cases c with
    | nan => simp [calculateCdpVal, carryAdd, carryOf, ifDnan]
    | num m =>
      simp only [calculateCdpVal, carryAdd, ifDnan, Dbl.isnan_num, Bool.false_eq_true, if_false]
      split_ifs <;> simp_all
    | inf => simp [calculateCdpVal, carryAdd, ifDnan]
    | neginf => simp [calculateCdpVal, carryAdd, ifDnan]
  | maximum =>
    cases c with
    | nan => simp [calculateCdpVal, carryAdd, carryOf, ifDnan]
    | num m =>
      simp only [calculateCdpVal, carryAdd, ifDnan, Dbl.isnan_num, Bool.false_eq_true, if_false]
      split_ifs <;> simp_all
    | inf => simp [calculateCdpVal, carryAdd, ifDnan]
    | neginf => simp [calculateCdpVal, carryAdd, ifDnan]
  | last => exact absurd rfl hl
  | _ => simp [Cf.isPlain] at hcf

/-- `initialize_carry_over` opens the window behind the last completed one. -/
theorem initializeCarryOver_carry {cf : Cf} (hcf : cf.isPlain = true) (hl : cf ≠ .last)
    {v : RrdValue} (hv : v.isinf = false) (e off p : ℕ) :
    ifDnan (initializeCarryOver v cf e off p) (carryOf cf []) =
      carryOf cf (known (List.replicate ((e - off) % p) v)) := by
  rcases nan_or_num hv with rfl | ⟨q, rfl⟩
  · rw [known_replicate_nan]
    cases cf <;> simp [initializeCarryOver, noCarryOver, carryOf, ifDnan, Cf.isPlain] at *
  · rw [known_replicate_num]
    rcases Nat.eq_zero_or_pos ((e - off) % p) with hz | hpos
    · rw [hz]
      cases cf <;> simp [initializeCarryOver, noCarryOver, hz, carryOf, ifDnan, Cf.isPlain] at *
    · have hnil : List.replicate ((e - off) % p) q = [] ++ List.replicate ((e - off) % p) q := rfl
      rw [hnil, carryOf_append_replicate cf [] hpos]
      have hne : (e - off) % p ≠ 0 := by omega
      cases cf <;>
        simp [initializeCarryOver, hne, carryOf, carryAdd, ifDnan, Dbl.ofNat, Cf.isPlain] at *

/-- **The open window after an update.** -/
theorem updateCdp_holds {cf : Cf} (hcf : cf.isPlain = true) {c : CdpPrep} {l : List RrdValue}
    {p e : ℕ} (hp : 0 < p) {v xff : RrdValue} (hv : v.isinf = false) {steps : ℕ}
    (hsteps : steps ≠ 0 ↔ missing p l ≤ e) (he : 0 < e) (h : CdpHolds cf c (rest p l)) :
    CdpHolds cf (updateCdp c cf v steps e (missing p l) p xff)
      (rest p (l ++ List.replicate e v)) := by
  by_cases hs : steps ≠ 0
  · rw [rest_run_long hp (hsteps.mp hs)]
    refine ⟨?_, fun hl => ?_⟩
    · rcases nan_or_num hv with rfl | ⟨q, rfl⟩
      · simp [updateCdp, hs]
      · simp [updateCdp, hs]
    · rw [← initializeCarryOver_carry hcf hl hv]
      simp [updateCdp, hs]
  · rw [rest_run_short hp (by have := hsteps.not.mp hs; omega)]
    rcases nan_or_num hv with rfl | ⟨q, rfl⟩
    · refine ⟨?_, fun hl => ?_⟩
      · simp [updateCdp, hs, h.unkn]
      · simpa [updateCdp, hs] using h.carry hl
    · refine ⟨?_, fun hl => ?_⟩
      · simp [updateCdp, hs, h.unkn]
      · rw [known_append, known_replicate_num, carryOf_append_replicate cf _ he, ← h.carry hl,
          ← calculateCdpVal_carry hcf hl]
        simp [updateCdp, hs]

/-- The rows after the first: a window of copies of one value consolidates to that value. -/
theorem consolidate_replicate {cf : Cf} (hcf : cf.isPlain = true) {xff : ℚ} (h0 : 0 ≤ xff)
    (h1 : xff < 1) {p : ℕ} (hp : 0 < p) {v : RrdValue} (hv : v.isinf = false) :
    consolidate cf xff (List.replicate p v) = v := by
  have hp' : (0 : ℚ) < p := by exact_mod_cast hp
  rcases nan_or_num hv with rfl | ⟨q, rfl⟩
  · have hlt : xff * p < p := by nlinarith
    simp [consolidate, hlt]
  · have hle : ¬ xff * p < 0 := by
      have : 0 ≤ xff * p := by positivity
      linarith
    have hmax := max?_append_replicate [] hp q
    have hmin := min?_append_replicate [] hp q
    simp only [List.nil_append] at hmax hmin
    cases cf with
    | average =>
      simp [consolidate, hle, List.sum_replicate]
      field_simp
    | minimum => simp [consolidate, hle, hmin]
    | maximum => simp [consolidate, hle, hmax]
    | last => simp [consolidate, hle, List.getLastD_eq_getLast?, List.getLast?_replicate, hp.ne']
    | _ => simp [Cf.isPlain] at hcf

/-- A window that is not unknown as a whole has known values. -/
theorem known_ne_nil {w : List RrdValue} (hw : Finite w) {xff : ℚ} (h1 : xff < 1)
    (hpos : 0 < w.length) (hx : ¬ xff * w.length < unknown w) : known w ≠ [] := by
  intro hnil
  have hlen := length_known_add_unknown hw
  rw [hnil, List.length_nil, Nat.zero_add] at hlen
  rw [hlen] at hx
  have hp' : (0 : ℚ) < w.length := by exact_mod_cast hpos
  nlinarith

/-- The row of a window that is known well enough, from its carried value; `cnt` is the
number of known values. -/
def rowOfCarry (cf : Cf) (w : List RrdValue) (cnt : ℕ) : RrdValue :=
  match cf with
  | .average => carryOf .average (known w) / Dbl.ofNat cnt
  | .minimum => carryOf .minimum (known w)
  | .maximum => carryOf .maximum (known w)
  | _ => w.getLastD dnan

/-- The consolidation of a window that is known well enough, from its carried value. -/
theorem consolidate_eq_carry {cf : Cf} {w : List RrdValue} (hw : Finite w) {xff : ℚ}
    (h1 : xff < 1) (hpos : 0 < w.length) (hx : ¬ xff * w.length < unknown w) :
    consolidate cf xff w = rowOfCarry cf w (w.length - unknown w) := by
  have hne := known_ne_nil hw h1 hpos hx
  cases cf with
  | average =>
    have hlen := length_known_add_unknown hw
    have hcnt : w.length - unknown w = (known w).length := by omega
    have hnz : ((known w).length : ℚ) ≠ 0 := by
      simpa using hne
    simp only [consolidate, hx, if_false, rowOfCarry, carryOf, Dbl.ofNat, hcnt]
    exact (Dbl.num_div hnz).symm
  | minimum =>
    rcases Option.eq_none_or_eq_some (known w).min? with hm | ⟨m, hm⟩
    · exact absurd (List.min?_eq_none_iff.mp hm) hne
    · simp [consolidate, hx, rowOfCarry, carryOf, hm]
  | maximum =>
    rcases Option.eq_none_or_eq_some (known w).max? with hm | ⟨m, hm⟩
    · exact absurd (List.max?_eq_none_iff.mp hm) hne
    · simp [consolidate, hx, rowOfCarry, carryOf, hm]
  | _ => simp [consolidate, hx, rowOfCarry]

/-- `initialize_cdp_val` finishes the open window with `off` copies of a value. -/
theorem initializeCdpVal_eq {cf : Cf} (hcf : cf.isPlain = true) {c : CdpPrep}
    {w : List RrdValue} {off p : ℕ} (hoff : 0 < off) {v : RrdValue} (hv : v.isinf = false)
    (hc : cf ≠ .last → ifDnan c.cdpVal (carryOf cf []) = carryOf cf (known w)) :
    initializeCdpVal c cf v off p =
      rowOfCarry cf (w ++ List.replicate off v) (p - c.unknPdpCnt) := by
  rcases nan_or_num hv with rfl | ⟨q, rfl⟩
  · -- nothing known is added
    cases cf with
    | average =>
      have hcarry := hc (by decide)
      simp only [carryOf, List.sum_nil] at hcarry
      simp [initializeCdpVal, hcarry, rowOfCarry, carryOf, Dbl.ofNat]
    | minimum =>
      have hcarry := hc (by decide)
      simp only [carryOf, List.min?_nil, Option.elim_none] at hcarry
      rcases Option.eq_none_or_eq_some (known w).min? with hm | ⟨m, hm⟩
      · simp [initializeCdpVal, hcarry, rowOfCarry, carryOf, hm]
      · simp [initializeCdpVal, hcarry, rowOfCarry, carryOf, hm]
    | maximum =>
      have hcarry := hc (by decide)
      simp only [carryOf, List.max?_nil, Option.elim_none] at hcarry
      rcases Option.eq_none_or_eq_some (known w).max? with hm | ⟨m, hm⟩
      · simp [initializeCdpVal, hcarry, rowOfCarry, carryOf, hm]
      · simp [initializeCdpVal, hcarry, rowOfCarry, carryOf, hm]
    | last =>
      simp [initializeCdpVal, rowOfCarry, List.getLastD_eq_getLast?, List.getLast?_append,
        List.getLast?_replicate, hoff.ne']
    | _ => simp [Cf.isPlain] at hcf
  · have hadd (cf : Cf) : carryOf cf (known (w ++ List.replicate off (.num q))) =
        carryAdd cf (carryOf cf (known w)) off q := by
      rw [known_append, known_replicate_num, carryOf_append_replicate _ _ hoff]
    cases cf with
    | average =>
      simp only [rowOfCarry, hadd, ← hc (by decide)]
      rfl
    | minimum =>
      simp only [rowOfCarry, hadd, ← hc (by decide)]
      rfl
    | maximum =>
      simp only [rowOfCarry, hadd, ← hc (by decide)]
      rfl
    | last =>
      simp [initializeCdpVal, rowOfCarry, List.getLastD_eq_getLast?, List.getLast?_append,
        List.getLast?_replicate, hoff.ne']
    | _ => simp [Cf.isPlain] at hcf

/-- The open window is finite, and so is a run of a finite value. -/
theorem Finite.append_replicate {w : List RrdValue} (hw : Finite w) {v : RrdValue}
    (hv : v.isinf = false) (k : ℕ) : Finite (w ++ List.replicate k v) := by
  intro x hx
  rcases List.mem_append.mp hx with hx | hx
  · exact hw x hx
  · rw [(List.mem_replicate.mp hx).2]
    exact hv

/-- **The first completed row.** The primary value is the consolidation of the window that
was open, completed by the new value. -/
theorem updateCdp_primary {cf : Cf} (hcf : cf.isPlain = true) {c : CdpPrep}
    {w : List RrdValue} (hw : Finite w) {off p e steps : ℕ} (hlen : w.length + off = p)
    (hoff : 0 < off) (hs : steps ≠ 0) {v : RrdValue} (hv : v.isinf = false) {xff : ℚ}
    (h1 : xff < 1) (h : CdpHolds cf c w) :
    (updateCdp c cf v steps e off p (.num xff)).primaryVal =
      consolidate cf xff (w ++ List.replicate off v) := by
  set full := w ++ List.replicate off v with hfull
  have hflen : full.length = p := by simp [hfull, hlen]
  have hfin : Finite full := hw.append_replicate hv off
  -- the count of unknown values, as the comparison sees it
  obtain ⟨c', hc', hunk, hprim⟩ : ∃ c' : CdpPrep, c'.cdpVal = c.cdpVal ∧
      c'.unknPdpCnt = unknown full ∧
      (updateCdp c cf v steps e off p (.num xff)).primaryVal =
        if (Dbl.ofNat p * .num xff).lt (Dbl.ofNat c'.unknPdpCnt) then dnan
        else initializeCdpVal c' cf v off p := by
    rcases nan_or_num hv with rfl | ⟨q, rfl⟩
    · refine ⟨{ c with unknPdpCnt := c.unknPdpCnt + off, secondaryVal := dnan }, rfl, ?_, ?_⟩
      · simp [hfull, h.unkn]
      · simp [updateCdp, hs]
    · refine ⟨{ c with secondaryVal := .num q }, rfl, ?_, ?_⟩
      · simp [hfull, h.unkn]
      · simp [updateCdp, hs]
  rw [hprim, hunk]
  have hcmp : (Dbl.ofNat p * .num xff).lt (Dbl.ofNat (unknown full)) =
      decide (xff * full.length < unknown full) := by
    simp [Dbl.ofNat, hflen, mul_comm]
  rw [hcmp]
  by_cases hx : xff * full.length < unknown full
  · simp [hx, consolidate]
  · rw [consolidate_eq_carry hfin h1 (by omega) hx]
    simp only [hx, decide_false, Bool.false_eq_true, if_false]
    rw [initializeCdpVal_eq hcf hoff hv (fun hl => by rw [hc']; exact h.carry hl), ← hfull, hunk,
      hflen]

/-- **The rows after the first.** The secondary value is the new value itself. -/
theorem updateCdp_secondary {cf : Cf} {c : CdpPrep} {off p e steps : ℕ} (hs : steps ≠ 0)
    {v xff : RrdValue} (hv : v.isinf = false) :
    (updateCdp c cf v steps e off p xff).secondaryVal = v := by
  rcases nan_or_num hv with rfl | ⟨q, rfl⟩
  · simp [updateCdp, hs]
  · simp [updateCdp, hs]

end Rrdtool
