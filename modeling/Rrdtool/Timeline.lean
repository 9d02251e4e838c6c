import Rrdtool.Accumulate
import Rrdtool.Lib.Average
import Rrdtool.Position

/-!
# Primary data points as averages over time

Every argument says at which rate a DS has been counting since the last update, or that this is not
known. These samples lie one after the other on the time axis. `pdp_prep` holds what they amount to
since the last step boundary, and a PDP is their average over the steps that an argument completes.

* `pdp_accumulates` — this is what the scratch area of a DS holds after every update, in seconds and in
  amounts, and what `process_pdp_st` makes of it;
* `pdp_unknown_iff` — but a PDP is unknown where more than half of its step is only if the argument that
  completes it is known, or nothing else is.
-/

namespace Rrdtool

open Loop

/-! ## Samples -/

/-- A rate between two times; NaN if it is not known. -/
structure Sample : Type where
  start : ℕ
  stop : ℕ
  rate : RrdValue

/-- The seconds of a sample between two times. -/
def Sample.within (x : Sample) (a b : ℕ) : ℕ := min x.stop b - max x.start a

/-- The rates, with their seconds between two times. -/
def weights (tl : List Sample) (a b : ℕ) : List (Dbl × ℕ) := tl.map fun x => (x.rate, x.within a b)

/-- The seconds between two times that are covered by unknown rates. -/
def unknownSecs (tl : List Sample) (a b : ℕ) : ℕ := Dbl.unknownWeight (weights tl a b)

/-- The seconds between two times that are covered by known rates. -/
def knownSecs (tl : List Sample) (a b : ℕ) : ℕ := Dbl.knownWeight (weights tl a b)

/-- The sum of rate times seconds over the known part between two times. -/
def knownSum (tl : List Sample) (a b : ℕ) : RrdValue := Dbl.weightedSum (weights tl a b)

/-- The last step boundary at or before a time. -/
def stepStart (step t : ℕ) : ℕ := t - t % step

section Weights

variable {tl : List Sample} {x : Sample} {a b t : ℕ}

theorem weights_past (h : ∀ x ∈ tl, x.stop ≤ t) (hb : t ≤ b) : weights tl a b = weights tl a t := by
  refine List.map_congr_left fun x hx => ?_
  have := h x hx
  rw [Sample.within, Sample.within, Nat.min_eq_left (by omega), Nat.min_eq_left this]

theorem weights_before (h : ∀ x ∈ tl, x.stop ≤ a) : ∀ p ∈ weights tl a b, p.2 = 0 := by
  intro p hp
  obtain ⟨x, hx, rfl⟩ := List.mem_map.mp hp
  have := h x hx
  change min x.stop b - max x.start a = 0
  omega

theorem unknownSecs_cons : unknownSecs (x :: tl) a b =
    if x.rate.isnan then unknownSecs tl a b + x.within a b else unknownSecs tl a b := rfl

theorem knownSecs_cons : knownSecs (x :: tl) a b =
    if x.rate.isnan then knownSecs tl a b else knownSecs tl a b + x.within a b := rfl

end Weights

/-! ## What the scratch area holds -/

/-- `PDP_val`, NaN counting as zero. -/
def zeroIfNan (x : RrdValue) : RrdValue := if x.isnan then .num 0 else x

theorem zeroIfNan_isnan (x : RrdValue) : (zeroIfNan x).isnan = false := by
  rw [zeroIfNan]
  cases h : x.isnan with
  | true => rfl
  | false => exact h

theorem zeroIfNan_mul_zero (x : RrdValue) : zeroIfNan (x * .num 0) = .num 0 := by
  have hsign : Dbl.infSign 0 = .nan := by simp [Dbl.infSign]
  have hsign' : Dbl.infSign (-0) = .nan := by simp [Dbl.infSign]
  cases x with
  | nan => rfl
  | neginf =>
    change zeroIfNan (Dbl.infSign (-0)) = .num 0
    rw [hsign']
    rfl
  | num q =>
    rw [Dbl.num_mul, mul_zero]
    rfl
  | inf =>
    change zeroIfNan (Dbl.infSign 0) = .num 0
    rw [hsign]
    rfl

/-- **The scratch area of DS `i`**, in terms of the samples since the last step boundary. -/
structure PdpHolds (r : Rrd) (i : ℕ) (tl : List Sample) : Prop where
  past : ∀ x ∈ tl, x.stop ≤ r.lastUp
  usec : r.lastUpUsec = 0
  unkn : (r.pdpPrep i).unknSecCnt = unknownSecs tl (stepStart r.pdpStep r.lastUp) r.lastUp
  val : zeroIfNan (r.pdpPrep i).pdpVal = knownSum tl (stepStart r.pdpStep r.lastUp) r.lastUp
  known : 0 < knownSecs tl (stepStart r.pdpStep r.lastUp) r.lastUp → (r.pdpPrep i).pdpVal.isnan = false
  total : knownSecs tl (stepStart r.pdpStep r.lastUp) r.lastUp +
    unknownSecs tl (stepStart r.pdpStep r.lastUp) r.lastUp = r.lastUp % r.pdpStep
  limits : ∀ x ∈ tl, x.rate.isnan = false → outOfRange (r.dsDef i) x.rate = false

/-- **A new file**: everything before its creation is unknown. -/
theorem pdpHolds_create (a : CreateArgs) (random : ℕ → ℕ) (i : ℕ) :
    PdpHolds (rrdCreateFn a random) i [⟨0, a.lastUp, dnan⟩] := by
  have hwithin : Sample.within ⟨0, a.lastUp, dnan⟩ (stepStart a.pdpStep a.lastUp) a.lastUp =
      a.lastUp % a.pdpStep := by
    have := Nat.mod_le a.lastUp a.pdpStep
    simp only [Sample.within, stepStart]
    omega
  refine ⟨fun x hx => ?_, rfl, ?_, rfl, fun h => absurd h (lt_irrefl 0), ?_, fun x hx hn => ?_⟩
  · obtain rfl := List.mem_singleton.mp hx
    exact le_rfl
  · change a.lastUp % a.pdpStep = 0 + Sample.within ⟨0, a.lastUp, dnan⟩ (stepStart a.pdpStep a.lastUp) a.lastUp
    rw [hwithin, Nat.zero_add]
  · change 0 + (0 + Sample.within ⟨0, a.lastUp, dnan⟩ (stepStart a.pdpStep a.lastUp) a.lastUp) =
      a.lastUp % a.pdpStep
    rw [hwithin]
    omega
  · obtain rfl := List.mem_singleton.mp hx
    cases hn

/-! ## One argument -/

/-- The sample of a parsed argument. -/
def Upd.sample (u : Upd) (i : ℕ) : Sample :=
  ⟨u.rrd.lastUp, u.currentTime.toNat, u.newPdp (updateInterval u) i / .num (updateInterval u)⟩

/-- An argument with a time in whole seconds that crosses fewer than `2 ^ 31` steps. -/
structure Upd.Timely (u : Upd) : Prop where
  usec : u.currentTimeUsec = 0
  fits : u.currentTime.toNat / u.rrd.pdpStep - u.rrd.stepNo < 2 ^ 31

/-- **An argument that the accumulation bears**: it does not add opposite infinities either. -/
structure Upd.Tame (u : Upd) (i : ℕ) : Prop extends Upd.Timely u where
  noClash : ¬Dbl.Clash (u.rrd.pdpPrep i).pdpVal (u.newPdp (updateInterval u) i)

section Argument

variable {u : Upd} {i : ℕ} {tl : List Sample}

/-- The time of an argument in whole seconds. -/
structure Upd.Whole (u : Upd) : Prop where
  lt : u.rrd.lastUp < u.currentTime.toNat
  interval : updateInterval u = ((u.currentTime.toNat - u.rrd.lastUp : ℕ) : ℚ)

theorem Upd.whole {env : Env} {arg : Text} {s : Upd} (hu : parseDs env arg s = .ok u)
    (husec : u.currentTimeUsec = 0) (hlast : u.rrd.lastUpUsec = 0) : u.Whole := by
  obtain ⟨hle, hne⟩ := parseDs_ok hu
  have hpos : (u.rrd.lastUp : ℤ) < u.currentTime := by
    rw [husec, hlast] at hne
    rcases hle.lt_or_eq with h | h
    · exact h
    · exact absurd ⟨h.symm, le_rfl⟩ hne
  have hcast : ((u.currentTime.toNat : ℕ) : ℤ) = u.currentTime := Int.toNat_of_nonneg (by omega)
  have hlt : u.rrd.lastUp < u.currentTime.toNat := by omega
  refine ⟨hlt, ?_⟩
  rw [updateInterval, husec, hlast, Nat.cast_sub hlt.le]
  have hq : (u.currentTime : ℚ) = (u.currentTime.toNat : ℚ) := by
    rw [← Int.cast_natCast u.currentTime.toNat, hcast]
  rw [hq]
  simp

theorem Upd.Whole.pos (h : u.Whole) : 0 < updateInterval u := by
  have hlt := h.lt
  rw [h.interval]
  exact_mod_cast (by omega : 0 < u.currentTime.toNat - u.rrd.lastUp)

/-- A sample is known if its amount is. -/
theorem Upd.Whole.sample_isnan (h : u.Whole) :
    (u.sample i).rate.isnan = (u.newPdp (updateInterval u) i).isnan :=
  Dbl.isnan_div_pos h.pos _

/-- The rate of a reading is its amount by the interval. -/
theorem readValue_rate {dst : Dst} {reading lastDs : Text} {interval : ℚ} {v rate : RrdValue}
    (h : readValue dst reading lastDs interval = .ok (v, rate)) : rate = v / .num interval := by
  cases dst with
  | counter =>
    simp only [readValue] at h
    split_ifs at h <;> cases h <;> rfl
  | derive =>
    simp only [readValue] at h
    split_ifs at h <;> cases h <;> rfl
  | absolute =>
    simp only [readValue] at h
    split_ifs at h
    · cases h
    · cases h
    · cases h
      rfl
  | gauge =>
    simp only [readValue] at h
    split_ifs at h
    · cases h
    · cases h
    · cases h
      rfl
  | cdef =>
    cases h
    rfl

/-- A known sample is inside the limits of its DS. -/
theorem Upd.Whole.sample_limits (h : u.Whole) (hn : (u.sample i).rate.isnan = false) :
    outOfRange (u.rrd.dsDef i) (u.sample i).rate = false := by
  rw [h.sample_isnan] at hn
  rw [Upd.sample]
  simp only [Upd.newPdp] at hn ⊢
  split_ifs at hn ⊢ with htake
  · cases hread : readValue (u.rrd.dsDef i).dst (u.updvals (i + 1)) (u.rrd.pdpPrep i).lastDs
        (updateInterval u) with
    | error e =>
      rw [hread] at hn
      cases hn
    | ok p =>
      obtain ⟨v, rate⟩ := p
      rw [hread] at hn
      dsimp only at hn ⊢
      cases hout : outOfRange (u.rrd.dsDef i) rate with
      | true =>
        rw [hout] at hn
        cases hn
      | false =>
        rw [if_neg (by simp), ← readValue_rate hread]
        exact hout
  · cases hn

/-- The limits that hold for a rate. -/
theorem lt_of_outOfRange {d : DsDef} {rate : RrdValue} (h : outOfRange d rate = false)
    (hn : rate.isnan = false) : d.maxVal.lt rate = false ∧ rate.lt d.minVal = false := by
  have hnone : ∀ x : RrdValue, x.lt .nan = false := fun x => by cases x <;> rfl
  rw [outOfRange, hn, Bool.not_false, Bool.true_and, Bool.or_eq_false_iff] at h
  constructor
  · cases hm : d.maxVal.isnan with
    | true =>
      rw [Dbl.isnan_iff.mp hm]
      rfl
    | false => simpa [hm] using h.1
  · cases hm : d.minVal.isnan with
    | true => rw [Dbl.isnan_iff.mp hm, hnone]
    | false => simpa [hm] using h.2

/-! ### Where the time of an argument is -/

theorem stepStart_eq (step t : ℕ) : stepStart step t = t / step * step := by
  have := Nat.div_add_mod' t step
  rw [stepStart]
  omega

theorem stepStart_add_mod (step t : ℕ) : stepStart step t + t % step = t := by
  have := Nat.mod_le t step
  rw [stepStart]
  omega

theorem stepStart_mono {step t t' : ℕ} (h : t ≤ t') : stepStart step t ≤ stepStart step t' := by
  rw [stepStart_eq, stepStart_eq]
  exact Nat.mul_le_mul_right step (Nat.div_le_div_right h)

/-- A boundary that has been crossed is after the last update. -/
theorem lt_stepStart {step t t' : ℕ} (hs : 0 < step) (h : t / step < t' / step) :
    t < stepStart step t' := by
  rw [stepStart_eq]
  exact Nat.lt_of_lt_of_le (Nat.lt_div_mul_add hs |>.trans_le (by rw [← Nat.succ_mul]))
    (Nat.mul_le_mul_right step h)

/-- The elapsed steps of an argument. -/
theorem Upd.Timely.elapsed (h : u.Timely) (hs : 0 < u.rrd.pdpStep) :
    (u.elapsed (updateInterval u)).elapsedPdpSt =
      u.currentTime.toNat / u.rrd.pdpStep - u.rrd.lastUp / u.rrd.pdpStep :=
  (calculateElapsedSteps_eq u.rrd u.currentTime.toNat u.currentTimeUsec (updateInterval u) hs h.fits).1

/-- The parts of the interval before and after the boundary. -/
theorem Upd.elapsed_parts (husec : u.currentTimeUsec = 0) (hlast : u.rrd.lastUpUsec = 0)
    (hs : 0 < u.rrd.pdpStep)
    (hcross : u.rrd.lastUp / u.rrd.pdpStep < u.currentTime.toNat / u.rrd.pdpStep) :
    (u.elapsed (updateInterval u)).postInt = ((u.currentTime.toNat % u.rrd.pdpStep : ℕ) : ℚ) ∧
      (u.elapsed (updateInterval u)).preInt =
        ((stepStart u.rrd.pdpStep u.currentTime.toNat - u.rrd.lastUp : ℕ) : ℚ) := by
  have hlt := lt_stepStart hs hcross
  have hpassed : u.rrd.lastUp - u.rrd.lastUp % u.rrd.pdpStep <
      u.currentTime.toNat - u.currentTime.toNat % u.rrd.pdpStep :=
    Nat.lt_of_le_of_lt (Nat.sub_le _ _) hlt
  simp only [Upd.elapsed, calculateElapsedSteps, if_pos hpassed, husec, hlast]
  rw [Nat.cast_sub hlt.le]
  constructor
  · simp
  · simp [stepStart]

/-! ### The scratch area behind it -/

/-- What an argument does to the scratch area of DS `i`. -/
theorem Upd.next_added (hi : i < u.rrd.dsCnt) (hzero : (u.elapsed (updateInterval u)).elapsedPdpSt = 0) :
    let p := u.rrd.pdpPrep i
    let new := u.newPdp (updateInterval u) i
    (u.next (updateInterval u) i).unknSecCnt =
        (if new.isnan then p.unknSecCnt + ⌊updateInterval u⌋.toNat else p.unknSecCnt) ∧
      (u.next (updateInterval u) i).pdpVal =
        (if new.isnan then p.pdpVal else if p.pdpVal.isnan then new else p.pdpVal + new) := by
  have hprep : (u.prepared (updateInterval u) u.rrd.dsCnt).rrd.pdpPrep i = u.stored i := by
    simp [Upd.prepared, hi]
  have hnew : (u.prepared (updateInterval u) u.rrd.dsCnt).pdpNew i = u.newPdp (updateInterval u) i := by
    simp [Upd.prepared, hi]
  simp only [Upd.next, hzero, if_true, Upd.added, hprep, hnew, Upd.stored]
  split_ifs <;> exact ⟨rfl, rfl⟩

theorem Upd.next_ready (hi : i < u.rrd.dsCnt) (hne : (u.elapsed (updateInterval u)).elapsedPdpSt ≠ 0) :
    let new := u.newPdp (updateInterval u) i
    let post := (u.elapsed (updateInterval u)).postInt
    (u.next (updateInterval u) i).unknSecCnt = (if new.isnan then ⌊post⌋.toNat else 0) ∧
      (u.next (updateInterval u) i).pdpVal =
        (if new.isnan then dnan else new / .num (updateInterval u) * .num post) := by
  have hnew : (u.prepared (updateInterval u) u.rrd.dsCnt).pdpNew i = u.newPdp (updateInterval u) i := by
    simp [Upd.prepared, hi]
  simp only [Upd.next, if_neg hne, Upd.ready, hnew]
  split_ifs <;> exact ⟨rfl, rfl⟩

/-- The new sample between the last boundary and the time of the argument. -/
theorem Upd.sample_within (u : Upd) (i a : ℕ) :
    (u.sample i).within a u.currentTime.toNat = u.currentTime.toNat - max u.rrd.lastUp a := by
  change min u.currentTime.toNat u.currentTime.toNat - max u.rrd.lastUp a = _
  rw [Nat.min_self]

/-- The samples behind an argument that crosses no boundary. -/
theorem Upd.Whole.weights_same (h : u.Whole) (hpast : ∀ x ∈ tl, x.stop ≤ u.rrd.lastUp) (i : ℕ) :
    weights (u.sample i :: tl) (stepStart u.rrd.pdpStep u.rrd.lastUp) u.currentTime.toNat =
      ((u.sample i).rate, u.currentTime.toNat - u.rrd.lastUp) ::
        weights tl (stepStart u.rrd.pdpStep u.rrd.lastUp) u.rrd.lastUp := by
  have hle : stepStart u.rrd.pdpStep u.rrd.lastUp ≤ u.rrd.lastUp := Nat.sub_le _ _
  change (_, (u.sample i).within _ _) :: weights tl _ _ = _
  rw [Upd.sample_within, Nat.max_eq_left hle, weights_past hpast h.lt.le]

/-- The samples behind an argument that crosses a boundary. -/
theorem Upd.weights_crossed (hs : 0 < u.rrd.pdpStep)
    (hcross : u.rrd.lastUp / u.rrd.pdpStep < u.currentTime.toNat / u.rrd.pdpStep) (i : ℕ) :
    weights (u.sample i :: tl) (stepStart u.rrd.pdpStep u.currentTime.toNat) u.currentTime.toNat =
      ((u.sample i).rate, u.currentTime.toNat % u.rrd.pdpStep) ::
        weights tl (stepStart u.rrd.pdpStep u.currentTime.toNat) u.currentTime.toNat := by
  have hlt := lt_stepStart hs hcross
  have hadd := stepStart_add_mod u.rrd.pdpStep u.currentTime.toNat
  change (_, (u.sample i).within _ _) :: weights tl _ _ = _
  rw [Upd.sample_within, Nat.max_eq_right hlt.le]
  have hpost : u.currentTime.toNat - stepStart u.rrd.pdpStep u.currentTime.toNat =
      u.currentTime.toNat % u.rrd.pdpStep := by omega
  rw [hpost]

/-- An argument that crosses no boundary adds its sample. -/
theorem PdpHolds.added (h : PdpHolds u.rrd i tl) (hw : u.Whole) (ht : u.Tame i) (hi : i < u.rrd.dsCnt)
    (hs : 0 < u.rrd.pdpStep)
    (hsame : u.currentTime.toNat / u.rrd.pdpStep = u.rrd.lastUp / u.rrd.pdpStep) {p : PdpPrep}
    (hp : p = u.next (updateInterval u) i) :
    let B := stepStart u.rrd.pdpStep u.currentTime.toNat
    let tl' := u.sample i :: tl
    p.unknSecCnt = unknownSecs tl' B u.currentTime.toNat ∧
      zeroIfNan p.pdpVal = knownSum tl' B u.currentTime.toNat ∧
      (0 < knownSecs tl' B u.currentTime.toNat → p.pdpVal.isnan = false) ∧
      knownSecs tl' B u.currentTime.toNat + unknownSecs tl' B u.currentTime.toNat =
        u.currentTime.toNat % u.rrd.pdpStep := by
  have hB : stepStart u.rrd.pdpStep u.currentTime.toNat = stepStart u.rrd.pdpStep u.rrd.lastUp := by
    rw [stepStart_eq, stepStart_eq, hsame]
  have hzero : (u.elapsed (updateInterval u)).elapsedPdpSt = 0 := by
    rw [ht.elapsed hs, hsame, Nat.sub_self]
  obtain ⟨hunkn, hval⟩ := Upd.next_added hi hzero
  rw [← hp] at hunkn hval
  have hsecs : ⌊updateInterval u⌋.toNat = u.currentTime.toNat - u.rrd.lastUp := by
    rw [hw.interval, Int.floor_natCast, Int.toNat_natCast]
  have htotal : u.rrd.lastUp % u.rrd.pdpStep + (u.currentTime.toNat - u.rrd.lastUp) =
      u.currentTime.toNat % u.rrd.pdpStep := by
    have h1 := stepStart_add_mod u.rrd.pdpStep u.currentTime.toNat
    have h2 := stepStart_add_mod u.rrd.pdpStep u.rrd.lastUp
    have := hw.lt
    omega
  have hold := h.total
  have hunk := h.unkn
  simp only [hB, unknownSecs, knownSecs, knownSum, hw.weights_same h.past, Dbl.unknownWeight,
    Dbl.knownWeight] at hold hunk ⊢
  have hnan := hw.sample_isnan (i := i)
  cases hn : (u.newPdp (updateInterval u) i).isnan with
  | true =>
    rw [hn] at hnan hunkn hval
    simp only [hnan, if_true] at hunkn hval ⊢
    rw [Dbl.weightedSum_unknown hnan, hval]
    refine ⟨by rw [hunkn, hunk, hsecs], h.val, h.known, by omega⟩
  | false =>
    rw [hn] at hnan hunkn hval
    simp only [hnan, Bool.false_eq_true, if_false] at hunkn hval ⊢
    have hsecs_pos : 0 < u.currentTime.toNat - u.rrd.lastUp := by
      have := hw.lt
      omega
    have hamount : (u.sample i).rate * .num ((u.currentTime.toNat - u.rrd.lastUp : ℕ) : ℚ) =
        u.newPdp (updateInterval u) i := by
      rw [← hw.interval]
      exact Dbl.div_mul_cancel_pos hw.pos _
    -- the amount is added to what has been accumulated, or starts it
    have hsum : p.pdpVal = zeroIfNan (u.rrd.pdpPrep i).pdpVal + u.newPdp (updateInterval u) i ∧
        p.pdpVal.isnan = false := by
      cases hpv : (u.rrd.pdpPrep i).pdpVal.isnan with
      | true =>
        simp only [hpv, if_true] at hval
        rw [hval, zeroIfNan, hpv, if_pos rfl, Dbl.zero_add_dbl]
        exact ⟨rfl, hn⟩
      | false =>
        simp only [hpv, Bool.false_eq_true, if_false] at hval
        rw [hval, zeroIfNan, hpv]
        exact ⟨rfl, Dbl.isnan_add hpv hn ht.noClash⟩
    have hknown : zeroIfNan p.pdpVal = p.pdpVal := by rw [zeroIfNan, hsum.2]; rfl
    refine ⟨hunkn.trans hunk, ?_, fun _ => hsum.2, by omega⟩
    rw [Dbl.weightedSum_known hnan hsecs_pos, hamount, hknown, hsum.1, h.val]
    rfl

/-- An argument that crosses a boundary starts again with its sample. -/
theorem PdpHolds.ready (h : PdpHolds u.rrd i tl) (hw : u.Whole) (ht : u.Tame i) (hi : i < u.rrd.dsCnt)
    (hs : 0 < u.rrd.pdpStep)
    (hcross : u.rrd.lastUp / u.rrd.pdpStep < u.currentTime.toNat / u.rrd.pdpStep) {p : PdpPrep}
    (hp : p = u.next (updateInterval u) i) :
    let B := stepStart u.rrd.pdpStep u.currentTime.toNat
    let tl' := u.sample i :: tl
    p.unknSecCnt = unknownSecs tl' B u.currentTime.toNat ∧
      zeroIfNan p.pdpVal = knownSum tl' B u.currentTime.toNat ∧
      (0 < knownSecs tl' B u.currentTime.toNat → p.pdpVal.isnan = false) ∧
      knownSecs tl' B u.currentTime.toNat + unknownSecs tl' B u.currentTime.toNat =
        u.currentTime.toNat % u.rrd.pdpStep := by
  have hne : (u.elapsed (updateInterval u)).elapsedPdpSt ≠ 0 := by
    rw [ht.elapsed hs]
    omega
  obtain ⟨hpost, -⟩ := Upd.elapsed_parts ht.usec h.usec hs hcross
  obtain ⟨hunkn, hval⟩ := Upd.next_ready hi hne
  rw [← hp, hpost] at hunkn hval
  -- the old samples are all before the boundary
  have hbefore : ∀ x ∈ tl, x.stop ≤ stepStart u.rrd.pdpStep u.currentTime.toNat :=
    fun x hx => (h.past x hx).trans (lt_stepStart hs hcross).le
  obtain ⟨hsum, hk, hu⟩ := Dbl.weightless (weights_before (b := u.currentTime.toNat) hbefore)
  simp only [unknownSecs, knownSecs, knownSum, Upd.weights_crossed hs hcross, Dbl.unknownWeight,
    Dbl.knownWeight, hk, hu, Nat.zero_add]
  have hnan := hw.sample_isnan (i := i)
  cases hn : (u.newPdp (updateInterval u) i).isnan with
  | true =>
    rw [hn] at hnan hunkn hval
    simp only [hnan, if_true, Int.floor_natCast, Int.toNat_natCast] at hunkn hval ⊢
    rw [Dbl.weightedSum_unknown hnan, hsum, hval, hunkn]
    exact ⟨rfl, rfl, fun h => absurd h (lt_irrefl 0), Nat.zero_add _⟩
  | false =>
    rw [hn] at hnan hunkn hval
    simp only [hnan, Bool.false_eq_true, if_false] at hunkn hval ⊢
    obtain h0 | hpos := Nat.eq_zero_or_pos (u.currentTime.toNat % u.rrd.pdpStep)
    · -- the argument ends at the boundary
      rw [h0] at hval ⊢
      rw [Dbl.weightedSum_zero rfl, hsum]
      refine ⟨hunkn, ?_, fun h => absurd h (lt_irrefl 0), rfl⟩
      rw [hval, Nat.cast_zero]
      exact zeroIfNan_mul_zero _
    · have hposq : (0 : ℚ) < ((u.currentTime.toNat % u.rrd.pdpStep : ℕ) : ℚ) := by exact_mod_cast hpos
      have hrate : p.pdpVal =
          (u.sample i).rate * .num ((u.currentTime.toNat % u.rrd.pdpStep : ℕ) : ℚ) := hval
      have hknown : p.pdpVal.isnan = false := by rw [hrate, Dbl.isnan_mul_pos hposq, hnan]
      refine ⟨hunkn, ?_, fun _ => hknown, Nat.add_zero _⟩
      rw [Dbl.weightedSum_known hnan hpos, hsum, Dbl.zero_add_dbl, zeroIfNan, hknown]
      exact hrate

/-! ### The PDP it completes -/

/-- The samples between the last boundary and the one that an argument reaches. -/
theorem Upd.weights_completed (hpast : ∀ x ∈ tl, x.stop ≤ u.rrd.lastUp)
    (hs : 0 < u.rrd.pdpStep)
    (hcross : u.rrd.lastUp / u.rrd.pdpStep < u.currentTime.toNat / u.rrd.pdpStep) (i : ℕ) :
    weights (u.sample i :: tl) (stepStart u.rrd.pdpStep u.rrd.lastUp)
        (stepStart u.rrd.pdpStep u.currentTime.toNat) =
      ((u.sample i).rate, stepStart u.rrd.pdpStep u.currentTime.toNat - u.rrd.lastUp) ::
        weights tl (stepStart u.rrd.pdpStep u.rrd.lastUp) u.rrd.lastUp := by
  have hlt := lt_stepStart hs hcross
  have hle : stepStart u.rrd.pdpStep u.rrd.lastUp ≤ u.rrd.lastUp := Nat.sub_le _ _
  have hle' : stepStart u.rrd.pdpStep u.currentTime.toNat ≤ u.currentTime.toNat := Nat.sub_le _ _
  change (_, min u.currentTime.toNat _ - max u.rrd.lastUp _) :: weights tl _ _ = _
  rw [Nat.min_eq_right hle', Nat.max_eq_left hle, weights_past hpast hlt.le]

/-- The seconds of the steps that an argument completes. -/
theorem Upd.Timely.diff (h : u.Timely) (hs : 0 < u.rrd.pdpStep) :
    (u.elapsed (updateInterval u)).elapsedPdpSt * u.rrd.pdpStep =
      stepStart u.rrd.pdpStep u.currentTime.toNat - stepStart u.rrd.pdpStep u.rrd.lastUp := by
  rw [h.elapsed hs, stepStart_eq, stepStart_eq, Nat.sub_mul]

/-- The PDP of DS `i` that a parsed argument completes. -/
def Upd.pdp (u : Upd) (i : ℕ) : RrdValue :=
  (u.prepared (updateInterval u) u.rrd.dsCnt).pdpSt (updateInterval u)
    (u.elapsed (updateInterval u)).preInt ((u.elapsed (updateInterval u)).elapsedPdpSt * u.rrd.pdpStep) i

/-- A known sum divided by no seconds. -/
theorem div_zero_isnan {x : RrdValue} (h : zeroIfNan x = .num 0) : (x / .num 0).isnan = true := by
  cases x with
  | nan => rfl
  | neginf => cases h
  | inf => cases h
  | num q =>
    obtain rfl : q = 0 := Dbl.num.inj h
    rfl

/-- Infinite amounts stay infinite for any part of the interval. -/
theorem clash_scaled {x y : RrdValue} {k l : ℚ} (hk : 0 < k) (hl : 0 < l) :
    Dbl.Clash (zeroIfNan x) (y / .num k * .num l) ↔ Dbl.Clash x y := by
  have hx : ∀ z, z.isnan = false → z ≠ .num 0 → (zeroIfNan x = z ↔ x = z) := by
    intro z hz h0
    rw [zeroIfNan]
    cases hx : x.isnan with
    | true =>
      refine ⟨fun h => absurd h.symm h0, fun h => ?_⟩
      rw [h, hz] at hx
      cases hx
    | false => exact Iff.rfl
  have hy : ∀ z, (∀ q, z ≠ .num q) → (y / .num k * .num l = z ↔ y = z) := by
    intro z hz
    cases y with
    | nan => exact Iff.rfl
    | neginf => rw [Dbl.neginf_div_pos hk, Dbl.neginf_mul_pos hl]
    | num q =>
      rw [Dbl.num_div_pos hk, Dbl.num_mul]
      exact ⟨fun h => absurd h.symm (hz _), fun h => absurd h.symm (hz _)⟩
    | inf => rw [Dbl.inf_div_pos hk, Dbl.inf_mul_pos hl]
  rw [Dbl.Clash, Dbl.Clash, hx .inf rfl (by simp), hx .neginf rfl (by simp), hy .inf (by simp),
    hy .neginf (by simp)]

/-- A value that is dropped on `c`, and unknown on `k`. -/
theorem ite_or_of {c k : Prop} [Decidable c] [Decidable k] {x y : RrdValue} (hk : k → x.isnan = true)
    (hnk : ¬k → x = y) :
    if c ∨ k then (if c then dnan else x).isnan = true else (if c then dnan else x) = y := by
  by_cases hc : c
  · simp only [hc, true_or, if_true]
    rfl
  · by_cases h : k
    · simpa only [hc, h, or_true, if_true, if_false] using hk h
    · simpa only [hc, h, or_self, if_false] using hnk h

/-- **What `process_pdp_st` makes of the scratch area**: nothing, if the heartbeat has been missed or
too much of it is unknown; otherwise what is known, by the seconds that are known. -/
theorem PdpHolds.pdp_eq (h : PdpHolds u.rrd i tl) (hw : u.Whole) (ht : u.Timely) (hi : i < u.rrd.dsCnt)
    (hs : 0 < u.rrd.pdpStep)
    (hcross : u.rrd.lastUp / u.rrd.pdpStep < u.currentTime.toNat / u.rrd.pdpStep) :
    let B := stepStart u.rrd.pdpStep u.rrd.lastUp
    let B' := stepStart u.rrd.pdpStep u.currentTime.toNat
    let tl' := u.sample i :: tl
    knownSecs tl' B B' + unknownSecs tl' B B' = B' - B ∧
      ((knownSum tl' B B').isnan = true ↔
        Dbl.Clash (u.rrd.pdpPrep i).pdpVal (u.newPdp (updateInterval u) i)) ∧
      if (((u.rrd.dsDef i).mrhbCnt : ℚ) < updateInterval u ∨
          (u.rrd.pdpStep : ℚ) / 2 < (u.rrd.pdpPrep i).unknSecCnt) ∨ knownSecs tl' B B' = 0 then
        (u.pdp i).isnan = true
      else u.pdp i = knownSum tl' B B' / .num (knownSecs tl' B B') := by
  intro B B' tl'
  have hlt : u.rrd.lastUp < B' := lt_stepStart hs hcross
  obtain ⟨-, hpre⟩ := Upd.elapsed_parts ht.usec h.usec hs hcross
  have hprep : (u.prepared (updateInterval u) u.rrd.dsCnt).rrd.pdpPrep i = u.stored i := by
    simp [Upd.prepared, hi]
  have hnew : (u.prepared (updateInterval u) u.rrd.dsCnt).pdpNew i = u.newPdp (updateInterval u) i := by
    simp [Upd.prepared, hi]
  have hpos : 0 < B' - u.rrd.lastUp := by omega
  have hposq : (0 : ℚ) < ((B' - u.rrd.lastUp : ℕ) : ℚ) := by exact_mod_cast hpos
  have hold : Dbl.knownWeight (weights tl B u.rrd.lastUp) +
      Dbl.unknownWeight (weights tl B u.rrd.lastUp) = u.rrd.lastUp % u.rrd.pdpStep := h.total
  have hunk : (u.rrd.pdpPrep i).unknSecCnt = Dbl.unknownWeight (weights tl B u.rrd.lastUp) := h.unkn
  have hsum : zeroIfNan (u.rrd.pdpPrep i).pdpVal = Dbl.weightedSum (weights tl B u.rrd.lastUp) := h.val
  have hadd : B + u.rrd.lastUp % u.rrd.pdpStep = u.rrd.lastUp := stepStart_add_mod _ _
  have hcomp : weights tl' B B' = ((u.sample i).rate, B' - u.rrd.lastUp) :: weights tl B u.rrd.lastUp :=
    Upd.weights_completed h.past hs hcross i
  have hnan := hw.sample_isnan (i := i)
  have hpdp : u.pdp i = if ((u.rrd.dsDef i).mrhbCnt : ℚ) < updateInterval u ∨
      (u.rrd.pdpStep : ℚ) / 2 < (u.rrd.pdpPrep i).unknSecCnt then dnan
    else (if (u.newPdp (updateInterval u) i).isnan then (u.rrd.pdpPrep i).pdpVal
      else zeroIfNan (u.rrd.pdpPrep i).pdpVal + (u.sample i).rate * .num ((B' - u.rrd.lastUp : ℕ) : ℚ)) /
        .num (((B' - B : ℕ) : ℚ) - (u.rrd.pdpPrep i).unknSecCnt -
          if (u.newPdp (updateInterval u) i).isnan then ((B' - u.rrd.lastUp : ℕ) : ℚ) else 0) := by
    simp only [Upd.pdp, Upd.pdpSt, hprep, hnew, hpre, ht.diff hs]
    rfl
  rw [hpdp]
  simp only [knownSecs, unknownSecs, knownSum, hcomp, Dbl.unknownWeight, Dbl.knownWeight]
  cases hn : (u.newPdp (updateInterval u) i).isnan with
  | true =>
    rw [hn] at hnan
    simp only [hnan, if_true]
    rw [Dbl.weightedSum_unknown hnan]
    refine ⟨by omega, ?_, ?_⟩
    · rw [← hsum, zeroIfNan_isnan, Dbl.isnan_iff.mp hn]
      simp [Dbl.Clash]
    have hden : ((B' - B : ℕ) : ℚ) - (u.rrd.pdpPrep i).unknSecCnt - ((B' - u.rrd.lastUp : ℕ) : ℚ) =
        (Dbl.knownWeight (weights tl B u.rrd.lastUp) : ℕ) := by
      have hnat : B' - B = Dbl.knownWeight (weights tl B u.rrd.lastUp) + (u.rrd.pdpPrep i).unknSecCnt +
          (B' - u.rrd.lastUp) := by omega
      rw [hnat]
      push_cast
      ring
    rw [hden]
    refine ite_or_of ?_ ?_
    · -- nothing is known
      intro h0
      have hempty := Dbl.weightedSum_of_knownWeight h0
      rw [h0, Nat.cast_zero]
      exact div_zero_isnan (hsum.trans hempty)
    · intro hne
      have hknown := h.known (Nat.pos_of_ne_zero hne)
      rw [← hsum, zeroIfNan, hknown]
      rfl
  | false =>
    rw [hn] at hnan
    simp only [hnan, Bool.false_eq_true, if_false]
    rw [Dbl.weightedSum_known hnan hpos, ← hsum]
    refine ⟨by omega, ?_, ?_⟩
    · rw [← clash_scaled hw.pos hposq]
      exact Dbl.isnan_add_iff (zeroIfNan_isnan _) ((Dbl.isnan_mul_pos hposq _).trans hnan)
    · have hden : ((B' - B : ℕ) : ℚ) - (u.rrd.pdpPrep i).unknSecCnt - 0 =
          (Dbl.knownWeight (weights tl B u.rrd.lastUp) + (B' - u.rrd.lastUp) : ℕ) := by
        have hnat : B' - B = Dbl.knownWeight (weights tl B u.rrd.lastUp) + (B' - u.rrd.lastUp) +
            (u.rrd.pdpPrep i).unknSecCnt := by omega
        rw [hnat]
        push_cast
        ring
      rw [hden]
      refine ite_or_of (fun h0 => absurd h0 (by omega)) fun _ => rfl

end Argument

/-! ## Whole runs -/

section Run

variable {env : Env} {arg : Text} {s t u : Upd} {i : ℕ} {tl : List Sample} {a : CreateArgs}
  {random : ℕ → ℕ}

/-- An argument is parsed without a change to the file. -/
theorem parseDs_rrd (hu : parseDs env arg s = .ok u) : u.rrd = s.rrd := by
  obtain ⟨_, _, _, rfl⟩ : ParseFrame s u := Outcome.of_state_ok hu (parseDs_state arg s)
  rfl

/-- **One argument**: its sample goes in front of the others. -/
theorem PdpHolds.next (h : PdpHolds s.rrd i tl) (hu : parseDs env arg s = .ok u)
    (harg : processArg env arg s = .ok t) (ht : u.Tame i) (hi : i < s.rrd.dsCnt)
    (hs : 0 < s.rrd.pdpStep) : PdpHolds t.rrd i (u.sample i :: tl) := by
  obtain ⟨u₁, hu₁, -, hlast, husec, hprep⟩ := processArg_pdpPrep harg
  obtain rfl : u₁ = u := Outcome.ok.inj (hu₁.symm.trans hu)
  have hdefs := processArg_sameDefs harg
  rw [← parseDs_rrd hu] at h hi hs hdefs
  have hw : u₁.Whole := Upd.whole hu ht.usec h.usec
  have hmono : u₁.rrd.lastUp / u₁.rrd.pdpStep ≤ u₁.currentTime.toNat / u₁.rrd.pdpStep :=
    Nat.div_le_div_right hw.lt.le
  have hscratch : let B := stepStart u₁.rrd.pdpStep u₁.currentTime.toNat
      let tl' := u₁.sample i :: tl
      (t.rrd.pdpPrep i).unknSecCnt = unknownSecs tl' B u₁.currentTime.toNat ∧
        zeroIfNan (t.rrd.pdpPrep i).pdpVal = knownSum tl' B u₁.currentTime.toNat ∧
        (0 < knownSecs tl' B u₁.currentTime.toNat → (t.rrd.pdpPrep i).pdpVal.isnan = false) ∧
        knownSecs tl' B u₁.currentTime.toNat + unknownSecs tl' B u₁.currentTime.toNat =
          u₁.currentTime.toNat % u₁.rrd.pdpStep := by
    obtain hcross | hsame := hmono.lt_or_eq
    · exact h.ready hw ht hi hs hcross (hprep i hi)
    · exact h.added hw ht hi hs hsame.symm (hprep i hi)
  rw [← hlast, ← hdefs.pdpStep] at hscratch
  obtain ⟨hunkn, hval, hknown, htotal⟩ := hscratch
  refine ⟨fun x hx => ?_, husec.trans ht.usec, hunkn, hval, hknown, htotal, fun x hx hn => ?_⟩
  · obtain rfl | hx := List.mem_cons.mp hx
    · exact hlast.ge
    · exact (h.past x hx).trans (hlast ▸ hw.lt.le)
  · rw [hdefs.dsDef]
    obtain rfl | hx := List.mem_cons.mp hx
    · exact hw.sample_limits hn
    · exact h.limits x hx hn

/-- The end of a call keeps the scratch area. -/
theorem PdpHolds.nextUpdate (h : PdpHolds s.rrd i tl) (hn : NextUpdate s t) : PdpHolds t.rrd i tl := by
  obtain ⟨hdefs, hprep, hlast, husec⟩ := hn.pdpPrep
  have hstep := hdefs.pdpStep
  refine ⟨by rw [hlast]; exact h.past, husec.trans h.usec, ?_, ?_, ?_, ?_, by rw [hdefs.dsDef]; exact h.limits⟩
  · rw [hprep, hlast, hstep]
    exact h.unkn
  · rw [hprep, hlast, hstep]
    exact h.val
  · rw [hprep, hlast, hstep]
    exact h.known
  · rw [hlast, hstep]
    exact h.total

/-- **The samples of DS `i`**, newest first, in a file that `rrd_create_r` has made and that any number
of calls with any number of arguments have updated, if the accumulation bears them. -/
inductive Sampled (a : CreateArgs) (random : ℕ → ℕ) (i : ℕ) : Upd → List Sample → Prop where
  /-- nothing is known before the file was created -/
  | create (junk : Upd) : Sampled a random i (junk.start (rrdCreateFn a random)) [⟨0, a.lastUp, dnan⟩]
  /-- an argument that succeeds -/
  | arg {env : Env} {arg : Text} {s t u : Upd} {tl : List Sample} (h : Sampled a random i s tl)
      (hu : parseDs env arg s = .ok u) (harg : processArg env arg s = .ok t) (ht : u.Tame i) :
      Sampled a random i t (u.sample i :: tl)
  /-- the end of a call and the start of the next -/
  | next {s t : Upd} {tl : List Sample} (h : Sampled a random i s tl) (hn : NextUpdate s t) :
      Sampled a random i t tl

theorem Sampled.sameDefs (h : Sampled a random i s tl) : SameDefs (rrdCreateFn a random) s.rrd := by
  induction h with
  | create junk => exact SameDefs.refl _
  | arg _ _ harg _ ih => exact ih.trans (processArg_sameDefs harg)
  | next _ hn ih => exact ih.trans hn.pdpPrep.1

/-- **The scratch area after every update.** -/
theorem Sampled.pdpHolds (h : Sampled a random i s tl) (hi : i < a.dsCnt) : PdpHolds s.rrd i tl := by
  induction h with
  | create junk => exact pdpHolds_create a random i
  | arg h hu harg ht ih =>
    have hdefs := h.sameDefs
    refine ih.next hu harg ht ?_ ?_
    · rw [hdefs.dsCnt]
      exact hi
    · rw [hdefs.pdpStep]
      exact a.pdpStep_pos
  | next _ hn ih => exact ih.nextUpdate hn

/-- The arguments of one call that the accumulation bears. -/
def TameArgs (env : Env) (i : ℕ) : List Text → Upd → Prop
  | [], _ => True
  | arg :: args, s => ∀ u t, parseDs env arg s = .ok u → processArg env arg s = .ok t →
      u.Tame i ∧ TameArgs env i args t

theorem Sampled.args {args : List Text} (h : Sampled a random i s tl) (ht : TameArgs env i args s)
    (hargs : processArgs env args s = .ok t) : ∃ tl', Sampled a random i t (tl' ++ tl) := by
  induction args generalizing s tl with
  | nil =>
    cases hargs
    exact ⟨[], h⟩
  | cons arg args ih =>
    obtain ⟨v, hv, hargs⟩ := Outcome.andThen_eq_ok.mp hargs
    obtain ⟨u, hu, -⟩ := processArg_pdpPrep hv
    obtain ⟨htame, hrest⟩ := ht u v hu hv
    obtain ⟨tl', h'⟩ := ih (h.arg hu hv htame) hrest hargs
    exact ⟨tl' ++ [u.sample i], by simpa using h'⟩

/-- **A call of `rrd_update`** adds the samples of its arguments. -/
theorem Sampled.update {args : List Text} {junk : Upd} {r r' : Rrd}
    (h : Sampled a random i (junk.start r) tl) (ht : TameArgs env i args (junk.start r))
    (hupd : rrdUpdate env junk args r = .ok r') (junk' : Upd) :
    ∃ tl', Sampled a random i (junk'.start r') (tl' ++ tl) := by
  simp only [rrdUpdate] at hupd
  cases hargs : processArgs env args (junk.start r) with
  | fail e s =>
    rw [hargs] at hupd
    cases hupd
  | ok s =>
    rw [hargs] at hupd
    obtain rfl := Outcome.ok.inj hupd
    obtain ⟨tl', h'⟩ := h.args ht hargs
    exact ⟨tl', h'.next (.call junk')⟩

/-- A step boundary that an argument has crossed. -/
theorem processArg_crossed (hu : parseDs env arg s = .ok u) (harg : processArg env arg s = .ok t)
    (ht : u.Timely) (hs : 0 < s.rrd.pdpStep) (hi : i < s.rrd.dsCnt) (hc : (s.rrd.dsDef i).dst ≠ .cdef)
    (hcross : s.rrd.lastUp / s.rrd.pdpStep < t.rrd.lastUp / s.rrd.pdpStep) :
    t.rrd.lastUp = u.currentTime.toNat ∧ t.pdpTemp i = u.pdp i := by
  obtain ⟨u₁, hu₁, -, hlast, -⟩ := processArg_pdpPrep harg
  obtain rfl : u₁ = u := Outcome.ok.inj (hu₁.symm.trans hu)
  rw [← parseDs_rrd hu] at hs hi hc hcross
  refine ⟨hlast, processArg_pdpTemp harg hu ?_ hi hc⟩
  rw [ht.elapsed hs]
  rw [hlast] at hcross
  omega

/-- `DS:d:GAUGE:600:U:U` with a step of 300 seconds, created at time 900: the first call. -/
def gaugeStart : Upd :=
  (Upd.blank (rrdCreateFn .single fun _ => 0)).start (rrdCreateFn .single fun _ => 0)

/-- **When a completed step is unknown**: the unknown part of the scratch area is more than half of the
step, or nothing is known, or opposite infinities have met. -/
theorem PdpHolds.pdp_isnan_iff (h : PdpHolds u.rrd i tl) (hw : u.Whole) (ht : u.Timely)
    (hi : i < u.rrd.dsCnt) (hs : 0 < u.rrd.pdpStep)
    (hone : u.currentTime.toNat / u.rrd.pdpStep = u.rrd.lastUp / u.rrd.pdpStep + 1)
    (hbeat : updateInterval u ≤ (u.rrd.dsDef i).mrhbCnt) :
    let B := stepStart u.rrd.pdpStep u.rrd.lastUp
    let B' := stepStart u.rrd.pdpStep u.currentTime.toNat
    (u.pdp i).isnan = true ↔
      u.rrd.pdpStep < 2 * unknownSecs tl B u.rrd.lastUp ∨
        unknownSecs (u.sample i :: tl) B B' = u.rrd.pdpStep ∨
        Dbl.Clash (u.rrd.pdpPrep i).pdpVal (u.newPdp (updateInterval u) i) := by
  intro B B'
  obtain ⟨htotal, hnan, hpdp⟩ := h.pdp_eq hw ht hi hs (by omega)
  have hstep : B' = B + u.rrd.pdpStep := by
    simp only [B, B', stepStart_eq, hone, Nat.succ_mul]
  have hunkn : (u.rrd.pdpPrep i).unknSecCnt = unknownSecs tl B u.rrd.lastUp := h.unkn
  have hhalf : (u.rrd.pdpStep : ℚ) / 2 < (u.rrd.pdpPrep i).unknSecCnt ↔
      u.rrd.pdpStep < 2 * unknownSecs tl B u.rrd.lastUp := by
    rw [hunkn, div_lt_iff₀ (by norm_num : (0 : ℚ) < 2), mul_comm]
    exact_mod_cast Iff.rfl
  have hnone : knownSecs (u.sample i :: tl) B B' = 0 ↔
      unknownSecs (u.sample i :: tl) B B' = u.rrd.pdpStep := by
    have : knownSecs (u.sample i :: tl) B B' + unknownSecs (u.sample i :: tl) B B' = B' - B := htotal
    omega
  have hdrop_iff : (((u.rrd.dsDef i).mrhbCnt : ℚ) < updateInterval u ∨
      (u.rrd.pdpStep : ℚ) / 2 < (u.rrd.pdpPrep i).unknSecCnt) ∨ knownSecs (u.sample i :: tl) B B' = 0 ↔
      u.rrd.pdpStep < 2 * unknownSecs tl B u.rrd.lastUp ∨
        unknownSecs (u.sample i :: tl) B B' = u.rrd.pdpStep := by
    rw [or_iff_right (not_lt.mpr hbeat), hhalf, hnone]
  rw [← or_assoc, ← hdrop_iff]
  split_ifs at hpdp with hdrop
  · exact ⟨fun _ => .inl hdrop, fun _ => hpdp⟩
  · have hpos : 0 < knownSecs (u.sample i :: tl) B B' := Nat.pos_of_ne_zero fun h0 => hdrop (.inr h0)
    have hposq : (0 : ℚ) < (knownSecs (u.sample i :: tl) B B' : ℕ) := by exact_mod_cast hpos
    rw [hpdp, or_iff_right hdrop, Dbl.isnan_div_pos hposq]
    exact hnan

end Run

end Rrdtool
