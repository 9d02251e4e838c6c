import Rrdtool.Cells
import Rrdtool.Consolidate

/-!
# What an archive holds

The PDP stream of a DS is the list of all its PDPs since time zero: unknown up to the
creation of the file, and then, for each update that crosses a step, the value `pdp_temp` of
that update once for each step crossed. `History` runs a file and collects the streams.

`ArchiveHolds` is the invariant of one RRA and one DS over such runs: the preparation area
describes the open window of the stream, and every row number that the ring still holds is
the consolidation of its window, or what `rrd_create_fn` left there when the window ended
before the creation. Row number `M` ends at time `M * pdp_cnt * pdp_step`.
-/

namespace Rrdtool

open Loop Window

/-! ## Histories -/

/-- The PDPs that the arguments of a call add to the stream of each DS. -/
def crossed (env : Env) : List Text → Upd → ℕ → List RrdValue
  | [], _, _ => []
  | arg :: args, s, d =>
    match processArg env arg s with
    | .ok t => List.replicate (t.rrd.stepNo - s.rrd.stepNo) (t.pdpTemp d) ++ crossed env args t d
    | .fail _ _ => []

/-- **Histories**: an RRD that was created from `a`, and the PDP stream of every DS. -/
inductive History (a : CreateArgs) (random : ℕ → ℕ) : Rrd → (ℕ → List RrdValue) → Prop where
  /-- a new file: all PDPs before the creation are unknown -/
  | create : History a random (rrdCreateFn a random)
      fun _ => List.replicate (a.lastUp / a.pdpStep) dnan
  /-- one more successful call -/
  | update {rrd rrd' : Rrd} {pdps : ℕ → List RrdValue} (env : Env) (junk : Upd)
      (args : List Text) : History a random rrd pdps → StepsFit env args (junk.start rrd) →
      rrdUpdate env junk args rrd = .ok rrd' →
      History a random rrd' fun d => pdps d ++ crossed env args (junk.start rrd) d

/-- The number of the last row of RRA `i` that ended before the creation. -/
def CreateArgs.rowNo (a : CreateArgs) (i : ℕ) : ℕ :=
  a.lastUp / ((a.rraDef i).pdpCnt * a.pdpStep)

/-- The ring of RRA `i` keeps row number `M` in this row. -/
def CreateArgs.rowOf (a : CreateArgs) (random : ℕ → ℕ) (i : ℕ) (M : ℤ) : ℕ :=
  Ring.slot (a.rraDef i).rowCnt ((random i % (a.rraDef i).rowCnt : ℕ) - a.rowNo i) M

/-- `k` rows further in the ring. -/
theorem CreateArgs.rowOf_add {a : CreateArgs} {i : ℕ} (hi : i < a.rraCnt) (random : ℕ → ℕ)
    (M : ℤ) (k : ℕ) :
    a.rowOf random i (M + k) = (a.rowOf random i M + k) % (a.rraDef i).rowCnt :=
  Ring.slot_add (a.rowCnt_pos i hi) k

theorem CreateArgs.rowOf_lt {a : CreateArgs} {i : ℕ} (hi : i < a.rraCnt) (random : ℕ → ℕ)
    (M : ℤ) : a.rowOf random i M < (a.rraDef i).rowCnt :=
  Ring.slot_lt (a.rowCnt_pos i hi)

/-- **The archive of RRA `i` and DS `d`** holds the stream `l`. -/
structure ArchiveHolds (a : CreateArgs) (random : ℕ → ℕ) (xff : ℚ) (i d : ℕ) (r : Rrd)
    (l : List RrdValue) : Prop where
  defs : SameDefs (rrdCreateFn a random) r
  time : a.lastUp ≤ r.lastUp
  length : l.length = r.stepNo
  curRow : r.curRow i = a.rowOf random i (r.rowNo i)
  cdp : 1 < (a.rraDef i).pdpCnt → CdpHolds (a.rraDef i).cf (r.cdpPrep (i * a.dsCnt + d))
    (rest (a.rraDef i).pdpCnt l)
  rows : ∀ M : ℤ, r.rowNo i < M + (a.rraDef i).rowCnt → M ≤ r.rowNo i →
    r.values (r.cellPos i (a.rowOf random i M) d) =
      if M ≤ a.rowNo i then (rrdCreateFn a random).values (r.cellPos i (a.rowOf random i M) d)
      else consolidate (a.rraDef i).cf xff (window (a.rraDef i).pdpCnt (M - 1).toNat l)

/-- An archive only depends on what its cell can see. -/
theorem ArchiveHolds.congr {a : CreateArgs} {random : ℕ → ℕ} {xff : ℚ} {i d : ℕ} {r r' : Rrd}
    {l : List RrdValue} (h : ArchiveHolds a random xff i d r l) (hi : i < a.rraCnt)
    (hdefs : SameDefs r r') (ht : r'.lastUp = r.lastUp) (hc : r'.curRow = r.curRow)
    (hcdp : ∀ idx, (r'.cdpPrep idx).cdpVal = (r.cdpPrep idx).cdpVal ∧
      (r'.cdpPrep idx).unknPdpCnt = (r.cdpPrep idx).unknPdpCnt)
    (hv : ∀ row, row < (a.rraDef i).rowCnt →
      r'.values (r.cellPos i row d) = r.values (r.cellPos i row d)) :
    ArchiveHolds a random xff i d r' l := by
  have hrow : r'.rowNo i = r.rowNo i := by
    rw [Rrd.rowNo, Rrd.rowNo, ht, hdefs.rraDef, hdefs.pdpStep]
  have hpos : r'.cellPos i = r.cellPos i := by
    funext row d
    rw [Rrd.cellPos, Rrd.cellPos, hdefs.rraStart, hdefs.dsCnt]
  refine ⟨h.defs.trans hdefs, ht ▸ h.time, ?_, by rw [hc, hrow]; exact h.curRow, ?_, ?_⟩
  · rw [h.length, Rrd.stepNo, Rrd.stepNo, ht, hdefs.pdpStep]
  · intro hm
    obtain ⟨hval, hunk⟩ := hcdp (i * a.dsCnt + d)
    obtain ⟨hu, hcarry⟩ := h.cdp hm
    exact ⟨by rw [hunk, hu], fun hl => by rw [hval, hcarry hl]⟩
  · intro M hlo hhi
    rw [hrow] at hlo hhi
    rw [hpos, hv _ (CreateArgs.rowOf_lt hi random M)]
    exact h.rows M hlo hhi

/-! ## Creation -/

/-- A new file holds the stream of unknown PDPs. -/
theorem archive_create (a : CreateArgs) (random : ℕ → ℕ) (xff : ℚ) {i d : ℕ} (hi : i < a.rraCnt)
    (hd : d < a.dsCnt) (hp : (a.rraDef i).cf.isPlain = true) :
    ArchiveHolds a random xff i d (rrdCreateFn a random)
      (List.replicate (a.lastUp / a.pdpStep) dnan) where
  defs := SameDefs.refl _
  time := le_rfl
  length := List.length_replicate
  curRow := by
    have hrow := a.rowCnt_pos i hi
    apply Int.natCast_inj.mp
    rw [CreateArgs.rowOf, Ring.slot_cast hrow]
    change ((random i % (a.rraDef i).rowCnt : ℕ) : ℤ) =
      ((random i % (a.rraDef i).rowCnt : ℕ) - (a.rowNo i : ℤ) + a.rowNo i) % _
    rw [sub_add_cancel, Int.emod_eq_of_lt (by omega) (by exact_mod_cast Nat.mod_lt _ hrow)]
  cdp hpc := by
    have hcell : (rrdCreateFn a random).cdpPrep (i * a.dsCnt + d) = a.cdpOf i := by
      change a.cdpOf ((i * a.dsCnt + d) / a.dsCnt) = _
      rw [Nat.mul_comm, Nat.mul_add_div a.dsCnt_pos, Nat.div_eq_of_lt hd, Nat.add_zero]
    obtain ⟨hval, hunk⟩ := a.cdpOf_plain hp
    rw [hcell]
    have hrest : rest (a.rraDef i).pdpCnt (List.replicate (a.lastUp / a.pdpStep) dnan) =
        List.replicate (a.lastUp / a.pdpStep % (a.rraDef i).pdpCnt) dnan := by
      have := Nat.div_add_mod' (a.lastUp / a.pdpStep) (a.rraDef i).pdpCnt
      rw [rest, List.length_replicate, List.drop_replicate]
      congr 1
      omega
    rw [hrest]
    refine ⟨?_, fun _ => ?_⟩
    · rw [hunk, unknown_replicate_nan, CreateArgs.unknSecCnt]
      have hsub : a.lastUp - a.lastUp % a.pdpStep = a.pdpStep * (a.lastUp / a.pdpStep) := by
        have := Nat.div_add_mod a.lastUp a.pdpStep
        omega
      rw [hsub, Nat.mul_mod_mul_left, Nat.mul_div_cancel_left _ a.pdpStep_pos]
    · rw [hval, known_replicate_nan]
      rfl
  rows M hlo hhi := by
    rw [if_pos (by exact_mod_cast hhi)]

/-! ## One update -/

section Step

variable {env : Env} {a : CreateArgs} {random : ℕ → ℕ} {xff : ℚ} {i d : ℕ} {l : List RrdValue}

/-- The rows that one update completes hold the consolidations of their windows: the first
one what `CDP_primary_val` was set to, the later ones `CDP_secondary_val`. -/
theorem completed_rows {rra : RraDef} (hplain : rra.cf.isPlain = true) (hp : 0 < rra.pdpCnt)
    (h0 : 0 ≤ xff) (h1 : xff < 1) (hx : rra.xffVal = .num xff) (hl : Finite l) {v : RrdValue}
    (hv : v.isinf = false) {e : ℕ} {c c' : CdpPrep}
    (hcdp : 1 < rra.pdpCnt → CdpHolds rra.cf c (rest rra.pdpCnt l))
    (hmany : 1 < rra.pdpCnt → c' = updateCdp c rra.cf v (rraSteps rra.pdpCnt l.length e) e
      (startPdpOffset rra.pdpCnt l.length) rra.pdpCnt rra.xffVal)
    (hone : rra.pdpCnt = 1 → c'.primaryVal = v ∧ (1 < e → c'.secondaryVal = v))
    {k : ℕ} (hlo : l.length / rra.pdpCnt ≤ k) (hhi : k < (l.length + e) / rra.pdpCnt) :
    (if k = l.length / rra.pdpCnt then c'.primaryVal else c'.secondaryVal) =
      consolidate rra.cf xff (window rra.pdpCnt k (l ++ List.replicate e v)) := by
  set p := rra.pdpCnt with hpdef
  have hsteps : rraSteps p l.length e = (l.length + e) / p - l.length / p := rraSteps_eq hp
  have hne : rraSteps p l.length e ≠ 0 := by omega
  have hmiss : missing p l ≤ e := by
    by_contra hgt
    refine hne ?_
    unfold rraSteps
    exact if_neg hgt
  have hmod := Nat.mod_lt l.length hp
  have hrlen : (rest p l).length + missing p l = p := by
    rw [length_rest, missing]
    omega
  have hrfin : Finite (rest p l) := fun x hx => hl x (List.mem_of_mem_drop hx)
  by_cases hk : k = l.length / p
  · -- the window that was open
    rw [if_pos hk, hk, window_run_first hp hmiss]
    by_cases hm : 1 < p
    · rw [hmany hm, hx]
      exact updateCdp_primary hplain hrfin hrlen (missing_pos hp l) hne hv h1 (hcdp hm)
    · obtain hp1 : p = 1 := by omega
      have hnil : rest p l = [] := List.eq_nil_of_length_eq_zero (by rw [length_rest, hp1]; omega)
      rw [(hone hp1).1, hnil, List.nil_append]
      exact (consolidate_replicate hplain h0 h1 (missing_pos hp l) hv).symm
  · -- a window inside the run
    have hend : (k + 1) * p ≤ l.length + e :=
      (Nat.mul_le_mul_right p hhi).trans (Nat.div_mul_le_self _ p)
    rw [if_neg hk, window_run_later hp (by omega) hend, consolidate_replicate hplain h0 h1 hp hv]
    by_cases hm : 1 < p
    · rw [hmany hm]
      exact updateCdp_secondary hne hv
    · obtain hp1 : p = 1 := by omega
      refine (hone hp1).2 ?_
      rw [hp1, Nat.div_one] at hlo hk
      rw [hp1, Nat.div_one] at hhi
      omega

/-- Without a step crossed, neither preparation areas nor rows change. -/
theorem processPdps_quiet {s w : Upd} {interval : ℚ}
    (hz : (calculateElapsedSteps s.rrd s.currentTime.toNat s.currentTimeUsec
      interval).elapsedPdpSt = 0) (h : processPdps env interval s = .ok w) :
    w.rrd.cdpPrep = s.rrd.cdpPrep ∧ w.rrd.values = s.rrd.values := by
  rcases processPdps_eq_ok h with ⟨-, rfl⟩ | ⟨hne, -⟩
  · have hf := simpleUpdate_frame interval s
    exact ⟨hf.cdpPrep, hf.quiet.values⟩
  · exact absurd hz hne

/-- The stages after `update_pdp_prep` keep the archive, with the new PDPs appended. -/
theorem processPdps_archive {s w : Upd} {interval : ℚ} (hi : i < a.rraCnt) (hd : d < a.dsCnt)
    (hplain : (a.rraDef i).cf.isPlain = true) (h0 : 0 ≤ xff) (h1 : xff < 1)
    (hx : (a.rraDef i).xffVal = .num xff) (hl : Finite l) (hpos : Positioned s.rrd)
    (ht : s.rrd.lastUp ≤ s.currentTime.toNat) (hA : ArchiveHolds a random xff i d s.rrd l)
    (h : processPdps env interval s = .ok w)
    (hfit : (setLastUp s).rrd.stepNo - s.rrd.stepNo < 2 ^ 31)
    (hv : (setLastUp s).rrd.stepNo - s.rrd.stepNo ≠ 0 → (w.pdpTemp d).isinf = false) :
    ArchiveHolds a random xff i d (setLastUp w).rrd
      (l ++ List.replicate ((setLastUp s).rrd.stepNo - s.rrd.stepNo) (w.pdpTemp d)) := by
  have hadv := processPdps_advances hpos ht h hfit
  obtain ⟨hwt, hws⟩ := processPdps_time h
  obtain ⟨hel, hproc⟩ := calculateElapsedSteps_eq s.rrd s.currentTime.toNat s.currentTimeUsec
    interval hpos.pdpStep_pos hfit
  have hno : (setLastUp w).rrd.stepNo = (setLastUp s).rrd.stepNo := by
    change w.currentTime.toNat / w.rrd.pdpStep = s.currentTime.toNat / s.rrd.pdpStep
    rw [hwt, hws]
  have hle : s.rrd.stepNo ≤ (setLastUp s).rrd.stepNo := Nat.div_le_div_right ht
  have hdefs := hA.defs
  have hrd : s.rrd.rraDef = a.rraDef := hdefs.rraDef
  have hds : s.rrd.dsCnt = a.dsCnt := hdefs.dsCnt
  have hrc : s.rrd.rraCnt = a.rraCnt := hdefs.rraCnt
  have hdefs' : SameDefs (rrdCreateFn a random) (setLastUp w).rrd := hdefs.trans hadv.defs
  have hmono := hadv.rowNo_mono i
  have hcur : (setLastUp w).rrd.curRow i = a.rowOf random i ((setLastUp w).rrd.rowNo i) := by
    rw [hadv.curRow i (by rw [hrc]; exact hi), hA.curRow, hrd, ← CreateArgs.rowOf_add hi]
    congr 1
    omega
  -- the row numbers in terms of the stream
  have hrowNo : s.rrd.rowNo i = l.length / (a.rraDef i).pdpCnt := by
    rw [Rrd.rowNo_eq, hrd, hA.length]
  have hrowNo' : (setLastUp w).rrd.rowNo i =
      (l.length + ((setLastUp s).rrd.stepNo - s.rrd.stepNo)) / (a.rraDef i).pdpCnt := by
    rw [Rrd.rowNo_eq, hdefs'.rraDef, hno, hA.length]
    congr 1
    omega
  have hpc := a.pdpCnt_pos i hi
  have hcellPos : (setLastUp w).rrd.cellPos i = s.rrd.cellPos i := by
    funext row d
    rw [Rrd.cellPos, Rrd.cellPos, hadv.defs.rraStart, hadv.defs.dsCnt]
  generalize hedef : (setLastUp s).rrd.stepNo - s.rrd.stepNo = e at *
  refine ⟨hdefs', hA.time.trans hadv.time, ?_, hcur, ?_, ?_⟩
  · rw [List.length_append, List.length_replicate, hA.length, hno]
    omega
  all_goals rcases Nat.eq_zero_or_pos e with rfl | he
  -- no step was crossed
  · rw [List.replicate_zero, List.append_nil]
    have hw : (setLastUp w).rrd.cdpPrep = s.rrd.cdpPrep := (processPdps_quiet (hel.trans hedef) h).1
    rw [hw]
    exact hA.cdp
  · intro hm
    obtain ⟨hmany, -, -⟩ := cell_updated hpos (by rw [hds]; exact hd) (by rw [hrc]; exact hi)
      (by rw [hrd]; exact hplain) (by rw [hedef]; exact hfit) hedef (by omega) h
    rw [hds, hrd, ← hA.length] at hmany
    change CdpHolds _ (w.rrd.cdpPrep (i * a.dsCnt + d)) _
    rw [hmany hm]
    refine updateCdp_holds hplain hpc (hv (by omega)) ?_ he (hA.cdp hm)
    unfold rraSteps
    exact ⟨fun hz => by_contra fun hgt => hz (if_neg hgt), fun hle => by
      rw [if_pos (show startPdpOffset _ _ ≤ e from hle)]; exact Nat.succ_ne_zero _⟩
  · intro M hlo hhi
    obtain ⟨-, hvals⟩ := processPdps_quiet (hel.trans hedef) h
    rw [hrowNo', Nat.add_zero, ← hrowNo] at hlo hhi
    rw [hcellPos, List.replicate_zero, List.append_nil]
    change w.rrd.values _ = _
    rw [hvals]
    exact hA.rows M hlo hhi
  · intro M hlo hhi
    obtain ⟨hmany, hone, hcol⟩ := cell_updated hpos (by rw [hds]; exact hd)
      (by rw [hrc]; exact hi) (by rw [hrd]; exact hplain) (by rw [hedef]; exact hfit) hedef
      (by omega) h
    rw [hds, hrd, ← hA.length] at hmany
    rw [hds, hrd] at hone
    rw [hrd, hds, ← hA.length] at hcol
    have hsteps : (s.rrd.rowNo i : ℤ) + rraSteps (a.rraDef i).pdpCnt l.length e =
        (setLastUp w).rrd.rowNo i := by
      rw [rraSteps_eq hpc, ← hrowNo, ← hrowNo']
      omega
    have hval := @hcol _ (s.rrd.rowNo i) M hA.curRow (by rw [hsteps]; exact hlo)
      (by rw [hsteps]; exact hhi)
    rw [hcellPos]
    refine hval.trans ?_
    by_cases hM : M ≤ s.rrd.rowNo i
    · -- a row from before this update
      rw [if_pos hM]
      refine (hA.rows M (by omega) hM).trans ?_
      split_ifs with hcre
      · rfl
      · have hend : ((M - 1).toNat + 1) * (a.rraDef i).pdpCnt ≤ l.length := by
          rw [hrowNo] at hM
          exact (Nat.mul_le_mul_right _ (by omega)).trans (Nat.div_mul_le_self _ _)
        rw [window_append hend]
    · have hcre : a.rowNo i ≤ s.rrd.rowNo i := by
        rw [CreateArgs.rowNo, Rrd.rowNo, hrd, hdefs.pdpStep]
        exact Nat.div_le_div_right hA.time
      have hrow := completed_rows hplain hpc h0 h1 hx hl (hv (by omega)) hA.cdp hmany hone
        (k := (M - 1).toNat) (by omega) (by omega)
      rw [if_neg hM, if_neg (show ¬M ≤ a.rowNo i by omega), ← hrow]
      have hiff : M = s.rrd.rowNo i + 1 ↔ (M - 1).toNat = l.length / (a.rraDef i).pdpCnt := by
        omega
      simp only [hiff]

/-- One argument keeps the archive, with the PDPs it crosses appended. -/
theorem processArg_archive {s t : Upd} {arg : Text} (hi : i < a.rraCnt) (hd : d < a.dsCnt)
    (hplain : (a.rraDef i).cf.isPlain = true) (h0 : 0 ≤ xff) (h1 : xff < 1)
    (hx : (a.rraDef i).xffVal = .num xff) (hpos : Positioned s.rrd)
    (hA : ArchiveHolds a random xff i d s.rrd l) (h : processArg env arg s = .ok t)
    (hfit : t.rrd.stepNo - s.rrd.stepNo < 2 ^ 31)
    (hl : Finite (l ++ List.replicate (t.rrd.stepNo - s.rrd.stepNo) (t.pdpTemp d))) :
    ArchiveHolds a random xff i d t.rrd
      (l ++ List.replicate (t.rrd.stepNo - s.rrd.stepNo) (t.pdpTemp d)) := by
  obtain ⟨u, v, w, hu, hv, hw, rfl⟩ := processArg_eq_ok h
  have hpf : ParseFrame s u := Outcome.of_state_ok hu (parseDs_state arg s)
  have htime := (parseDs_ok hu).1
  have hf : PdpFrame u v := Outcome.of_state_ok hv (updatePdpPrep_state _ u)
  have hq := hf.quiet
  obtain ⟨hwt, hws⟩ := processPdps_time hw
  obtain ⟨_, _, _, rfl⟩ := hpf
  have hpv : Positioned v.rrd := hq.positioned hpos
  have hno : v.rrd.stepNo = s.rrd.stepNo := by
    rw [Rrd.stepNo, Rrd.stepNo, hq.lastUp, hq.defs.pdpStep]
  have hvw : (setLastUp w).rrd.stepNo = (setLastUp v).rrd.stepNo := by
    change w.currentTime.toNat / w.rrd.pdpStep = v.currentTime.toNat / v.rrd.pdpStep
    rw [hwt, hws]
  have hAv : ArchiveHolds a random xff i d v.rrd l :=
    hA.congr hi hq.defs hq.lastUp hq.curRow (fun idx => by rw [hf.cdpPrep]; exact ⟨rfl, rfl⟩)
      fun row _ => congrFun hq.values _
  rw [hvw, ← hno] at hl hfit ⊢
  refine processPdps_archive hi hd hplain h0 h1 hx (fun x hx => hl x (List.mem_append_left _ hx))
    hpv ?_ hAv hw hfit fun hne => ?_
  · rw [hq.lastUp, hq.currentTime]
    exact (Int.le_toNat (by omega)).mpr htime
  · exact hl _ (List.mem_append_right _ (List.mem_replicate.mpr ⟨hne, rfl⟩))

/-- **The arguments of a call** keep the archive. -/
theorem processArgs_archive {s t : Upd} {args : List Text} (hi : i < a.rraCnt) (hd : d < a.dsCnt)
    (hplain : (a.rraDef i).cf.isPlain = true) (h0 : 0 ≤ xff) (h1 : xff < 1)
    (hx : (a.rraDef i).xffVal = .num xff) (hpos : Positioned s.rrd)
    (hA : ArchiveHolds a random xff i d s.rrd l) (hfit : StepsFit env args s)
    (h : processArgs env args s = .ok t) (hl : Finite (l ++ crossed env args s d)) :
    ArchiveHolds a random xff i d t.rrd (l ++ crossed env args s d) := by
  induction args generalizing s l with
  | nil =>
    obtain rfl := Outcome.ok.inj h
    rw [crossed, List.append_nil]
    exact hA
  | cons arg args ih =>
    obtain ⟨u, hu, ht⟩ := Outcome.andThen_eq_ok.mp h
    obtain ⟨hlt, hfit'⟩ := hfit u hu
    have hcr : crossed env (arg :: args) s d =
        List.replicate (u.rrd.stepNo - s.rrd.stepNo) (u.pdpTemp d) ++ crossed env args u d := by
      rw [crossed, hu]
    rw [hcr, ← List.append_assoc] at hl ⊢
    have hAu := processArg_archive hi hd hplain h0 h1 hx hpos hA hu hlt
      fun x hx => hl x (List.mem_append_left _ hx)
    exact ih ((processArg_advances hpos hu hlt).positioned hpos) hAu hfit' ht hl

end Step

/-! ## Smoothing -/

/-- A smoothing run, seen from an RRA that is not seasonal: its block and what its
preparation areas consolidate are untouched. -/
structure SmoothKeeps (i : ℕ) (r r' : Rrd) : Prop where
  frame : SmoothFrame r r'
  cdp : ∀ idx, (r'.cdpPrep idx).cdpVal = (r.cdpPrep idx).cdpVal ∧
    (r'.cdpPrep idx).unknPdpCnt = (r.cdpPrep idx).unknPdpCnt
  block : ∀ q, r.rraStart i ≤ q → q < r.rraStart (i + 1) → r'.values q = r.values q

theorem SmoothKeeps.refl (i : ℕ) (r : Rrd) : SmoothKeeps i r r :=
  ⟨SmoothFrame.refl r, fun _ => ⟨rfl, rfl⟩, fun _ _ _ => rfl⟩

theorem SmoothFrame.sameDefs {r r' : Rrd} (h : SmoothFrame r r') : SameDefs r r' := by
  obtain ⟨_, _, rfl⟩ := h
  exact ⟨rfl, rfl, rfl, rfl, rfl, rfl, rfl⟩

theorem SmoothKeeps.trans {i : ℕ} {r r' r'' : Rrd} (h : SmoothKeeps i r r')
    (h' : SmoothKeeps i r' r'') : SmoothKeeps i r r'' := by
  refine ⟨h.frame.trans h'.frame, fun idx => ?_, fun q hlo hhi => ?_⟩
  · rw [(h'.cdp idx).1, (h'.cdp idx).2]
    exact h.cdp idx
  · rw [h'.block q (by rw [h.frame.sameDefs.rraStart]; exact hlo)
      (by rw [h.frame.sameDefs.rraStart]; exact hhi)]
    exact h.block q hlo hhi

/-- The renormalisation changes intercepts only. -/
theorem smootherRenormalise_keeps (i : ℕ) (r : Rrd) (rraIdx : ℕ) (m : Smoother)
    (init : RrdValue → RrdValue → RrdValue) :
    SmoothKeeps i r (smootherRenormalise r rraIdx m init).1 := by
  refine forLoop_invariant (fun _ => SmoothKeeps i r) (SmoothKeeps.refl i r) ?_
  intro j t _ ht
  refine ht.trans ⟨⟨_, t.values, rfl⟩, fun idx => ?_, fun _ _ _ => rfl⟩
  by_cases hidx : idx = t.cdpIdx (r.rraDef rraIdx).dependentRraIdx j
  · subst hidx
    simp
  · rw [Rrd.setCdp_get_of_ne hidx]
    exact ⟨rfl, rfl⟩

/-- Writing back the block of another RRA. -/
theorem writeBlock_keeps {i j : ℕ} (hij : i ≠ j) (r : Rrd) (vals : ℕ → RrdValue) :
    SmoothKeeps i r (r.writeBlock j vals) := by
  refine ⟨⟨r.cdpPrep, _, rfl⟩, fun _ => ⟨rfl, rfl⟩, fun q hlo hhi => ?_⟩
  refine if_neg fun hin => ?_
  rw [← Rrd.rraStart_succ] at hin
  rcases Nat.lt_or_gt_of_ne hij with hlt | hgt
  · have := r.rraStart_mono (show i + 1 ≤ j from hlt)
    omega
  · have := r.rraStart_mono (show j + 1 ≤ i from hgt)
    omega

theorem applySmoother_keeps {i j : ℕ} (hij : i ≠ j) (r : Rrd) :
    SmoothKeeps i r (applySmoother r j).state := by
  simp only [applySmoother]
  split_ifs
  · exact SmoothKeeps.refl i r
  · exact SmoothKeeps.refl i r
  · split
    · exact (smootherRenormalise_keeps i r j _ _).trans (writeBlock_keeps hij _ _)
    · exact SmoothKeeps.refl i r
  · exact writeBlock_keeps hij r _

/-- A smoothing run leaves consolidating RRAs alone. -/
theorem smoothAllRras_keeps {i : ℕ} {r : Rrd} (hp : (r.rraDef i).cf.isPlain = true) :
    SmoothKeeps i r (smoothAllRras r) := by
  refine forLoopE_state (SmoothKeeps i r) (SmoothKeeps.refl i r) fun j t _ ht => ?_
  split
  · rename_i hse
    refine ht.trans (applySmoother_keeps ?_ t)
    rintro rfl
    rw [ht.frame.sameDefs.rraDef, Cf.isPlain.not_seasonal hp] at hse
    exact Bool.noConfusion hse
  · exact ht

/-! ## Runs -/

/-- A history is a run. -/
theorem History.reachable {a : CreateArgs} {random : ℕ → ℕ} {r : Rrd}
    {pdps : ℕ → List RrdValue} (h : History a random r pdps) : Reachable r := by
  induction h with
  | create => exact .create a random
  | update env junk args _ hfit hu ih => exact .update env junk args ih hfit hu

/-- No update changes the definitions. -/
theorem History.defs {a : CreateArgs} {random : ℕ → ℕ} {r : Rrd}
    {pdps : ℕ → List RrdValue} (h : History a random r pdps) :
    SameDefs (rrdCreateFn a random) r := by
  induction h with
  | create => exact SameDefs.refl _
  | update env junk args hprev hfit hu ih =>
    obtain ⟨s, hs, hf, -⟩ := rrdUpdate_smoothFrame hu
    have hadv : Advances (junk.start _) s := processArgs_advances hprev.reachable.positioned hfit hs
    exact ih.trans (hadv.defs.trans hf.sameDefs)

/-- **Every archive holds its stream**, after any history. -/
theorem History.archive {a : CreateArgs} {random : ℕ → ℕ} {r : Rrd} {pdps : ℕ → List RrdValue}
    (h : History a random r pdps) {i d : ℕ} (hi : i < a.rraCnt) (hd : d < a.dsCnt)
    (hplain : (a.rraDef i).cf.isPlain = true) {xff : ℚ} (h0 : 0 ≤ xff) (h1 : xff < 1)
    (hx : (a.rraDef i).xffVal = .num xff) (hl : Finite (pdps d)) :
    ArchiveHolds a random xff i d r (pdps d) := by
  induction h with
  | create => exact archive_create a random xff hi hd hplain
  | update env junk args hprev hfit hu ih =>
    have hA := ih fun x hx => hl x (List.mem_append_left _ hx)
    obtain ⟨s, hs, rfl⟩ := rrdUpdate_eq_ok hu
    have hAs := processArgs_archive hi hd hplain h0 h1 hx hprev.reachable.positioned hA hfit hs hl
    split
    · have hrd : s.rrd.rraDef = a.rraDef := hAs.defs.rraDef
      have hk := smoothAllRras_keeps (i := i) (r := s.rrd) (by rw [hrd]; exact hplain)
      have hds : s.rrd.dsCnt = a.dsCnt := hAs.defs.dsCnt
      refine hAs.congr hi hk.frame.sameDefs ?_ ?_ hk.cdp fun row hrow => ?_
      · obtain ⟨_, _, hf⟩ := hk.frame
        rw [hf]
      · obtain ⟨_, _, hf⟩ := hk.frame
        rw [hf]
      · obtain ⟨hlo, hhi⟩ := Rrd.cellPos_mem (r := s.rrd) (i := i) (d := d)
          (by rw [hds]; exact hd) (by rw [hrd]; exact hrow)
        exact hk.block _ hlo hhi
    · exact hAs

end Rrdtool
