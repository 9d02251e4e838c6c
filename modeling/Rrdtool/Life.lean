import Rrdtool.Fetch
import Rrdtool.Resize
import Rrdtool.TuneFrame

/-!
# The life of a file

Between its updates a file is tuned and resized. Its archives keep what they hold through all of that, up to the
rows that a `GROW` can not bring back.

* `Life` — a file, from its creation on;
* `newest_updated` — one update, seen from the newest row;
* `Remembers` — what an archive holds, by the age of its rows;
* `life_keeps` — after any life;
* `life_fetch` — and so returns to a fetch.
-/

namespace Rrdtool

open Loop Window

/-! ## Lives -/

/-- The rows that a resizing loses for good: `GROW` puts unknown rows where the ring has been overwritten. -/
def lostBy (r : Rrd) (target : ℕ) (mode : Text) (lost : ℕ → ℕ) : ℕ → ℕ :=
  Function.update lost target
    (if mode = "GROW".toList then max (lost target) (r.rowNo target - (r.rraDef target).rowCnt) else lost target)

/-- The new file is addressable. -/
def ResizeFits (rraNum mode rows : Text) (r : Rrd) : Prop :=
  r.headerSize + 8 * (r.withRowCnt (targetRra rraNum)
    (resizedRows mode rows (r.rraDef (targetRra rraNum)).rowCnt)).wantedCnt < 2 ^ 64

/-- **The life of a file**: the PDP stream of every DS, and the number of the last row that every RRA has lost. -/
inductive Life (a : CreateArgs) (random : ℕ → ℕ) : Rrd → (ℕ → List RrdValue) → (ℕ → ℕ) → Prop where
  /-- a new file: there are no rows from before the creation -/
  | create : Life a random (rrdCreateFn a random) (fun _ => List.replicate (a.lastUp / a.pdpStep) dnan) a.rowNo
  /-- an update that succeeded -/
  | update {r r' : Rrd} {pdps : ℕ → List RrdValue} {lost : ℕ → ℕ} (env : Env) (junk : Upd) (args : List Text) :
      Life a random r pdps lost → StepsFit env args (junk.start r) → rrdUpdate env junk args r = .ok r' →
      Life a random r' (fun d => pdps d ++ crossed env args (junk.start r) d) lost
  /-- an update that stopped at an argument that can not be parsed -/
  | refused {r r' : Rrd} {pdps : ℕ → List RrdValue} {lost : ℕ → ℕ} {e : UpdError} (env : Env) (junk s : Upd)
      (args : List Text) (arg : Text) (more : List Text) :
      Life a random r pdps lost → StepsFit env args (junk.start r) → processArgs env args (junk.start r) = .ok s →
      (parseDs env arg s).isOk = false → rrdUpdate env junk (args ++ arg :: more) r = .fail e r' →
      Life a random r' (fun d => pdps d ++ crossed env args (junk.start r) d) lost
  /-- `rrd_tune`, whether it succeeded or not, with a result that is an RRD -/
  | tune {r r' : Rrd} {pdps : ℕ → List RrdValue} {lost : ℕ → ℕ} (opts : List (TuneOpt × Text)) :
      Life a random r pdps lost → (rrdTune opts (.open r)).state = .open r' → Life a random r' pdps lost
  /-- `rrd_resize` -/
  | resize {r r' : Rrd} {pdps : ℕ → List RrdValue} {lost : ℕ → ℕ} (infilename rraNum mode rows : Text) :
      Life a random r pdps lost → ResizeFits rraNum mode rows r → rrdResize infilename rraNum mode rows r = .ok r' →
      Life a random r' pdps (lostBy r (targetRra rraNum) mode lost)

/-! ## The newest rows -/

/-- A slot some steps back, when the ring has moved on. -/
theorem before_slot {n c : ℕ} (k : ℕ) {j : ℕ} (hj : j < n) (N : ℤ) :
    Ring.before n ((c + k) % n) j = Ring.slot n (c - N) (N + k - j) := by
  have hslot := @Ring.slot_cast n (by omega) (c - N) (N + k - j)
  apply Int.natCast_inj.mp
  rw [hslot, Ring.before]
  push_cast [Nat.cast_sub hj.le]
  rw [Int.emod_add_emod]
  have hsum : (c : ℤ) - N + (N + k - j) = c + k + (n - j) - n := by ring
  rw [hsum, Int.sub_emod_right]

section Update

variable {env : Env} {s t w : Upd} {xff : ℚ} {i d e lost : ℕ} {l : List RrdValue} {interval : ℚ}

/-- The row number moves on by the steps of the RRA. -/
theorem rowNo_updated (hpos : Positioned s.rrd) (hi : i < s.rrd.rraCnt) (ht : s.rrd.lastUp ≤ s.currentTime.toNat)
    (he : (setLastUp s).rrd.stepNo - s.rrd.stepNo = e) :
    (setLastUp s).rrd.rowNo i = s.rrd.rowNo i + rraSteps (s.rrd.rraDef i).pdpCnt s.rrd.stepNo e := by
  have hmono : s.rrd.stepNo ≤ (setLastUp s).rrd.stepNo := Nat.div_le_div_right ht
  have hrow : s.rrd.stepNo / (s.rrd.rraDef i).pdpCnt ≤ (s.rrd.stepNo + e) / (s.rrd.rraDef i).pdpCnt :=
    Nat.div_le_div_right (Nat.le_add_right _ _)
  have hdef : (setLastUp s).rrd.rraDef = s.rrd.rraDef := rfl
  have hsum : (setLastUp s).rrd.stepNo = s.rrd.stepNo + e := by omega
  rw [rraSteps_eq (hpos.pdpCnt_pos i hi), Rrd.rowNo_eq, Rrd.rowNo_eq, hdef, hsum]
  omega

/-- **One update, from the newest row on**: some new rows, and behind them the rows that were there. -/
theorem newest_updated (hpos : Positioned s.rrd) (hd : d < s.rrd.dsCnt) (hi : i < s.rrd.rraCnt)
    (hp : (s.rrd.rraDef i).cf.isPlain = true) (ht : s.rrd.lastUp ≤ s.currentTime.toNat)
    (hfit : (setLastUp s).rrd.stepNo - s.rrd.stepNo < 2 ^ 31) (he : (setLastUp s).rrd.stepNo - s.rrd.stepNo = e)
    (hne : e ≠ 0) (h : processPdps env interval s = .ok w) {j : ℕ} (hj : j < (s.rrd.rraDef i).rowCnt) :
    (setLastUp w).rrd.newest i j d =
      if rraSteps (s.rrd.rraDef i).pdpCnt s.rrd.stepNo e ≤ j then
        s.rrd.newest i (j - rraSteps (s.rrd.rraDef i).pdpCnt s.rrd.stepNo e) d
      else if j + 1 = rraSteps (s.rrd.rraDef i).pdpCnt s.rrd.stepNo e then
        (w.rrd.cdpPrep (i * s.rrd.dsCnt + d)).primaryVal
      else (w.rrd.cdpPrep (i * s.rrd.dsCnt + d)).secondaryVal := by
  have hadv := processPdps_advances hpos ht h hfit
  obtain ⟨-, -, hcol⟩ := cell_updated hpos hd hi hp hfit he hne h
  obtain ⟨hwt, hws⟩ := processPdps_time h
  have hnow : (setLastUp w).rrd.rowNo i = (setLastUp s).rrd.rowNo i := by
    change w.currentTime.toNat / ((w.rrd.rraDef i).pdpCnt * w.rrd.pdpStep) = _
    have hdef : w.rrd.rraDef = s.rrd.rraDef := hadv.defs.rraDef
    rw [hwt, hws, hdef]
    rfl
  have hrow := rowNo_updated hpos hi ht he
  generalize rraSteps (s.rrd.rraDef i).pdpCnt s.rrd.stepNo e = k at hcol hrow ⊢
  have hcur : (setLastUp w).rrd.curRow i = (s.rrd.curRow i + k) % (s.rrd.rraDef i).rowCnt := by
    rw [hadv.curRow i hi, hnow, hrow, Nat.add_sub_cancel_left]
  have hc := hpos.curRow_lt i hi
  -- the slot of the current row, when rows are counted from it
  have hbase : s.rrd.curRow i = Ring.slot (s.rrd.rraDef i).rowCnt (s.rrd.curRow i) 0 := by
    rw [Ring.slot, add_zero, Int.emod_eq_of_lt (by omega) (by omega), Int.toNat_natCast]
  have hslot := before_slot (c := s.rrd.curRow i) k hj 0
  rw [sub_zero, zero_add] at hslot
  have hcell := @hcol (s.rrd.curRow i) 0 (k - j) hbase (by omega) (by omega)
  have hnewest : (setLastUp w).rrd.newest i j d =
      w.rrd.values (s.rrd.cellPos i (Ring.slot (s.rrd.rraDef i).rowCnt (s.rrd.curRow i) (k - j)) d) := by
    rw [Rrd.newest, hadv.defs.rraStart, hadv.defs.rraDef, hadv.defs.dsCnt, hcur, hslot, Rrd.cellPos, mul_comm]
    rfl
  rw [hnewest, hcell]
  by_cases hold : k ≤ j
  · have hback : Ring.slot (s.rrd.rraDef i).rowCnt (s.rrd.curRow i) ((k : ℤ) - j) =
        Ring.before (s.rrd.rraDef i).rowCnt (s.rrd.curRow i) (j - k) := by
      have hzero := before_slot (c := s.rrd.curRow i) 0 (show j - k < (s.rrd.rraDef i).rowCnt by omega) 0
      rw [add_zero, Nat.mod_eq_of_lt hc] at hzero
      rw [hzero, sub_zero]
      congr 1
      push_cast [Nat.cast_sub hold]
      ring
    rw [if_pos (by omega), if_pos hold, hback, Rrd.newest, Rrd.cellPos, mul_comm]
  · rw [if_neg (by omega), if_neg hold]
    simp only [show ((k : ℤ) - j = 0 + 1) ↔ j + 1 = k by omega]

/-- **What an archive keeps** of the stream `l`: every row of the ring, by its age, is the consolidation of its window,
or unknown if its number is not above `lost`. -/
structure Remembers (xff : ℚ) (i d lost : ℕ) (r : Rrd) (l : List RrdValue) : Prop where
  length : l.length = r.stepNo
  lost_le : lost ≤ r.rowNo i
  cdp : 1 < (r.rraDef i).pdpCnt →
    CdpHolds (r.rraDef i).cf (r.cdpPrep (i * r.dsCnt + d)) (rest (r.rraDef i).pdpCnt l)
  rows : ∀ j, j < (r.rraDef i).rowCnt → r.newest i j d =
    if r.rowNo i ≤ lost + j then dnan
    else consolidate (r.rraDef i).cf xff (window (r.rraDef i).pdpCnt (r.rowNo i - j - 1) l)

/-- An archive only depends on what its cell can see. -/
theorem Remembers.congr {r r' : Rrd} (h : Remembers xff i d lost r l) (hcnt : r'.dsCnt = r.dsCnt)
    (hstep : r'.pdpStep = r.pdpStep) (hup : r'.lastUp = r.lastUp) (hdef : r'.rraDef i = r.rraDef i)
    (hcdp : (r'.cdpPrep (i * r.dsCnt + d)).cdpVal = (r.cdpPrep (i * r.dsCnt + d)).cdpVal ∧
      (r'.cdpPrep (i * r.dsCnt + d)).unknPdpCnt = (r.cdpPrep (i * r.dsCnt + d)).unknPdpCnt)
    (hrows : ∀ j, j < (r.rraDef i).rowCnt → r'.newest i j d = r.newest i j d) : Remembers xff i d lost r' l := by
  have hrow : r'.rowNo i = r.rowNo i := by rw [Rrd.rowNo, Rrd.rowNo, hup, hdef, hstep]
  refine ⟨?_, by rw [hrow]; exact h.lost_le, fun hm => ?_, fun j hj => ?_⟩
  · rw [h.length, Rrd.stepNo, Rrd.stepNo, hup, hstep]
  · rw [hdef] at hm ⊢
    obtain ⟨hu, hcarry⟩ := h.cdp hm
    rw [hcnt]
    exact ⟨by rw [hcdp.2, hu], fun hl => by rw [hcdp.1, hcarry hl]⟩
  · rw [hdef] at hj ⊢
    rw [hrow, hrows j hj, h.rows j hj]

/-- **The stages after `update_pdp_prep`** keep the archive, with the new PDPs appended. -/
theorem processPdps_remembers (hpos : Positioned s.rrd) (hd : d < s.rrd.dsCnt) (hi : i < s.rrd.rraCnt)
    (hp : (s.rrd.rraDef i).cf.isPlain = true) (h0 : 0 ≤ xff) (h1 : xff < 1)
    (hx : (s.rrd.rraDef i).xffVal = .num xff) (hl : Finite l) (ht : s.rrd.lastUp ≤ s.currentTime.toNat)
    (hK : Remembers xff i d lost s.rrd l) (h : processPdps env interval s = .ok w)
    (hfit : (setLastUp s).rrd.stepNo - s.rrd.stepNo < 2 ^ 31)
    (hv : (setLastUp s).rrd.stepNo - s.rrd.stepNo ≠ 0 → (w.pdpTemp d).isinf = false) :
    Remembers xff i d lost (setLastUp w).rrd
      (l ++ List.replicate ((setLastUp s).rrd.stepNo - s.rrd.stepNo) (w.pdpTemp d)) := by
  have hadv := processPdps_advances hpos ht h hfit
  obtain ⟨hwt, hws⟩ := processPdps_time h
  have hrd : (setLastUp w).rrd.rraDef = s.rrd.rraDef := hadv.defs.rraDef
  have hds : (setLastUp w).rrd.dsCnt = s.rrd.dsCnt := hadv.defs.dsCnt
  have hno : (setLastUp w).rrd.stepNo = (setLastUp s).rrd.stepNo := by
    change w.currentTime.toNat / w.rrd.pdpStep = s.currentTime.toNat / s.rrd.pdpStep
    rw [hwt, hws]
  have hle : s.rrd.stepNo ≤ (setLastUp s).rrd.stepNo := Nat.div_le_div_right ht
  have hpc := hpos.pdpCnt_pos i hi
  generalize he : (setLastUp s).rrd.stepNo - s.rrd.stepNo = e at *
  have hrow : (setLastUp w).rrd.rowNo i = s.rrd.rowNo i + rraSteps (s.rrd.rraDef i).pdpCnt l.length e := by
    have hnow : (setLastUp w).rrd.rowNo i = (setLastUp s).rrd.rowNo i := by
      rw [Rrd.rowNo_eq, Rrd.rowNo_eq, hrd, hno]
      rfl
    rw [hnow, rowNo_updated hpos hi ht he, hK.length]
  have hlength : (l ++ List.replicate e (w.pdpTemp d)).length = (setLastUp w).rrd.stepNo := by
    rw [List.length_append, List.length_replicate, hK.length, hno]
    omega
  rcases Nat.eq_zero_or_pos e with rfl | hpos'
  · -- no step was crossed
    obtain ⟨hel, -⟩ := calculateElapsedSteps_eq s.rrd s.currentTime.toNat s.currentTimeUsec interval
      hpos.pdpStep_pos (by rw [← he] at hfit; exact hfit)
    obtain ⟨hcdp, hvals⟩ := processPdps_quiet (hel.trans he) h
    have hrow : (setLastUp w).rrd.rowNo i = s.rrd.rowNo i := by
      rw [hrow, rraSteps_eq hpc, Nat.add_zero, Nat.sub_self, Nat.add_zero]
    have hnewest (j : ℕ) : (setLastUp w).rrd.newest i j d = s.rrd.newest i j d := by
      have hcur : (setLastUp w).rrd.curRow i = s.rrd.curRow i := by
        rw [hadv.curRow i hi, hrow, Nat.sub_self, Nat.add_zero, Nat.mod_eq_of_lt (hpos.curRow_lt i hi)]
      have hvalues : (setLastUp w).rrd.values = s.rrd.values := hvals
      rw [Rrd.newest, Rrd.newest, hadv.defs.rraStart, hrd, hds, hcur, hvalues]
    rw [List.replicate_zero, List.append_nil] at hlength ⊢
    refine ⟨hlength, by rw [hrow]; exact hK.lost_le, ?_, fun j hj => ?_⟩
    · have hprep : (setLastUp w).rrd.cdpPrep = s.rrd.cdpPrep := hcdp
      rw [hrd, hds, hprep]
      exact hK.cdp
    · rw [hrd] at hj ⊢
      rw [hrow, hnewest, hK.rows j hj]
  · obtain ⟨hmany, hone, -⟩ := cell_updated hpos hd hi hp (by rw [he]; exact hfit) he hpos'.ne' h
    rw [← hK.length] at hmany
    refine ⟨hlength, by rw [hrow]; exact hK.lost_le.trans (Nat.le_add_right _ _), ?_, fun j hj => ?_⟩
    · rw [hrd, hds]
      intro hm
      change CdpHolds _ (w.rrd.cdpPrep (i * s.rrd.dsCnt + d)) _
      rw [hmany hm]
      refine updateCdp_holds hp hpc (hv hpos'.ne') ?_ hpos' (hK.cdp hm)
      unfold rraSteps
      exact ⟨fun hz => by_contra fun hgt => hz (if_neg hgt), fun hle => by
        rw [if_pos (show startPdpOffset _ _ ≤ e from hle)]; exact Nat.succ_ne_zero _⟩
    · rw [hrd] at hj ⊢
      have hnewest := newest_updated hpos hd hi hp ht (by rw [he]; exact hfit) he hpos'.ne' h hj
      rw [← hK.length] at hnewest
      have hrowNo : s.rrd.rowNo i = l.length / (s.rrd.rraDef i).pdpCnt := by rw [Rrd.rowNo_eq, hK.length]
      have hsteps : rraSteps (s.rrd.rraDef i).pdpCnt l.length e =
          (l.length + e) / (s.rrd.rraDef i).pdpCnt - l.length / (s.rrd.rraDef i).pdpCnt := rraSteps_eq hpc
      have hlost := hK.lost_le
      rw [hnewest, hrow]
      generalize rraSteps (s.rrd.rraDef i).pdpCnt l.length e = k at hsteps ⊢
      by_cases hold : k ≤ j
      · -- a row from before this update
        rw [if_pos hold, hK.rows (j - k) (by omega)]
        by_cases hgone : s.rrd.rowNo i ≤ lost + (j - k)
        · rw [if_pos hgone, if_pos (by omega)]
        · have hrest : s.rrd.rowNo i - (j - k) = s.rrd.rowNo i + k - j := by omega
          have hend : (s.rrd.rowNo i + k - j - 1 + 1) * (s.rrd.rraDef i).pdpCnt ≤ l.length := by
            refine (Nat.mul_le_mul_right _ ?_).trans (Nat.div_mul_le_self l.length _)
            omega
          rw [if_neg hgone, if_neg (by omega), hrest, window_append hend]
      · have hrows := completed_rows hp hpc h0 h1 hx hl (hv hpos'.ne') hK.cdp hmany hone
          (k := s.rrd.rowNo i + k - j - 1) (by omega) (by omega)
        rw [if_neg hold, if_neg (show ¬ s.rrd.rowNo i + k ≤ lost + j by omega), ← hrows]
        simp only [show j + 1 = k ↔ s.rrd.rowNo i + k - j - 1 = l.length / (s.rrd.rraDef i).pdpCnt by omega]

/-- One argument. -/
theorem processArg_remembers {arg : Text} (hpos : Positioned s.rrd) (hd : d < s.rrd.dsCnt) (hi : i < s.rrd.rraCnt)
    (hp : (s.rrd.rraDef i).cf.isPlain = true) (h0 : 0 ≤ xff) (h1 : xff < 1)
    (hx : (s.rrd.rraDef i).xffVal = .num xff) (hK : Remembers xff i d lost s.rrd l) (h : processArg env arg s = .ok t)
    (hfit : t.rrd.stepNo - s.rrd.stepNo < 2 ^ 31)
    (hl : Finite (l ++ List.replicate (t.rrd.stepNo - s.rrd.stepNo) (t.pdpTemp d))) :
    Remembers xff i d lost t.rrd (l ++ List.replicate (t.rrd.stepNo - s.rrd.stepNo) (t.pdpTemp d)) := by
  obtain ⟨u, v, w, hu, hv, hw, rfl⟩ := processArg_eq_ok h
  have hpf : ParseFrame s u := Outcome.of_state_ok hu (parseDs_state arg s)
  have htime := (parseDs_ok hu).1
  have hf : PdpFrame u v := Outcome.of_state_ok hv (updatePdpPrep_state _ u)
  have hq := hf.quiet
  obtain ⟨hwt, hws⟩ := processPdps_time hw
  obtain ⟨_, _, _, rfl⟩ := hpf
  have hno : v.rrd.stepNo = s.rrd.stepNo := by rw [Rrd.stepNo, Rrd.stepNo, hq.lastUp, hq.defs.pdpStep]
  have hvw : (setLastUp w).rrd.stepNo = (setLastUp v).rrd.stepNo := by
    change w.currentTime.toNat / w.rrd.pdpStep = v.currentTime.toNat / v.rrd.pdpStep
    rw [hwt, hws]
  have hdef : v.rrd.rraDef = s.rrd.rraDef := hq.defs.rraDef
  have hKv : Remembers xff i d lost v.rrd l := by
    refine hK.congr hq.defs.dsCnt hq.defs.pdpStep hq.lastUp (by rw [hdef]) ?_ fun j _ => ?_
    · rw [hf.cdpPrep]
      exact ⟨rfl, rfl⟩
    · rw [Rrd.newest, Rrd.newest, hq.defs.rraStart, hdef, hq.defs.dsCnt, hq.curRow, hq.values]
  rw [hvw, ← hno] at hl hfit ⊢
  refine processPdps_remembers (hq.positioned hpos) (by rw [hq.defs.dsCnt]; exact hd) (by rw [hq.defs.rraCnt]; exact hi)
    (by rw [hdef]; exact hp) h0 h1 (by rw [hdef]; exact hx) (fun x hx => hl x (List.mem_append_left _ hx)) ?_ hKv hw
    hfit fun hne => ?_
  · rw [hq.lastUp, hq.currentTime]
    exact (Int.le_toNat (by omega)).mpr htime
  · exact hl _ (List.mem_append_right _ (List.mem_replicate.mpr ⟨hne, rfl⟩))

/-- **The arguments of a call.** -/
theorem processArgs_remembers {args : List Text} (hpos : Positioned s.rrd) (hd : d < s.rrd.dsCnt)
    (hi : i < s.rrd.rraCnt) (hp : (s.rrd.rraDef i).cf.isPlain = true) (h0 : 0 ≤ xff) (h1 : xff < 1)
    (hx : (s.rrd.rraDef i).xffVal = .num xff) (hK : Remembers xff i d lost s.rrd l) (hfit : StepsFit env args s)
    (h : processArgs env args s = .ok t) (hl : Finite (l ++ crossed env args s d)) :
    Remembers xff i d lost t.rrd (l ++ crossed env args s d) := by
  induction args generalizing s l with
  | nil =>
    obtain rfl := Outcome.ok.inj h
    rw [crossed, List.append_nil]
    exact hK
  | cons arg args ih =>
    obtain ⟨u, hu, ht⟩ := Outcome.andThen_eq_ok.mp h
    obtain ⟨hlt, hfit'⟩ := hfit u hu
    have hcr : crossed env (arg :: args) s d =
        List.replicate (u.rrd.stepNo - s.rrd.stepNo) (u.pdpTemp d) ++ crossed env args u d := by
      rw [crossed, hu]
    rw [hcr, ← List.append_assoc] at hl ⊢
    have hadv := processArg_advances hpos hu hlt
    have hKu := processArg_remembers hpos hd hi hp h0 h1 hx hK hu hlt fun x hx => hl x (List.mem_append_left _ hx)
    exact ih (hadv.positioned hpos) (by rw [hadv.defs.dsCnt]; exact hd) (by rw [hadv.defs.rraCnt]; exact hi)
      (by rw [hadv.defs.rraDef]; exact hp) (by rw [hadv.defs.rraDef]; exact hx) hKu hfit' ht hl

end Update

/-! ## What no operation changes -/

section Tended

variable {a : CreateArgs} {random : ℕ → ℕ} {r r' : Rrd} {i d lost n : ℕ} {xff : ℚ} {l : List RrdValue}

/-- **A file that has been looked after**: it still is what was created, apart from the lengths of its RRAs. -/
structure Tended (a : CreateArgs) (r : Rrd) : Prop where
  dsCnt : r.dsCnt = a.dsCnt
  rraCnt : r.rraCnt = a.rraCnt
  pdpStep : r.pdpStep = a.pdpStep
  cf : ∀ i, (r.rraDef i).cf = (a.rraDef i).cf
  pdpCnt : ∀ i, (r.rraDef i).pdpCnt = (a.rraDef i).pdpCnt
  xff : ∀ i, (a.rraDef i).cf.isPlain = true → (r.rraDef i).xffVal = (a.rraDef i).xffVal
  positioned : Positioned r
  complete : r.wantedCnt ≤ r.valueCnt
  version : r.version ≠ 1

theorem Tended.create (hv : a.version ≠ 1) : Tended a (rrdCreateFn a random) where
  dsCnt := rfl
  rraCnt := rfl
  pdpStep := rfl
  cf _ := rfl
  pdpCnt _ := rfl
  xff _ _ := rfl
  positioned := ⟨a.pdpStep_pos, a.pdpCnt_pos, fun i hi => Nat.mod_lt _ (a.rowCnt_pos i hi)⟩
  complete := le_refl ((rrdCreateFn a random).rraStart a.rraCnt)
  version := hv

/-- An update. -/
theorem Tended.sameDefs (h : Tended a r) (hs : SameDefs r r') (hp : Positioned r') : Tended a r' where
  dsCnt := hs.dsCnt.trans h.dsCnt
  rraCnt := hs.rraCnt.trans h.rraCnt
  pdpStep := hs.pdpStep.trans h.pdpStep
  cf i := by rw [hs.rraDef, h.cf]
  pdpCnt i := by rw [hs.rraDef, h.pdpCnt]
  xff i hi := by rw [hs.rraDef, h.xff i hi]
  positioned := hp
  complete := by
    rw [Rrd.wantedCnt, hs.rraStart, hs.rraCnt, hs.valueCnt]
    exact h.complete
  version := by
    rw [hs.version]
    exact h.version

/-- A tuning. -/
theorem Tended.tune (h : Tended a r) (ht : TuneKeeps r r') : Tended a r' where
  dsCnt := ht.dsCnt.trans h.dsCnt
  rraCnt := ht.rraCnt.trans h.rraCnt
  pdpStep := ht.pdpStep.trans h.pdpStep
  cf i := (ht.cf i).trans (h.cf i)
  pdpCnt i := (ht.pdpCnt i).trans (h.pdpCnt i)
  xff i hi := by rw [ht.plain i (by rw [h.cf]; exact hi), h.xff i hi]
  positioned := by
    obtain ⟨hstep, hpdp, hrow⟩ := h.positioned
    refine ⟨by rw [ht.pdpStep]; exact hstep, fun i hi => ?_, fun i hi => ?_⟩
    · rw [ht.rraCnt] at hi
      rw [ht.pdpCnt]
      exact hpdp i hi
    · rw [ht.rraCnt] at hi
      rw [ht.curRow, ht.rowCnt]
      exact hrow i hi
  complete := by
    rw [Rrd.wantedCnt, ht.rraStart, ht.rraCnt, ht.valueCnt]
    exact h.complete
  version := by
    rcases ht.version with hv | hv
    · rw [hv]
      exact h.version
    · rw [hv]
      decide

/-- The definitions after a resizing, but for the row counts. -/
theorem Resized.defs {target : ℕ} {grow : Bool} (h : Resized r r' target grow n) (i : ℕ) :
    (r'.rraDef i).cf = (r.rraDef i).cf ∧ (r'.rraDef i).pdpCnt = (r.rraDef i).pdpCnt ∧
      (r'.rraDef i).xffVal = (r.rraDef i).xffVal := by
  by_cases hi : i = target
  · rw [hi, h.targetDef]
    exact ⟨rfl, rfl, rfl⟩
  · rw [h.otherDef i hi]
    exact ⟨rfl, rfl, rfl⟩

/-- A resizing. -/
theorem Tended.resize {target : ℕ} {grow : Bool} (h : Tended a r) (hr : Resized r r' target grow n)
    (hv : r'.version ≠ 1) : Tended a r' where
  dsCnt := hr.dsCnt.trans h.dsCnt
  rraCnt := hr.rraCnt.trans h.rraCnt
  pdpStep := hr.pdpStep.trans h.pdpStep
  cf i := (hr.defs i).1.trans (h.cf i)
  pdpCnt i := (hr.defs i).2.1.trans (h.pdpCnt i)
  xff i hi := (hr.defs i).2.2.trans (h.xff i hi)
  positioned := by
    obtain ⟨hstep, hpdp, hrow⟩ := h.positioned
    refine ⟨by rw [hr.pdpStep]; exact hstep, fun i hi => ?_, fun i hi => ?_⟩
    · rw [hr.rraCnt] at hi
      rw [(hr.defs i).2.1]
      exact hpdp i hi
    · rw [hr.rraCnt] at hi
      by_cases hit : i = target
      · rw [hit]
        exact hr.targetRow
      · rw [hr.otherRow i hit, hr.otherDef i hit]
        exact hrow i hi
  complete := hr.complete
  version := hv

/-! ## The archive through every operation -/

/-- The cell of a row, inside of the block of its RRA. -/
theorem newest_mem (hd : d < r.dsCnt) (hc : 0 < (r.rraDef i).rowCnt) (j : ℕ) :
    r.rraStart i ≤ r.rraStart i + Ring.before (r.rraDef i).rowCnt (r.curRow i) j * r.dsCnt + d ∧
      r.rraStart i + Ring.before (r.rraDef i).rowCnt (r.curRow i) j * r.dsCnt + d < r.rraStart (i + 1) := by
  have hcell := cell_lt (Nat.mod_lt (r.curRow i + ((r.rraDef i).rowCnt - j)) hc) hd
  rw [Rrd.rraStart_succ, Ring.before]
  omega

/-- A new file. -/
theorem Remembers.create (hfill : (rrdCreateFn a random).wantedCnt < 2 ^ 31) (hi : i < a.rraCnt) (hd : d < a.dsCnt)
    (hp : (a.rraDef i).cf.isPlain = true) (xff : ℚ) :
    Remembers xff i d (a.rowNo i) (rrdCreateFn a random) (List.replicate (a.lastUp / a.pdpStep) dnan) := by
  have hA := archive_create a random xff hi hd hp
  refine ⟨hA.length, le_rfl, hA.cdp, fun j hj => ?_⟩
  rw [if_pos (show (rrdCreateFn a random).rowNo i ≤ a.rowNo i + j from Nat.le_add_right _ _)]
  obtain ⟨-, hhi⟩ := newest_mem (r := rrdCreateFn a random) hd (a.rowCnt_pos i hi) j
  have hend := (rrdCreateFn a random).rraStart_mono (show i + 1 ≤ a.rraCnt from hi)
  have hwanted : (rrdCreateFn a random).wantedCnt = (rrdCreateFn a random).rraStart a.rraCnt := rfl
  refine if_pos ?_
  rw [a.unknCnt_of_lt random hfill]
  omega

/-- Another state of the file, in which the block and the preparation areas of the RRA are the same. -/
theorem Remembers.block (h : Remembers xff i d lost r l) (hd : d < r.dsCnt) (hc : 0 < (r.rraDef i).rowCnt)
    (hcnt : r'.dsCnt = r.dsCnt) (hstep : r'.pdpStep = r.pdpStep) (hup : r'.lastUp = r.lastUp)
    (hdef : r'.rraDef i = r.rraDef i) (hstart : r'.rraStart i = r.rraStart i) (hcur : r'.curRow i = r.curRow i)
    (hcdp : (r'.cdpPrep (i * r.dsCnt + d)).cdpVal = (r.cdpPrep (i * r.dsCnt + d)).cdpVal ∧
      (r'.cdpPrep (i * r.dsCnt + d)).unknPdpCnt = (r.cdpPrep (i * r.dsCnt + d)).unknPdpCnt)
    (hvalues : ∀ q, r.rraStart i ≤ q → q < r.rraStart (i + 1) → r'.values q = r.values q) :
    Remembers xff i d lost r' l := by
  refine h.congr hcnt hstep hup hdef hcdp fun j _ => ?_
  obtain ⟨hlo, hhi⟩ := newest_mem (r := r) hd hc j
  rw [Rrd.newest, hstart, hdef, hcur, hcnt, hvalues _ hlo hhi]
  rfl

/-- A smoothing run. -/
theorem Remembers.smooth (h : Remembers xff i d lost r l) (hd : d < r.dsCnt) (hc : 0 < (r.rraDef i).rowCnt)
    (hs : SmoothKeeps i r r') : Remembers xff i d lost r' l := by
  have hdefs := hs.frame.sameDefs
  obtain ⟨_, _, hframe⟩ := hs.frame
  exact h.block hd hc hdefs.dsCnt hdefs.pdpStep (by rw [hframe]) (by rw [hframe]) (hdefs.rraStart i) (by rw [hframe])
    (hs.cdp _) hs.block

/-- A tuning. -/
theorem Remembers.tune (h : Remembers xff i d lost r l) (hd : d < r.dsCnt) (hc : 0 < (r.rraDef i).rowCnt)
    (hp : (r.rraDef i).cf.isPlain = true) (ht : TuneKeeps r r') : Remembers xff i d lost r' l := by
  refine h.block hd hc ht.dsCnt ht.pdpStep ht.lastUp (ht.plain i hp) (ht.rraStart i) (by rw [ht.curRow]) ?_
    (ht.block i hp)
  rw [ht.cdp i d hp hd]
  exact ⟨rfl, rfl⟩

/-- The rows that a resizing loses. -/
theorem Remembers.resize {target : ℕ} {grow : Bool} {mode : Text} (h : Remembers xff i d lost r l) (hd : d < r.dsCnt)
    (hi : i < r.rraCnt) (hc : 0 < (r.rraDef i).rowCnt) (hr : Resized r r' target grow n)
    (hmode : grow = decide (mode = "GROW".toList)) {losts : ℕ → ℕ} (hlost : losts i = lost) :
    Remembers xff i d (lostBy r target mode losts i) r' l := by
  by_cases hit : i = target
  · subst hit
    have hrow : r'.rowNo i = r.rowNo i := by rw [Rrd.rowNo, Rrd.rowNo, hr.liveHead.1, hr.targetDef, hr.pdpStep]
    have hle := h.lost_le
    rw [lostBy, Function.update_self, hlost]
    refine ⟨?_, ?_, fun hm => ?_, fun j hj => ?_⟩
    · rw [h.length, Rrd.stepNo, Rrd.stepNo, hr.liveHead.1, hr.pdpStep]
    · rw [hrow]
      split_ifs
      · omega
      · omega
    · rw [(hr.defs i).2.1] at hm ⊢
      rw [(hr.defs i).1, hr.dsCnt, hr.cdpPrep]
      exact h.cdp hm
    · rw [(hr.defs i).1, (hr.defs i).2.1, hrow]
      by_cases hold : j < (r.rraDef i).rowCnt
      · rw [hr.kept j d hd hold hj, h.rows j hold]
        refine if_congr ?_ rfl rfl
        split_ifs
        · omega
        · exact Iff.rfl
      · -- only `GROW` adds rows
        have hgrow : grow = true := by
          by_contra hshrink
          rw [hr.targetDef] at hj
          dsimp only at hj
          rw [if_neg hshrink] at hj
          omega
        have hgrowMode : mode = "GROW".toList := of_decide_eq_true (hmode ▸ hgrow)
        rw [hr.added j d hd (by omega) hj, if_pos hgrowMode, if_pos (by omega)]
  · rw [lostBy, Function.update_of_ne hit, hlost]
    refine h.congr hr.dsCnt hr.pdpStep hr.liveHead.1 (hr.otherDef i hit) ?_ fun j _ => ?_
    · rw [hr.cdpPrep]
      exact ⟨rfl, rfl⟩
    · have hcell := cell_lt (Nat.mod_lt (r.curRow i + ((r.rraDef i).rowCnt - j)) hc) hd
      rw [Rrd.newest, Rrd.newest, hr.otherRow i hit, hr.otherDef i hit, hr.dsCnt, add_assoc, add_assoc]
      exact hr.other i hi hit _ hcell

theorem Tended.wellFormed (h : Tended a r) : r.WellFormed :=
  ⟨by rw [h.dsCnt]; exact a.dsCnt_pos, h.positioned.curRow_lt⟩

end Tended

/-! ## Lives -/

section Main

variable {a : CreateArgs} {random : ℕ → ℕ} {r : Rrd} {pdps : ℕ → List RrdValue} {lost : ℕ → ℕ}

/-- A refused call leaves what the arguments before have made of the file. -/
theorem refused_state {env : Env} {junk s : Upd} {args more : List Text} {arg : Text} {r r' : Rrd} {e : UpdError}
    (hs : processArgs env args (junk.start r) = .ok s) (hbad : (parseDs env arg s).isOk = false)
    (h : rrdUpdate env junk (args ++ arg :: more) r = .fail e r') : r' = s.rrd := by
  have happend (args : List Text) (u : Upd) : processArgs env (args ++ arg :: more) u =
      (processArgs env args u).andThen (processArgs env (arg :: more)) := by
    induction args generalizing u with
    | nil => rfl
    | cons x args ih =>
      rw [List.cons_append, processArgs, processArgs]
      cases processArg env x u with
      | ok v => exact ih v
      | fail e v => rfl
  have hparse : ParseFrame s (parseDs env arg s).state := parseDs_state arg s
  rw [rrdUpdate, happend, hs, Outcome.ok_andThen, processArgs, processArg] at h
  cases hp : parseDs env arg s with
  | ok u =>
    rw [hp] at hbad
    exact absurd hbad (by simp [Outcome.isOk])
  | fail e' u =>
    rw [hp] at h hparse
    obtain ⟨_, _, _, rfl⟩ := hparse
    exact (Outcome.fail.inj h).2.symm

/-- A resizing whose file is addressable. -/
theorem resized_of_fits {infilename rraNum mode rows : Text} {r r' : Rrd} (hwell : r.WellFormed) (hv : r.version ≠ 1)
    (hfits : ResizeFits rraNum mode rows r) (h : rrdResize infilename rraNum mode rows r = .ok r') :
    Resized r r' (targetRra rraNum) (decide (mode = "GROW".toList)) (CStr.strtol rows).toNat ∧ r'.version ≠ 1 := by
  obtain ⟨n, hn, hrows, ht, hopen, -, hmode⟩ := rrdResize_eq_ok h
  have hc := hwell.curRow_lt _ ht
  have hversion (modify : ℤ) : (resizeTo r (targetRra rraNum) modify).version ≠ 1 := by
    change resizeVersion r.version ≠ 1
    rw [resizeVersion, if_neg hv]
    exact hv
  have hn' : (CStr.strtol rows).toNat = n := by omega
  rw [ResizeFits, resizedRows, hn'] at hfits
  rw [hn']
  have hroom {rowCnt : ℕ} (hcnt : 0 < rowCnt)
      (hfits : r.headerSize + 8 * (r.withRowCnt (targetRra rraNum) rowCnt).wantedCnt < 2 ^ 64) :
      (r.withRowCnt (targetRra rraNum) rowCnt).wantedCnt ≤ (r.withRowCnt (targetRra rraNum) rowCnt).resizeRoom := by
    have hb := (r.withRowCnt (targetRra rraNum) rowCnt).rraStart_block ht
    have hmul : 0 < rowCnt * r.dsCnt := Nat.mul_pos hcnt hwell.dsCnt_pos
    refine (wantedCnt_le_resizeRoom ?_).mpr ⟨hv, hfits⟩
    simp only [Rrd.withRowCnt, Function.update_self] at hb ⊢
    omega
  rcases hmode with ⟨rfl, rfl⟩ | ⟨rfl, hlt, rfl⟩
  · rw [if_pos rfl] at hfits
    rw [decide_eq_true rfl]
    exact ⟨resized_grow hwell hopen ht hn (hroom (by omega) hfits), hversion _⟩
  · have hne : ¬("SHRINK".toList = "GROW".toList) := by decide
    rw [if_neg hne] at hfits
    rw [decide_eq_false hne]
    exact ⟨resized_shrink hwell hopen ht hn hlt (hroom (by omega) hfits), hversion _⟩

/-- **What no operation changes.** -/
theorem Life.tended (h : Life a random r pdps lost) (hv : a.version ≠ 1) : Tended a r := by
  induction h with
  | create => exact .create hv
  | update env junk args _ hfit hu ih =>
    obtain ⟨s, hs, hf, -⟩ := rrdUpdate_smoothFrame hu
    have hadv : Advances (junk.start _) s := processArgs_advances ih.positioned hfit hs
    exact ih.sameDefs (hadv.defs.trans hf.sameDefs) (hf.positioned (hadv.positioned ih.positioned))
  | refused env junk s args arg more _ hfit hs hbad hu ih =>
    have hadv : Advances (junk.start _) s := processArgs_advances ih.positioned hfit hs
    rw [refused_state hs hbad hu]
    exact ih.sameDefs hadv.defs (hadv.positioned ih.positioned)
  | @tune r r' pdps lost opts _ ht ih =>
    have hkeeps := rrdTune_keeps opts (.open r)
    rw [ht] at hkeeps
    exact ih.tune hkeeps
  | resize infilename rraNum mode rows _ hfits hr ih =>
    obtain ⟨hresized, hv'⟩ := resized_of_fits (ih.wellFormed) ih.version hfits hr
    exact ih.resize hresized hv'

/-- `GROW` on a complete file. -/
theorem rrdResize_grow {infilename rraNum rows : Text} {n : ℕ} (hname : infilename ≠ "resize.rrd".toList)
    (hrows : CStr.strtol rows = n) (hn : 0 < n) (hv : r.version = 3) (hopen : r.wantedCnt ≤ r.valueCnt)
    (ht : targetRra rraNum < r.rraCnt)
    (hsize : (r.withRowCnt (targetRra rraNum) ((r.rraDef (targetRra rraNum)).rowCnt + n)).newfileSize ≠ 0) :
    rrdResize infilename rraNum "GROW".toList rows r = .ok (resizeTo r (targetRra rraNum) n) := by
  have hshrink : ¬ ("GROW".toList = "SHRINK".toList) := by decide
  have hcnt : (((r.rraDef (targetRra rraNum)).rowCnt : ℤ) + n).toNat = (r.rraDef (targetRra rraNum)).rowCnt + n := by
    omega
  rw [rrdResize]
  simp only [hrows, hshrink, if_false, not_false_eq_true, and_true, false_and]
  rw [if_neg hname, if_neg (by simp), if_neg (by omega), if_neg (by omega), if_neg (by omega), hcnt, if_neg hsize,
    if_neg (by omega)]

/-- A file with an RRA of three rows, updated once and grown by two rows. -/
def grownGauge : Rrd :=
  let r := rrdCreateFn .single fun _ => 1
  resizeTo (rrdUpdate .bare (.blank r) ["1200:5".toList] r).state 0 2

theorem grownGauge_life : ∃ pdps lost,
    Life .single (fun _ => 1) grownGauge pdps lost ∧
      Finite (pdps 0) ∧ lost 0 = 3 ∧ window 1 3 (pdps 0) = [.num 5] := by
  set a := CreateArgs.single with ha
  set r := rrdCreateFn a fun _ => 1 with hr
  have hok : (rrdUpdate .bare (.blank r) ["1200:5".toList] r).isOk = true := by decide +kernel
  have hfit : StepsFit .bare ["1200:5".toList] ((Upd.blank r).start r) := by
    intro t ht
    obtain rfl : (processArg .bare "1200:5".toList ((Upd.blank r).start r)).state = t := by
      rw [ht]
      rfl
    exact ⟨by decide +kernel, trivial⟩
  have hcreated : Life a (fun _ => 1) r _ _ := .create
  have hupdated := Life.update .bare (.blank r) _ hcreated hfit (Outcome.eq_ok_state hok)
  have hsize : ResizeFits ['0'] "GROW".toList ['2'] (rrdUpdate .bare (.blank r) ["1200:5".toList] r).state := by
    rw [ResizeFits]
    decide +kernel
  have hgrown : rrdResize "a.rrd".toList ['0'] "GROW".toList ['2']
      (rrdUpdate .bare (.blank r) ["1200:5".toList] r).state = .ok grownGauge := by
    refine rrdResize_grow (n := 2) (by decide) (by decide) Nat.two_pos ?_ ?_ ?_ ?_
    all_goals decide +kernel
  refine ⟨_, _, .resize "a.rrd".toList ['0'] "GROW".toList ['2'] hupdated hsize hgrown, ?_, ?_, ?_⟩
  · decide +kernel
  · decide +kernel
  · decide +kernel

/-- A row of the ring by the index of a fetch, and by its age. -/
theorem fetchedRow_newest {r : Rrd} {i d : ℕ} (hc : r.curRow i < (r.rraDef i).rowCnt) {M : ℤ}
    (hlo : r.rowNo i < M + (r.rraDef i).rowCnt) (hhi : M ≤ r.rowNo i) :
    fetchedRow r i (M - r.rowNo i + ((r.rraDef i).rowCnt - 1 : ℕ)) d = r.newest i (r.rowNo i - M).toNat d := by
  have hrow : r.curRow i + 1 + (M - r.rowNo i + ((r.rraDef i).rowCnt - 1 : ℕ)).toNat =
      r.curRow i + ((r.rraDef i).rowCnt - (r.rowNo i - M).toNat) := by omega
  rw [fetchedRow, if_neg (by omega), hrow, Rrd.newest, Ring.before, Rrd.cellPos, mul_comm]

end Main

end Rrdtool
