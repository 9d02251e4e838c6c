import Rrdtool.Archive
import Rrdtool.Resize
import Rrdtool.Tune

/-!
# What tuning leaves alone

The options of `rrd_tune` are about data sources, and about the RRAs of the aberrant behaviour detection. Whatever
becomes of them, the consolidating RRAs stay as they are: definitions, preparation areas, positions and rows.

* `TuneKeeps` — the footprint;
* `tuneOption_keeps` — one option, whether it succeeds or not;
* `rrdTune_keeps` — all of them.
-/

namespace Rrdtool

open Loop

/-- **The footprint of `rrd_tune`.** The sizes are the same, and consolidating RRAs are as they were. -/
structure TuneKeeps (r r' : Rrd) : Prop where
  dsCnt : r'.dsCnt = r.dsCnt
  rraCnt : r'.rraCnt = r.rraCnt
  pdpStep : r'.pdpStep = r.pdpStep
  lastUp : r'.lastUp = r.lastUp
  curRow : r'.curRow = r.curRow
  valueCnt : r'.valueCnt = r.valueCnt
  version : r'.version = r.version ∨ r'.version = 4
  cf : ∀ i, (r'.rraDef i).cf = (r.rraDef i).cf
  pdpCnt : ∀ i, (r'.rraDef i).pdpCnt = (r.rraDef i).pdpCnt
  rowCnt : ∀ i, (r'.rraDef i).rowCnt = (r.rraDef i).rowCnt
  plain : ∀ i, (r.rraDef i).cf.isPlain = true → r'.rraDef i = r.rraDef i
  cdp : ∀ i d, (r.rraDef i).cf.isPlain = true → d < r.dsCnt →
    r'.cdpPrep (i * r.dsCnt + d) = r.cdpPrep (i * r.dsCnt + d)
  block : ∀ i, (r.rraDef i).cf.isPlain = true → ∀ q, r.rraStart i ≤ q → q < r.rraStart (i + 1) →
    r'.values q = r.values q

/-- The blocks start where they did, if the row counts are the same. -/
theorem rraStart_of_rowCnt {r r' : Rrd} (hcnt : r'.dsCnt = r.dsCnt)
    (hrows : ∀ i, (r'.rraDef i).rowCnt = (r.rraDef i).rowCnt) (i : ℕ) : r'.rraStart i = r.rraStart i := by
  induction i with
  | zero => rfl
  | succ i ih => rw [Rrd.rraStart_succ, Rrd.rraStart_succ, ih, hcnt, hrows]

namespace TuneKeeps

theorem refl (r : Rrd) : TuneKeeps r r :=
  ⟨rfl, rfl, rfl, rfl, rfl, rfl, .inl rfl, fun _ => rfl, fun _ => rfl, fun _ => rfl, fun _ _ => rfl, fun _ _ _ _ => rfl,
    fun _ _ _ _ _ => rfl⟩

theorem rraStart {r r' : Rrd} (h : TuneKeeps r r') (i : ℕ) : r'.rraStart i = r.rraStart i :=
  rraStart_of_rowCnt h.dsCnt h.rowCnt i

theorem trans {r r' r'' : Rrd} (h : TuneKeeps r r') (h' : TuneKeeps r' r'') : TuneKeeps r r'' where
  dsCnt := h'.dsCnt.trans h.dsCnt
  rraCnt := h'.rraCnt.trans h.rraCnt
  pdpStep := h'.pdpStep.trans h.pdpStep
  lastUp := h'.lastUp.trans h.lastUp
  curRow := h'.curRow.trans h.curRow
  valueCnt := h'.valueCnt.trans h.valueCnt
  version := by
    rcases h'.version with hv | hv
    · rw [hv]
      exact h.version
    · exact .inr hv
  cf i := (h'.cf i).trans (h.cf i)
  pdpCnt i := (h'.pdpCnt i).trans (h.pdpCnt i)
  rowCnt i := (h'.rowCnt i).trans (h.rowCnt i)
  plain i hp := (h'.plain i (by rw [h.cf]; exact hp)).trans (h.plain i hp)
  cdp i d hp hd := by
    have hnext := h'.cdp i d (by rw [h.cf]; exact hp) (by rw [h.dsCnt]; exact hd)
    rw [h.dsCnt] at hnext
    exact hnext.trans (h.cdp i d hp hd)
  block i hp q hlo hhi := by
    have hnext := h'.block i (by rw [h.cf]; exact hp) q (by rw [h.rraStart]; exact hlo) (by rw [h.rraStart]; exact hhi)
    exact hnext.trans (h.block i hp q hlo hhi)

end TuneKeeps

/-! ## Preparation areas and rows of other RRAs -/

variable {r : Rrd} {i : ℕ}

/-- A preparation area of an RRA that does not consolidate. -/
theorem setCdp_keeps (hp : (r.rraDef i).cf.isPlain = false) {d : ℕ} (hd : d < r.dsCnt) (c : CdpPrep) :
    TuneKeeps r (r.setCdp (r.cdpIdx i d) c) := by
  refine ⟨rfl, rfl, rfl, rfl, rfl, rfl, .inl rfl, fun _ => rfl, fun _ => rfl, fun _ => rfl, fun _ _ => rfl, ?_,
    fun _ _ _ _ _ => rfl⟩
  intro j d' hj hd'
  refine Rrd.setCdp_get_of_ne (fun heq => ?_) c
  obtain ⟨rfl, -⟩ := cdpIdx_inj hd' hd heq
  rw [hp] at hj
  exact absurd hj (by simp)

/-- A value of an RRA that does not consolidate. -/
theorem setValue_keeps (hp : (r.rraDef i).cf.isPlain = false) {pos : ℕ} (hlo : r.rraStart i ≤ pos)
    (hhi : pos < r.rraStart (i + 1)) (v : RrdValue) :
    TuneKeeps r { r with values := Function.update r.values pos v } := by
  refine ⟨rfl, rfl, rfl, rfl, rfl, rfl, .inl rfl, fun _ => rfl, fun _ => rfl, fun _ => rfl, fun _ _ => rfl,
    fun _ _ _ _ => rfl, ?_⟩
  intro j hj q hq hq'
  refine Function.update_of_ne ?_ ..
  rintro rfl
  have hij : i ≠ j := by
    rintro rfl
    rw [hp] at hj
    exact absurd hj (by simp)
  rcases Nat.lt_or_gt_of_ne hij with hlt | hgt
  · have := r.rraStart_mono (show i + 1 ≤ j from hlt)
    omega
  · have := r.rraStart_mono (show j + 1 ≤ i from hgt)
    omega

/-- The definition of an RRA that does not consolidate. -/
theorem setRra_keeps (hp : (r.rraDef i).cf.isPlain = false) {def' : RraDef} (hcf : def'.cf = (r.rraDef i).cf)
    (hpdp : def'.pdpCnt = (r.rraDef i).pdpCnt) (hrow : def'.rowCnt = (r.rraDef i).rowCnt) :
    TuneKeeps r { r with rraDef := Function.update r.rraDef i def' } := by
  have hcases {β : Type} (f : RraDef → β) (hf : f def' = f (r.rraDef i)) (j : ℕ) :
      f (Function.update r.rraDef i def' j) = f (r.rraDef j) := by
    by_cases hj : j = i
    · rw [hj, Function.update_self, hf]
    · rw [Function.update_of_ne hj]
  refine ⟨rfl, rfl, rfl, rfl, rfl, rfl, .inl rfl, hcases _ hcf, hcases _ hpdp, hcases _ hrow, fun j hj => ?_,
    fun _ _ _ _ => rfl, fun _ _ _ _ _ => rfl⟩
  refine Function.update_of_ne ?_ ..
  rintro rfl
  rw [hp] at hj
  exact absurd hj (by simp)

/-! ## Options -/

variable {s : TuneRrd} {opt : TuneOpt} {arg : Text}

/-- An option about one DS. -/
theorem tuneDs_keeps {α : Type} {scanned : Option (Text × α)} {store : ℕ → α → TuneRrd → TuneResult}
    (h : ∀ i v, i < s.rrd.dsCnt → TuneKeeps s.rrd (store i v s).state.rrd) :
    TuneKeeps s.rrd (tuneDs opt scanned store s).state.rrd := by
  rcases scanned with _ | ⟨name, v⟩
  · exact TuneKeeps.refl _
  · simp only [tuneDs]
    cases hm : s.dsMatch name with
    | none => exact TuneKeeps.refl _
    | some i => exact h i v (dsMatch_some hm).1

/-- An option about the first RRA of a CF that does not consolidate. -/
theorem tuneRra_keeps {cf : Cf} {store : ℕ → RraDef → TuneRrd → TuneRrd}
    (h : ∀ i, (s.rrd.rraDef i).cf = cf → TuneKeeps s.rrd (store i (s.rrd.rraDef i) s).rrd) :
    TuneKeeps s.rrd (tuneRra cf store s).state.rrd := by
  rw [tuneRra]
  cases hf : s.findRra cf with
  | none => exact TuneKeeps.refl _
  | some i =>
    dsimp only
    split_ifs
    · exact TuneKeeps.refl _
    · exact h i (findRra_some hf).2

/-- A definition keeps its sizes. -/
structure KeepsSizes (d d' : RraDef) : Prop where
  cf : d'.cf = d.cf
  pdpCnt : d'.pdpCnt = d.pdpCnt
  rowCnt : d'.rowCnt = d.rowCnt

/-- `set_hwarg` -/
theorem setHwarg_keeps {cf : Cf} (hp : cf.isPlain = false) {store : RraDef → RrdValue → RraDef}
    (hstore : ∀ d v, KeepsSizes d (store d v)) : TuneKeeps s.rrd (setHwarg cf store arg s).state.rrd := by
  rw [setHwarg]
  split_ifs
  · exact TuneKeeps.refl _
  · refine tuneRra_keeps fun i hcf => ?_
    obtain ⟨h₁, h₂, h₃⟩ := hstore (s.rrd.rraDef i) (CStr.atof arg)
    exact setRra_keeps (hcf ▸ hp) h₁ h₂ h₃

/-- `alpha` and `beta` -/
theorem setHwpredict_keeps {store : RraDef → RrdValue → RraDef} (hstore : ∀ d v, KeepsSizes d (store d v)) :
    TuneKeeps s.rrd (setHwpredict store arg s).state.rrd := by
  rw [setHwpredict]
  have hfirst : TuneKeeps s.rrd (setHwarg .hwpredict store arg s).state.rrd := setHwarg_keeps rfl hstore
  cases hf : setHwarg .hwpredict store arg s with
  | ok u =>
    rw [hf] at hfirst
    exact hfirst
  | fail e u =>
    obtain rfl : u = s := setHwarg_eq_fail hf
    exact setHwarg_keeps rfl hstore

/-- `set_deltaarg` -/
theorem setDeltaarg_keeps {store : RraDef → RrdValue → RraDef} (hstore : ∀ d v, KeepsSizes d (store d v)) :
    TuneKeeps s.rrd (setDeltaarg store arg s).state.rrd := by
  rw [setDeltaarg]
  split_ifs
  · exact TuneKeeps.refl _
  · refine tuneRra_keeps fun i hcf => ?_
    obtain ⟨h₁, h₂, h₃⟩ := hstore (s.rrd.rraDef i) (CStr.atof arg)
    exact setRra_keeps (hcf ▸ rfl) h₁ h₂ h₃

/-- `set_hwsmootharg`, whose version stays in any case -/
theorem setHwsmootharg_keeps {cf : Cf} (hp : cf.isPlain = false) :
    TuneKeeps s.rrd (setHwsmootharg cf arg (withVersion4 s)).state.rrd := by
  have hversion : TuneKeeps s.rrd (withVersion4 s).rrd :=
    ⟨rfl, rfl, rfl, rfl, rfl, rfl, .inr rfl, fun _ => rfl, fun _ => rfl, fun _ => rfl, fun _ _ => rfl, fun _ _ _ _ => rfl,
      fun _ _ _ _ _ => rfl⟩
  rw [setHwsmootharg]
  split_ifs
  · exact hversion
  · exact hversion.trans (tuneRra_keeps fun i hcf => setRra_keeps (hcf ▸ hp) rfl rfl rfl)

/-- `set_windowarg` -/
theorem setWindowarg_keeps {store : RraDef → ℕ → RraDef} (hstore : ∀ d n, KeepsSizes d (store d n)) :
    TuneKeeps s.rrd (setWindowarg store arg s).state.rrd := by
  rw [setWindowarg]
  dsimp only
  split_ifs
  · exact TuneKeeps.refl _
  · refine tuneRra_keeps fun i hcf => ?_
    obtain ⟨h₁, h₂, h₃⟩ := hstore (s.rrd.rraDef i) (toUlong (CStr.atoi arg))
    have hset := setRra_keeps (r := s.rrd) (hcf ▸ rfl) h₁ h₂ h₃
    refine forLoop_invariant (fun _ => TuneKeeps s.rrd) hset fun d r hd hr => ?_
    refine hr.trans (setCdp_keeps ?_ ?_ _)
    · rw [hr.cf, hcf]
      rfl
    · rw [hr.dsCnt]
      exact hd

/-- `reset_aberrant_coefficients` -/
theorem resetAberrantRra_keeps {d : ℕ} (hd : d < r.dsCnt) (i : ℕ) :
    TuneKeeps r (resetAberrantRra d i r).state := by
  have hrows (hp : (r.rraDef i).cf.isPlain = false) (c : CdpPrep) :
      TuneKeeps r (forLoopE (r.rraDef i).rowCnt (fun row t =>
        let pos := t.rraStart i + d + row * t.dsCnt
        if t.valueCnt < pos + 1 then .fail .writeFailed t
        else .ok { t with values := Function.update t.values pos dnan })
        (r.setCdp (r.cdpIdx i d) c) : Outcome TuneError Rrd).state := by
    refine forLoopE_state (TuneKeeps r) (setCdp_keeps hp hd c) fun row t hrow ht => ?_
    dsimp only
    split_ifs
    · exact ht
    · have hcell := cell_lt hrow hd
      have hend := r.rraStart_succ i
      refine ht.trans (setValue_keeps (i := i) (by rw [ht.cf]; exact hp) (by omega) ?_ dnan)
      rw [ht.rraStart, ht.rraStart, ht.dsCnt]
      omega
  rw [resetAberrantRra]
  dsimp only
  cases hcf : (r.rraDef i).cf with
  | hwpredict => exact setCdp_keeps (by rw [hcf]; rfl) hd _
  | mhwpredict => exact setCdp_keeps (by rw [hcf]; rfl) hd _
  | failures => exact setCdp_keeps (by rw [hcf]; rfl) hd _
  | seasonal => exact hrows (by rw [hcf]; rfl) _
  | devseasonal => exact hrows (by rw [hcf]; rfl) _
  | _ => exact TuneKeeps.refl r

/-- `aberrant-reset` -/
theorem aberrantReset_keeps {d : ℕ} (hd : d < s.rrd.dsCnt) : TuneKeeps s.rrd (aberrantReset d s).state.rrd := by
  have hall : TuneKeeps s.rrd (resetAberrantCoefficients d s.rrd).state :=
    forLoopE_state (TuneKeeps s.rrd) (TuneKeeps.refl _) fun i r _ hr =>
      hr.trans (resetAberrantRra_keeps (by rw [hr.dsCnt]; exact hd) i)
  rw [aberrantReset]
  cases hreset : resetAberrantCoefficients d s.rrd with
  | ok r =>
    rw [hreset] at hall
    exact hall
  | fail e r =>
    rw [hreset] at hall
    exact hall

/-- `data-source-type` changes the last reading. -/
theorem setType_keeps (i : ℕ) (type : Text) : TuneKeeps s.rrd (setType i type s).state.rrd := by
  rw [setType]
  cases dstConv type with
  | none => exact TuneKeeps.refl _
  | some dst =>
    dsimp only
    split_ifs
    · exact TuneKeeps.refl _
    · exact ⟨rfl, rfl, rfl, rfl, rfl, rfl, .inl rfl, fun _ => rfl, fun _ => rfl, fun _ => rfl, fun _ _ => rfl,
        fun _ _ _ _ => rfl, fun _ _ _ _ _ => rfl⟩

/-- **One option**, whether it succeeds or not. -/
theorem tuneOption_keeps (opt : TuneOpt) (arg : Text) (s : TuneRrd) :
    TuneKeeps s.rrd (tuneOption opt arg s).state.rrd := by
  cases opt <;> simp only [tuneOption]
  case heartbeat | minimum | maximum | dataSourceRename => exact tuneDs_keeps fun _ _ _ => TuneKeeps.refl _
  case dataSourceType => exact tuneDs_keeps fun i type _ => setType_keeps i type
  case deltapos | deltaneg => exact setDeltaarg_keeps fun _ _ => ⟨rfl, rfl, rfl⟩
  case windowLength | failureThreshold => exact setWindowarg_keeps fun _ _ => ⟨rfl, rfl, rfl⟩
  case alpha | beta => exact setHwpredict_keeps fun _ _ => ⟨rfl, rfl, rfl⟩
  case gamma | gammaDeviation => exact setHwarg_keeps rfl fun _ _ => ⟨rfl, rfl, rfl⟩
  case smoothingWindow | smoothingWindowDeviation => exact setHwsmootharg_keeps rfl
  case aberrantReset => exact tuneDs_keeps fun i _ hi => aberrantReset_keeps hi
  case unknown => exact TuneKeeps.refl _

/-- **`rrd_tune` leaves consolidating RRAs alone**, whether it succeeds or not. -/
theorem rrdTune_keeps (opts : List (TuneOpt × Text)) (s : TuneRrd) : TuneKeeps s.rrd (rrdTune opts s).state.rrd := by
  induction opts generalizing s with
  | nil => exact TuneKeeps.refl _
  | cons o opts ih =>
    have hoption := tuneOption_keeps o.1 o.2 s
    rw [rrdTune]
    cases hfirst : tuneOption o.1 o.2 s with
    | ok u =>
      rw [hfirst] at hoption
      exact hoption.trans (ih u)
    | fail e u =>
      rw [hfirst] at hoption
      exact hoption

end Rrdtool
