import Rrdtool.Reach

/-!
# The working storage of an update

The arrays that `_rrd_update` shares between its arguments come from `malloc` and keep what the
argument before has left in them. Every stage of `process_arg` fills what it or a later stage
reads: two calls that start with the same file end with the same file and the same error, whatever
their arrays hold. `processArg_alike` says so for files without seasonal RRAs, whose smoothing
would otherwise be carried from one argument to the next.

A `COMPUTE` program reads `pdp_temp` of the DSs it names; `lookup_DS` finds those that are defined
before it.
-/

namespace Rrdtool

open Loop

/-- No `SEASONAL` and no `DEVSEASONAL` RRA. -/
def Rrd.NoSeasonal (r : Rrd) : Prop := ∀ i, i < r.rraCnt → (r.rraDef i).cf.isSeasonal = false

/-- The `COMPUTE` programs name no DS behind their own. -/
def Rrd.LooksBack (r : Rrd) : Prop :=
  ∀ i, i < r.dsCnt → ∀ c ∈ (r.dsDef i).cdef, (rpnExpand c).ptr ≤ i

/-- Two working storages on the same file, with the definitions of `r`, and with no error and no
smoothing run pending. -/
structure SameFile (r : Rrd) (u v : Upd) : Prop where
  rrd : u.rrd = v.rrd
  defs : SameDefs r u.rrd
  error : u.error = none ∧ v.error = none
  smooth : u.scheduleSmooth = false ∧ v.scheduleSmooth = false

/-- Two working storages in the middle of an argument: `updvals`, `pdp_new`, `pdp_temp` and the
two arrays of the RRAs agree below the given bounds. -/
structure Alike (r : Rrd) (vals news temps rras : ℕ) (u v : Upd) : Prop extends
    SameFile r u v where
  time : u.currentTime = v.currentTime
  usec : u.currentTimeUsec = v.currentTimeUsec
  updvals : ∀ i, i < vals → u.updvals i = v.updvals i
  pdpNew : ∀ i, i < news → u.pdpNew i = v.pdpNew i
  pdpTemp : ∀ i, i < temps → u.pdpTemp i = v.pdpTemp i
  rraStepCnt : ∀ i, i < rras → u.rraStepCnt i = v.rraStepCnt i
  skipUpdate : ∀ i, i < rras → u.skipUpdate i = v.skipUpdate i

/-- The same file. -/
def SameRrd (u v : Upd) : Prop := u.rrd = v.rrd

/-- Storing the same value into one cell of two arrays that agree below `n`. -/
theorem update_agree {α : Type} {f g : ℕ → α} {n : ℕ} (h : ∀ i, i < n → f i = g i) (k : ℕ) (x : α) :
    ∀ i, i < n → Function.update f k x i = Function.update g k x i := by
  intro i hi
  by_cases hik : i = k
  · subst hik
    simp
  · rw [Function.update_of_ne hik, Function.update_of_ne hik]
    exact h i hi

/-- Storing the same value into the first cell on which two arrays need not agree. -/
theorem update_agree_succ {α : Type} {f g : ℕ → α} {n : ℕ} (h : ∀ i, i < n → f i = g i) (x : α) :
    ∀ i, i < n + 1 → Function.update f n x i = Function.update g n x i := by
  intro i hi
  by_cases hin : i = n
  · subst hin
    simp
  · rw [Function.update_of_ne hin, Function.update_of_ne hin]
    exact h i (by omega)

variable {r : Rrd} {vals news temps rras : ℕ} {u v : Upd}

/-! ## Parsing -/

theorem assignFields_agree {n : ℕ} {idxs : List ℕ} {fs : List Text} {f g : ℕ → Text}
    (h : ∀ i, i < n → f i = g i) :
    (∃ e, assignFields idxs fs f = .error e ∧ assignFields idxs fs g = .error e) ∨
      ∃ f' g', assignFields idxs fs f = .ok f' ∧ assignFields idxs fs g = .ok g' ∧
        ∀ i, i < n → f' i = g' i := by
  induction idxs generalizing fs f g with
  | nil =>
    cases fs with
    | nil => exact .inr ⟨f, g, rfl, rfl, h⟩
    | cons x fs => exact .inl ⟨.extraData x, rfl, rfl⟩
  | cons idx idxs ih =>
    cases fs with
    | nil => exact .inr ⟨f, g, rfl, rfl, h⟩
    | cons x fs =>
      exact ih (update_agree h idx x)

theorem getTimeFromReading_alike {env : Env} {at_ : Bool} (h : SameFile r u v)
    (hv : ∀ i, i < r.dsCnt + 1 → u.updvals i = v.updvals i) :
    Outcome.Rel (Alike r (r.dsCnt + 1) 0 0 0) SameRrd (getTimeFromReading env at_ u)
      (getTimeFromReading env at_ v) := by
  simp only [getTimeFromReading, hv 0 (Nat.succ_pos _), h.rrd]
  cases readTime env at_ (v.updvals 0) with
  | error e => exact ⟨rfl, h.rrd⟩
  | ok p =>
    dsimp only
    generalize (if v.rrd.version < 3 then 0 else p.2) = usec
    split_ifs
    · exact ⟨rfl, rfl⟩
    · exact ⟨⟨rfl, h.rrd ▸ h.defs, h.error, h.smooth⟩, rfl, rfl, hv, fun _ hi => by omega,
        fun _ hi => by omega, fun _ hi => by omega, fun _ hi => by omega⟩

/-- The end of `parse_ds`: two arrays that agree are filled from the fields. -/
theorem assignReadings_alike {env : Env} {at_ : Bool} (h : SameFile r u v) (idxs : List ℕ)
    (fields : List Text) {time : Text} {n : ℕ} {f g : ℕ → Text}
    (hfg : ∀ i, i < r.dsCnt + 1 → f i = g i) :
    Outcome.Rel (Alike r (r.dsCnt + 1) 0 0 0) SameRrd
      (match assignFields idxs fields.tail f with
        | .error e => .fail e { u with updvals := f }
        | .ok updvals =>
          if fields.length + 1 ≠ n then
            .fail (.readings (n - 1) fields.length time) { u with updvals := updvals }
          else getTimeFromReading env at_ { u with updvals := updvals })
      (match assignFields idxs fields.tail g with
        | .error e => .fail e { v with updvals := g }
        | .ok updvals =>
          if fields.length + 1 ≠ n then
            .fail (.readings (n - 1) fields.length time) { v with updvals := updvals }
          else getTimeFromReading env at_ { v with updvals := updvals }) := by
  rcases assignFields_agree hfg with ⟨e, hf, hg⟩ | ⟨f', g', hf, hg, hfg'⟩
  · rw [hf, hg]
    exact ⟨rfl, h.rrd⟩
  · rw [hf, hg]
    dsimp only
    split_ifs
    · exact ⟨rfl, h.rrd⟩
    · exact getTimeFromReading_alike ⟨h.rrd, h.defs, h.error, h.smooth⟩ hfg'

/-- **`parse_ds`** sets every entry of `updvals`. -/
theorem parseDsWith_alike {env : Env} (tmpl : List ℕ) (arg : Text) (h : SameFile r u v) :
    Outcome.Rel (Alike r (r.dsCnt + 1) 0 0 0) SameRrd (parseDsWith env tmpl arg u)
      (parseDsWith env tmpl arg v) := by
  have hd : u.rrd.dsCnt = r.dsCnt := h.defs.dsCnt
  have hbase : ∀ i, i < r.dsCnt + 1 →
      (fun i => if i = 0 then arg else if i ≤ u.rrd.dsCnt then ['U'] else u.updvals i) i =
        (fun i => if i = 0 then arg else if i ≤ v.rrd.dsCnt then ['U'] else v.updvals i) i := by
    intro i hi
    have hle : i ≤ v.rrd.dsCnt := by
      rw [← h.rrd]
      omega
    simp [h.rrd, hle]
  simp only [parseDsWith]
  cases cutTime arg with
  | none => exact ⟨rfl, h.rrd⟩
  | some p =>
    have htime := update_agree hbase 0 p.2.1
    dsimp only
    cases tmpl.tail.head? with
    | none => exact assignReadings_alike h _ _ htime
    | some idx => exact assignReadings_alike h _ _ (update_agree htime idx _)

theorem parseDs_alike {env : Env} (arg : Text) (h : SameFile r u v) :
    Outcome.Rel (Alike r (r.dsCnt + 1) 0 0 0) SameRrd (parseDs env arg u) (parseDs env arg v) := by
  rw [← parseDsWith_tmplIdx, ← parseDsWith_tmplIdx, h.rrd]
  exact parseDsWith_alike _ arg h

/-! ## Primary data points -/

/-- The file is changed alike. -/
theorem Alike.setRrd (h : Alike r vals news temps rras u v) {x : Rrd} (hx : SameDefs v.rrd x) :
    Alike r vals news temps rras { u with rrd := x } { v with rrd := x } :=
  ⟨⟨rfl, (h.rrd ▸ h.defs).trans hx, h.error, h.smooth⟩, h.time, h.usec, h.updvals, h.pdpNew,
    h.pdpTemp, h.rraStepCnt, h.skipUpdate⟩

theorem sameDefs_pdpPrep (x : Rrd) (p : ℕ → PdpPrep) : SameDefs x { x with pdpPrep := p } :=
  ⟨rfl, rfl, rfl, rfl, rfl, rfl, rfl⟩

/-- `pdp_prep` and the next entry of `pdp_new` are set alike. -/
theorem Alike.setNew {k : ℕ} (h : Alike r vals k temps rras u v) (p : ℕ → PdpPrep) (x : RrdValue) :
    Alike r vals (k + 1) temps rras
      { u with rrd := { v.rrd with pdpPrep := p }, pdpNew := Function.update u.pdpNew k x }
      { v with rrd := { v.rrd with pdpPrep := p }, pdpNew := Function.update v.pdpNew k x } :=
  ⟨⟨rfl, (h.rrd ▸ h.defs).trans (sameDefs_pdpPrep _ p), h.error, h.smooth⟩, h.time, h.usec,
    h.updvals, update_agree_succ h.pdpNew x, h.pdpTemp, h.rraStepCnt, h.skipUpdate⟩

/-- `pdp_prep` and the next entry of `pdp_temp` are set alike. -/
theorem Alike.setTemp {k : ℕ} (h : Alike r vals news k rras u v) (p : ℕ → PdpPrep) (x : RrdValue) :
    Alike r vals news (k + 1) rras
      { u with rrd := { v.rrd with pdpPrep := p }, pdpTemp := Function.update u.pdpTemp k x }
      { v with rrd := { v.rrd with pdpPrep := p }, pdpTemp := Function.update v.pdpTemp k x } :=
  ⟨⟨rfl, (h.rrd ▸ h.defs).trans (sameDefs_pdpPrep _ p), h.error, h.smooth⟩, h.time, h.usec,
    h.updvals, h.pdpNew, update_agree_succ h.pdpTemp x, h.rraStepCnt, h.skipUpdate⟩

/-- One pass of `update_pdp_prep` sets its entry of `pdp_new`. -/
theorem updatePdpPrepDs_alike (interval : ℚ) {i : ℕ} (hi : i < r.dsCnt)
    (h : Alike r (r.dsCnt + 1) i temps rras u v) :
    Outcome.Rel (Alike r (r.dsCnt + 1) (i + 1) temps rras) SameRrd
      (updatePdpPrepDs interval i u) (updatePdpPrepDs interval i v) := by
  have hval : u.updvals (i + 1) = v.updvals (i + 1) := h.updvals (i + 1) (by omega)
  by_cases hbeat : ((v.rrd.dsDef i).mrhbCnt : ℚ) < interval
  · simp only [updatePdpPrepDs, h.rrd, hval, if_pos hbeat]
    split_ifs
    · cases readValue (v.rrd.dsDef i).dst (v.updvals (i + 1)) _ interval with
      | error e => exact ⟨rfl, rfl⟩
      | ok p => exact h.setNew _ _
    · exact h.setNew _ _
  · simp only [updatePdpPrepDs, h.rrd, hval, if_neg hbeat]
    split_ifs
    · cases readValue (v.rrd.dsDef i).dst (v.updvals (i + 1)) _ interval with
      | error e => exact ⟨rfl, h.rrd⟩
      | ok p => exact h.setNew _ _
    · exact h.setNew _ _

/-- **`update_pdp_prep`** sets every entry of `pdp_new`. -/
theorem updatePdpPrep_alike (interval : ℚ) (h : Alike r (r.dsCnt + 1) 0 temps rras u v) :
    Outcome.Rel (Alike r (r.dsCnt + 1) r.dsCnt temps rras) SameRrd
      (updatePdpPrep interval u) (updatePdpPrep interval v) := by
  have hd : u.rrd.dsCnt = r.dsCnt := h.defs.dsCnt
  simp only [updatePdpPrep, ← h.rrd, hd]
  exact forLoopE_rel (fun i => Alike r (r.dsCnt + 1) i temps rras) h
    fun i _ _ hi huv => updatePdpPrepDs_alike interval hi huv

/-- `simple_update` reads `pdp_new`. -/
theorem simpleUpdate_alike (interval : ℚ) (h : Alike r vals r.dsCnt temps rras u v) :
    Alike r vals r.dsCnt temps rras (simpleUpdate interval u) (simpleUpdate interval v) := by
  have hd : u.rrd.dsCnt = r.dsCnt := h.defs.dsCnt
  simp only [simpleUpdate, ← h.rrd, hd]
  refine forLoop_rel (fun _ => Alike r vals r.dsCnt temps rras) h fun i s t hi hst => ?_
  simp only [hst.rrd, hst.pdpNew i hi]
  exact hst.setRrd (sameDefs_pdpPrep _ _)

/-- A `COMPUTE` program reads `pdp_temp` up to its own DS. -/
theorem computeDs_congr (lib : Libm) {prog : List RpnCdefds} {f g : ℕ → RrdValue} {i : ℕ}
    (hprog : ∀ c ∈ prog, (rpnExpand c).ptr ≤ i) (hfg : ∀ j, j < i + 1 → f j = g j) :
    computeDs lib prog f i = computeDs lib prog g i := by
  have hsubst : (prog.map fun c => substVariable f (rpnExpand c)) =
      prog.map fun c => substVariable g (rpnExpand c) := by
    refine List.map_congr_left fun c hc => ?_
    simp only [substVariable, hfg _ (Nat.lt_succ_of_le (hprog c hc))]
  have hstep : ∀ n s, rpnStep lib f i n s = rpnStep lib g i n s := by
    intro n s
    simp only [rpnStep, hfg (i - 1) (by omega)]
  have hcalc : ∀ p s, rpnCalc lib f i p s = rpnCalc lib g i p s := by
    intro p
    induction p with
    | nil => exact fun s => by rcases s with _ | ⟨a, _ | ⟨b, s⟩⟩ <;> rfl
    | cons n p ih =>
      intro s
      simp only [rpnCalc, hstep, ih]
  rw [computeDs, computeDs, hsubst, hcalc]

/-- One pass of `process_all_pdp_st` sets its entry of `pdp_temp`. -/
theorem processPdpSt_alike {lib : Libm} {interval preInt postInt : ℚ} {diff i : ℕ}
    (hc : r.LooksBack) (hi : i < r.dsCnt) (h : Alike r vals r.dsCnt i rras u v) :
    Outcome.Rel (Alike r vals r.dsCnt (i + 1) rras) SameRrd
      (processPdpSt lib interval preInt postInt diff i u)
      (processPdpSt lib interval preInt postInt diff i v) := by
  have hcdef : ∀ c ∈ (v.rrd.dsDef i).cdef, (rpnExpand c).ptr ≤ i := by
    rw [← h.rrd, h.defs.dsDef]
    exact hc i hi
  by_cases hdst : (v.rrd.dsDef i).dst = .cdef
  · simp only [processPdpSt, h.rrd, h.pdpNew i hi, if_pos hdst]
    rw [computeDs_congr lib hcdef (update_agree_succ h.pdpTemp _)]
    cases computeDs lib (v.rrd.dsDef i).cdef _ i with
    | error e => exact ⟨rfl, rfl⟩
    | ok w =>
      simp only [Function.update_idem]
      exact h.setTemp _ _
  · simp only [processPdpSt, h.rrd, h.pdpNew i hi, if_neg hdst, Function.update_idem]
    exact h.setTemp _ _

/-- **`process_all_pdp_st`** sets every entry of `pdp_temp`. -/
theorem processAllPdpSt_alike {lib : Libm} {interval : ℚ} {el : Elapsed} (hc : r.LooksBack)
    (h : Alike r vals r.dsCnt 0 rras u v) :
    Outcome.Rel (Alike r vals r.dsCnt r.dsCnt rras) SameRrd
      (processAllPdpSt lib interval el u) (processAllPdpSt lib interval el v) := by
  have hd : u.rrd.dsCnt = r.dsCnt := h.defs.dsCnt
  simp only [processAllPdpSt, ← h.rrd, hd]
  exact forLoopE_rel (fun i => Alike r vals r.dsCnt i rras) h
    fun i _ _ hi huv => processPdpSt_alike hc hi huv

/-! ## Consolidated data points -/

theorem sameDefs_setCdp (x : Rrd) (idx : ℕ) (c : CdpPrep) : SameDefs x (x.setCdp idx c) :=
  ⟨rfl, rfl, rfl, rfl, rfl, rfl, rfl⟩

/-- The coefficients of a seasonal array do not matter to other RRAs. -/
theorem prepareCdp_not_seasonal {rra : RraDef} (hcf : rra.cf.isSeasonal = false) (c : CdpPrep)
    (x : RrdValue) (steps elapsed offset : ℕ) (l l' s s' : RrdValue) :
    prepareCdp rra c x steps elapsed offset l s = prepareCdp rra c x steps elapsed offset l' s' := by
  simp only [prepareCdp, resetCdp]
  cases hrra : rra.cf <;> simp_all [Cf.isSeasonal]

/-- `update_cdp_prep` reads `pdp_temp` and the row count of its RRA. -/
theorem updateCdpPrep_alike {elapsed offset k : ℕ} (hk : k < rras)
    (hcf : (r.rraDef k).cf.isSeasonal = false) (h : Alike r vals news r.dsCnt rras u v) :
    Alike r vals news r.dsCnt rras (updateCdpPrep elapsed offset k u)
      (updateCdpPrep elapsed offset k v) := by
  have hd : u.rrd.dsCnt = r.dsCnt := h.defs.dsCnt
  simp only [updateCdpPrep, ← h.rrd, hd]
  refine forLoop_rel (fun _ => Alike r vals news r.dsCnt rras) h fun i s t hi hst => ?_
  have hcf' : (t.rrd.rraDef k).cf.isSeasonal = false := by
    rw [← hst.rrd, hst.defs.rraDef]
    exact hcf
  simp only [updateCdpPrepDs, hst.rrd, hst.pdpTemp i hi, hst.rraStepCnt k hk]
  rw [prepareCdp_not_seasonal hcf' _ _ _ _ _ _ (t.lastSeasonalCoef i) _ (t.seasonalCoef i)]
  exact hst.setRrd (sameDefs_setCdp _ _ _)

/-- The next entries of `rra_step_cnt` and `skip_update` are set alike. -/
theorem prepareRra_alike {elapsed proc k : ℕ} (hcf : (r.rraDef k).cf.isSeasonal = false)
    (h : Alike r vals news temps k u v) :
    Alike r vals news temps (k + 1) (prepareRra elapsed proc k u) (prepareRra elapsed proc k v) := by
  have hcf' : (v.rrd.rraDef k).cf.isSeasonal = false := by
    rw [← h.rrd, h.defs.rraDef]
    exact hcf
  simp only [prepareRra, h.rrd, hcf', Bool.false_eq_true, if_false]
  exact ⟨⟨rfl, h.rrd ▸ h.defs, h.error, h.smooth⟩, h.time, h.usec, h.updvals, h.pdpNew, h.pdpTemp,
    update_agree_succ h.rraStepCnt _, update_agree_succ h.skipUpdate _⟩

/-- Without an error pending, `rrd_test_error` lets both go on. -/
theorem testError_alike (h : Alike r vals news temps rras u v) :
    Outcome.Rel (Alike r vals news temps rras) SameRrd (testError u) (testError v) := by
  simp only [testError, h.error.1, h.error.2]
  exact h

/-- **`update_all_cdp_prep`** sets the arrays of the RRAs. -/
theorem updateAllCdpPrep_alike {elapsed proc : ℕ} (hs : r.NoSeasonal)
    (h : Alike r vals news r.dsCnt 0 u v) :
    Outcome.Rel (Alike r vals news r.dsCnt r.rraCnt) SameRrd
      (updateAllCdpPrep elapsed proc u) (updateAllCdpPrep elapsed proc v) := by
  have hrc : u.rrd.rraCnt = r.rraCnt := h.defs.rraCnt
  simp only [updateAllCdpPrep, ← h.rrd, hrc]
  refine forLoopE_rel (fun i => Alike r vals news r.dsCnt i) h fun k s t hk hst => ?_
  have hcf := hs k hk
  simp only [updateAllCdpPrepRra, hst.rrd]
  refine (testError_alike (prepareRra_alike hcf hst)).andThen fun s' t' hst' => ?_
  exact updateCdpPrep_alike (Nat.lt_succ_self k) hcf hst'

theorem updateAberrantCF_not_seasonal {x : Rrd} {k : ℕ}
    (hcf : (x.rraDef k).cf.isSeasonal = false) (w : RrdValue) (d : ℕ) (sc : ScratchIdx)
    (f g : ℕ → RrdValue) : updateAberrantCF x w k d sc f = updateAberrantCF x w k d sc g := by
  have hdef : ∀ c, (x.setCdp (x.cdpIdx k d) c).rraDef k = x.rraDef k := fun _ => rfl
  simp only [updateAberrantCF, hdef]
  cases hrra : (x.rraDef k).cf <;> simp_all [Cf.isSeasonal]

theorem sameDefs_updateAberrantCF (x : Rrd) (w : RrdValue) (k d : ℕ) (sc : ScratchIdx)
    (f : ℕ → RrdValue) : SameDefs x (updateAberrantCF x w k d sc f) := by
  obtain ⟨c, hc⟩ := updateAberrantCF_frame x k d sc f w
  rw [hc]
  exact sameDefs_setCdp _ _ _

/-- One RRA of `update_aberrant_cdps`. -/
theorem updateAberrantRra_alike {elapsed k : ℕ} {sc : ScratchIdx}
    (hcf : (r.rraDef k).cf.isSeasonal = false) (h : Alike r vals news r.dsCnt rras u v) :
    Outcome.Rel (Alike r vals news r.dsCnt rras) SameRrd
      (updateAberrantRra elapsed sc k u) (updateAberrantRra elapsed sc k v) := by
  have hcf' : (v.rrd.rraDef k).cf.isSeasonal = false := by
    rw [← h.rrd, h.defs.rraDef]
    exact hcf
  simp only [updateAberrantRra, lookupAhead, h.rrd, hcf', Bool.false_eq_true, if_false]
  split_ifs
  · refine (testError_alike h).andThen fun s t hst => ?_
    have hd : s.rrd.dsCnt = r.dsCnt := hst.defs.dsCnt
    simp only [aberrantLoop, ← hst.rrd, hd]
    refine forLoop_rel (fun _ => Alike r vals news r.dsCnt rras) hst fun i s' t' hi hst' => ?_
    have hcf'' : (t'.rrd.rraDef k).cf.isSeasonal = false := by
      rw [← hst'.rrd, hst'.defs.rraDef]
      exact hcf
    simp only [hst'.rrd, hst'.pdpTemp i hi]
    rw [updateAberrantCF_not_seasonal hcf'' _ _ _ _ t'.seasonalCoef]
    exact hst'.setRrd (sameDefs_updateAberrantCF _ _ _ _ _ _)
  · exact h

/-- One pass of `update_aberrant_cdps`. -/
theorem updateAberrantPass_alike {elapsed : ℕ} {sc : ScratchIdx} (hs : r.NoSeasonal)
    (h : Alike r vals news r.dsCnt rras u v) :
    Outcome.Rel (Alike r vals news r.dsCnt rras) SameRrd
      (updateAberrantPass elapsed sc u) (updateAberrantPass elapsed sc v) := by
  have hrc : u.rrd.rraCnt = r.rraCnt := h.defs.rraCnt
  simp only [updateAberrantPass, ← h.rrd, hrc]
  exact forLoopE_rel (fun _ => Alike r vals news r.dsCnt rras) h
    fun k _ _ hk hst => updateAberrantRra_alike (hs k hk) hst

/-- **`update_aberrant_cdps`** reads `pdp_temp`. -/
theorem updateAberrantCdps_alike {elapsed : ℕ} (hs : r.NoSeasonal)
    (h : Alike r vals news r.dsCnt rras u v) :
    Outcome.Rel (Alike r vals news r.dsCnt rras) SameRrd
      (updateAberrantCdps elapsed u) (updateAberrantCdps elapsed v) := by
  simp only [updateAberrantCdps]
  split_ifs
  · exact updateAberrantPass_alike hs h
  · exact (updateAberrantPass_alike hs h).andThen fun _ _ => updateAberrantPass_alike hs
  · exact h

/-! ## Rows -/

/-- Two working storages that are alike and at the same place in the file. -/
def AlikeAt (r : Rrd) (vals news temps rras : ℕ) (u v : Upd) : Prop :=
  Alike r vals news temps rras u v ∧ u.pos = v.pos

/-- The file is changed alike, and both go on at the same place. -/
theorem Alike.seek (h : Alike r vals news temps rras u v) {x : Rrd} (hx : SameDefs v.rrd x) (p : ℕ) :
    AlikeAt r vals news temps rras { u with rrd := x, pos := p } { v with rrd := x, pos := p } :=
  ⟨⟨⟨rfl, (h.rrd ▸ h.defs).trans hx, h.error, h.smooth⟩, h.time, h.usec, h.updvals, h.pdpNew,
    h.pdpTemp, h.rraStepCnt, h.skipUpdate⟩, rfl⟩

theorem sameDefs_rows (x : Rrd) (c : ℕ → ℕ) (w : ℕ → RrdValue) :
    SameDefs x { x with curRow := c, values := w } :=
  ⟨rfl, rfl, rfl, rfl, rfl, rfl, rfl⟩

/-- `write_RRA_row` writes from `cdp_prep`. -/
theorem writeRRARow_alike {k : ℕ} {sc : ScratchIdx} (h : AlikeAt r vals news temps rras u v) :
    Outcome.Rel (AlikeAt r vals news temps rras) SameRrd
      (writeRRARow k sc u) (writeRRARow k sc v) := by
  simp only [writeRRARow, h.1.rrd]
  refine forLoopE_rel (fun _ => AlikeAt r vals news temps rras) h fun d s t _ hst => ?_
  simp only [rrdWrite, hst.1.rrd, hst.2]
  split_ifs
  · exact ⟨rfl, hst.1.rrd⟩
  · exact hst.1.seek (sameDefs_rows _ _ _) _

/-- One row of `write_to_rras`. -/
theorem writeNextRow_alike {k : ℕ} {sc : ScratchIdx} (hk : k < rras)
    (h : Alike r vals news temps rras u v) :
    Outcome.Rel (Alike r vals news temps rras) SameRrd
      (writeNextRow k sc u) (writeNextRow k sc v) := by
  have hseek : AlikeAt r vals news temps rras (seekNextRow k u) (seekNextRow k v) := by
    simp only [seekNextRow, h.rrd]
    exact h.seek (sameDefs_rows _ _ _) _
  simp only [writeNextRow, hseek.1.skipUpdate k hk]
  split_ifs
  · exact hseek.1
  · refine (writeRRARow_alike hseek).andThen fun s t hst => ?_
    exact ⟨⟨hst.1.rrd, hst.1.defs, hst.1.error, hst.1.smooth⟩, hst.1.time, hst.1.usec,
      hst.1.updvals, hst.1.pdpNew, hst.1.pdpTemp, hst.1.rraStepCnt, hst.1.skipUpdate⟩

/-- The rows of one RRA. -/
theorem writeRows_alike {k : ℕ} (hk : k < rras) (n : ℕ) (sc : ScratchIdx)
    (h : Alike r vals news temps rras u v) :
    Outcome.Rel (Alike r vals news temps rras) SameRrd
      (writeRows k n sc u) (writeRows k n sc v) := by
  induction n generalizing sc u v with
  | zero => exact h
  | succ n ih =>
    refine (writeNextRow_alike hk h).andThen fun s t hst => ih .secondary ?_
    exact ⟨⟨hst.rrd, hst.defs, hst.error, hst.smooth⟩, hst.time, hst.usec, hst.updvals, hst.pdpNew,
      hst.pdpTemp, update_agree hst.rraStepCnt k n, hst.skipUpdate⟩

/-- **`write_to_rras`** reads the arrays of the RRAs. -/
theorem writeToRras_alike (h : Alike r vals news temps r.rraCnt u v) :
    Outcome.Rel (Alike r vals news temps r.rraCnt) SameRrd (writeToRras u) (writeToRras v) := by
  have hrc : u.rrd.rraCnt = r.rraCnt := h.defs.rraCnt
  simp only [writeToRras, ← h.rrd, hrc]
  refine forLoopE_rel (fun _ => Alike r vals news temps r.rraCnt) h fun k s t hk hst => ?_
  rw [hst.rraStepCnt k hk]
  exact writeRows_alike hk _ _ hst

/-! ## Arguments -/

/-- What is left of an argument when the next one comes. -/
theorem Alike.sameFile (h : Alike r vals news temps rras u v) : SameFile r u v :=
  ⟨h.rrd, h.defs, h.error, h.smooth⟩

/-- Two working storages after an argument, with the time of the argument. -/
def Done (r : Rrd) (u v : Upd) : Prop :=
  SameFile r u v ∧ u.currentTime = v.currentTime ∧ u.currentTimeUsec = v.currentTimeUsec

theorem Alike.done (h : Alike r vals news temps rras u v) : Done r u v :=
  ⟨h.sameFile, h.time, h.usec⟩

/-- Weaker relations of two outcomes. -/
theorem relDone {o o' : UpdResult} (h : Outcome.Rel (Alike r vals news temps rras) SameRrd o o') :
    Outcome.Rel (Done r) SameRrd o o' := by
  cases o <;> cases o' <;> first | exact Alike.done h | exact h

theorem processPdps_alike {env : Env} {interval : ℚ} (hs : r.NoSeasonal) (hc : r.LooksBack)
    (h : Alike r (r.dsCnt + 1) r.dsCnt 0 0 u v) :
    Outcome.Rel (Done r) SameRrd (processPdps env interval u) (processPdps env interval v) := by
  simp only [processPdps, h.rrd, h.time, h.usec]
  split_ifs
  · exact (simpleUpdate_alike interval h).done
  · exact relDone (Outcome.Rel.andThen (Outcome.Rel.andThen (Outcome.Rel.andThen
      (processAllPdpSt_alike hc h) fun _ _ => updateAllCdpPrep_alike hs)
      fun _ _ => updateAberrantCdps_alike hs) fun _ _ => writeToRras_alike)

/-- An argument behind `parse_ds`. -/
theorem processReadings_alike (env : Env) (hs : r.NoSeasonal) (hc : r.LooksBack)
    (h : Alike r (r.dsCnt + 1) 0 0 0 u v) :
    Outcome.Rel (SameFile r) SameRrd (processReadings env u) (processReadings env v) := by
  have hint : updateInterval u = updateInterval v := by
    simp only [updateInterval, h.rrd, h.time, h.usec]
  rw [processReadings, processReadings, hint]
  refine ((updatePdpPrep_alike _ h).andThen fun _ _ => processPdps_alike hs hc).andThen
    fun s' t' hst' => ?_
  obtain ⟨hsame, htime, husec⟩ := hst'
  have hrrd : (setLastUp s').rrd = (setLastUp t').rrd := by
    simp only [setLastUp, hsame.rrd, htime, husec]
  exact ⟨hrrd, hsame.defs.trans ⟨rfl, rfl, rfl, rfl, rfl, rfl, rfl⟩, hsame.error, hsame.smooth⟩

/-- **The working storage does not matter**: on the same file an argument has the same outcome. -/
theorem processArg_alike (env : Env) (arg : Text) (hs : r.NoSeasonal) (hc : r.LooksBack)
    (h : SameFile r u v) :
    Outcome.Rel (SameFile r) SameRrd (processArg env arg u) (processArg env arg v) :=
  (parseDs_alike arg h).andThen fun _ _ => processReadings_alike env hs hc

/-- The same for a list of arguments. -/
theorem processArgs_alike (env : Env) (args : List Text) (hs : r.NoSeasonal) (hc : r.LooksBack)
    (h : SameFile r u v) :
    Outcome.Rel (SameFile r) SameRrd (processArgs env args u) (processArgs env args v) := by
  induction args generalizing u v with
  | nil => exact h
  | cons arg args ih => exact (processArg_alike env arg hs hc h).andThen fun _ _ => ih

end Rrdtool
