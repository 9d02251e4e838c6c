import Mathlib.Algebra.Order.Floor.Semifield
import Rrdtool.NewFile
import Rrdtool.Smoother
import Rrdtool.Tune

/-!
# Smoothing windows

A file of version 3 is smoothed with a window of 5% of the season, whatever its RRAs store; one of
version 4 with the window that each RRA stores. `rrd_tune` stores a window into one RRA and asks for
version 4, so the windows that the other RRAs store come into force. `rrd_create_r` stores 5% into
the RRAs it has been asked for, and nothing into those that come with a prediction.

* `rrdTune_retuned` — what a smoothing option changes;
* `Retuned.applySmoother` — the smoother looks at the width of the window only;
* `smoothing_window_iff` — when the other RRAs are smoothed as before.
-/

namespace Rrdtool

open Loop
open scoped BigOperators

/-! ## The windows of a new file -/

section Window

variable {hashedName idx : ℕ} {token : Text} {s t : RraSt}

/-- An archive in the making that has asked for no window of its own. -/
def DefaultWindow (s : RraSt) : Prop :=
  s.version < 4 → s.rra.cf.isSeasonal = true → s.rra.smoothingWindow = .num (1 / 20)

theorem DefaultWindow.congr (h : DefaultWindow s) (hv : t.version = s.version)
    (hcf : t.rra.cf = s.rra.cf) (hw : t.rra.hwBeta = s.rra.hwBeta) : DefaultWindow t := by
  intro hlt hs
  rw [hv] at hlt
  rw [hcf] at hs
  exact hw.trans (h hlt hs)

/-- The stored window matters for a season only. -/
theorem DefaultWindow.of_cf (h : t.rra.cf.isSeasonal = false) : DefaultWindow t := by
  intro _ hs
  rw [h] at hs
  cases hs

theorem DefaultWindow.setRowCnt (h : DefaultWindow s) (hs : setRowCnt token s = .ok t) :
    DefaultWindow t := by
  unfold Rrdtool.setRowCnt at hs
  split_ifs at hs
  cases hs
  exact h.congr rfl rfl rfl

theorem DefaultWindow.token1 (h : DefaultWindow s) (hs : rraToken1 token s = .ok t) :
    DefaultWindow t := by
  unfold rraToken1 at hs
  dsimp only at hs
  split_ifs at hs
  · cases hs
    exact h.congr rfl rfl rfl
  · exact h.setRowCnt hs

theorem DefaultWindow.token2 (h : DefaultWindow s) (hs : rraToken2 hashedName token s = .ok t) :
    DefaultWindow t := by
  unfold rraToken2 at hs
  split at hs <;> first
    | (split_ifs at hs; cases hs; exact h.congr rfl rfl rfl)
    | (obtain ⟨k, -, hs⟩ := bind_eq_ok.mp hs; split_ifs at hs; cases hs; exact h.congr rfl rfl rfl)
    | (cases hs; exact h.congr rfl rfl rfl)

theorem DefaultWindow.token3 (h : DefaultWindow s) (hs : rraToken3 token s = .ok t) :
    DefaultWindow t := by
  unfold rraToken3 at hs
  split at hs
  · -- a prediction stores its `beta` there
    rename_i hcf
    dsimp only at hs
    split_ifs at hs
    cases hs
    exact .of_cf (by simp [hcf, Cf.isSeasonal])
  · rename_i hcf
    dsimp only at hs
    split_ifs at hs
    cases hs
    exact .of_cf (by simp [hcf, Cf.isSeasonal])
  · cases hs
    exact h.congr rfl rfl rfl
  · cases hs
    exact h.congr rfl rfl rfl
  · split_ifs at hs
    cases hs
    exact h.congr rfl rfl rfl
  · cases hs
  · exact h.setRowCnt hs

theorem DefaultWindow.token4 (h : DefaultWindow s) (hs : rraToken4 token s = .ok t) :
    DefaultWindow t := by
  unfold rraToken4 at hs
  split at hs
  · cases hs
    exact h.congr rfl rfl rfl
  · split at hs
    · cases hs
    · split_ifs at hs
      cases hs
      exact fun hlt => absurd hlt (lt_irrefl 4)
  · split at hs
    · cases hs
    · split_ifs at hs
      cases hs
      exact fun hlt => absurd hlt (lt_irrefl 4)
  · dsimp only at hs
    split_ifs at hs
    cases hs
    exact h.congr rfl rfl rfl
  · dsimp only at hs
    split_ifs at hs
    cases hs
    exact h.congr rfl rfl rfl
  · cases hs

theorem DefaultWindow.tokens {tokens : List Text} (h : DefaultWindow s)
    (hs : rraTokens hashedName idx tokens s = .ok t) : DefaultWindow t := by
  induction tokens generalizing idx s with
  | nil =>
    cases hs
    exact h
  | cons token tokens ih =>
    obtain ⟨u, hu, hs⟩ := bind_eq_ok.mp hs
    refine ih ?_ hs
    unfold rraToken at hu
    split at hu
    · exact h.token1 hu
    · exact h.token2 hu
    · exact h.token3 hu
    · exact h.token4 hu
    · cases hu
      exact h.congr rfl rfl rfl
    · cases hu

theorem parseRra_defaultWindow {version period : ℕ} {tokens : List Text}
    (h : parseRra hashedName idx version period tokens = .ok s) : DefaultWindow s := by
  unfold parseRra at h
  split at h
  · cases h
  · obtain ⟨cf, -, h⟩ := bind_eq_ok.mp h
    obtain ⟨u, hu, h⟩ := bind_eq_ok.mp h
    split_ifs at h
    cases h
    refine DefaultWindow.tokens ?_ hu
    intro _ hcf
    cases cf <;> simp [rraDefault, Cf.isSeasonal] at hcf ⊢

/-- The seasons of a file that no window has been asked for. -/
def DefaultWindows (version : ℕ) (rras : List RraDef) : Prop :=
  version < 4 → ∀ r ∈ rras, r.cf.isSeasonal = true →
    r.smoothingWindow = .num 0 ∨ r.smoothingWindow = .num (1 / 20)

/-- What an `RRA` argument adds: nothing is stored into the seasons that come with a prediction. -/
theorem DefaultWindow.contingent {rras : List RraDef} (h : DefaultWindow s)
    (hr : contingentRras hashedName idx s = .ok rras) : DefaultWindows s.version rras := by
  intro hlt r hmem hcf
  simp only [contingentRras] at hr
  split_ifs at hr with hb
  · obtain ⟨n, -, hr⟩ := bind_eq_ok.mp hr
    cases hr
    simp only [List.mem_cons, List.not_mem_nil, or_false] at hmem
    obtain rfl | rfl | rfl | rfl | rfl := hmem
    · rcases isHwpredict_cases hb.1 with hhw | hhw <;> simp [hhw, Cf.isSeasonal] at hcf
    · exact .inl rfl
    · exact .inl rfl
    · cases hcf
    · cases hcf
  · cases hr
    obtain rfl := List.mem_singleton.mp hmem
    exact .inr (h hlt hcf)

theorem createArgs_windows {args : List Text} {d d' : Defs}
    (hd : DefaultWindows d.version d.rras) (h : createArgs hashedName args d = .ok d') :
    DefaultWindows d'.version d'.rras := by
  induction args generalizing d with
  | nil =>
    cases h
    exact hd
  | cons arg args ih =>
    obtain ⟨d₁, h₁, h⟩ := bind_eq_ok.mp h
    refine ih ?_ h
    rcases createArg_eq_ok h₁ with ⟨_, _, -, -, rfl⟩ | ⟨_, s, rras, -, -, hs, hrras, rfl⟩
    · exact hd
    · intro hlt r hr hcf
      rcases List.mem_append.mp hr with hr | hr
      · refine hd ?_ r hr hcf
        rcases parseRra_version hs with hsame | h4
        · exact hsame ▸ hlt
        · exact absurd hlt (by simp [h4])
      · exact (parseRra_defaultWindow hs).contingent hrras hlt r hr hcf

end Window

/-- A created file has version 3 or 4. -/
theorem Created.version {r : Rrd} (h : Created r) : r.version = 3 ∨ r.version = 4 := by
  obtain ⟨_, _, _, _, _, d, hd, rfl⟩ := h
  exact version_of_rrdCreateR hd

/-- **The seasons of a new file of version 3** store the default window, or none. -/
theorem Created.smoothingWindow {r : Rrd} (h : Created r) (hv : r.version < 4) {j : ℕ}
    (hj : j < r.rraCnt) (hcf : (r.rraDef j).cf.isSeasonal = true) :
    (r.rraDef j).smoothingWindow = .num 0 ∨ (r.rraDef j).smoothingWindow = .num (1 / 20) := by
  obtain ⟨_, pdpStep, lastUp, _, random, d, hd, rfl⟩ := h
  obtain ⟨hacc, hstep⟩ := accepted_of_rrdCreateR hd
  obtain ⟨d', hd', hd⟩ := bind_eq_ok.mp hd
  split_ifs at hd
  cases hd
  have hwindows : DefaultWindows d.version d.rras :=
    createArgs_windows (fun _ _ hr => by simp at hr) hd'
  change j < d.rras.length at hj
  change (d.rras.getD j (rraDefault 0 .average)).cf.isSeasonal = true at hcf
  change (d.rras.getD j (rraDefault 0 .average)).smoothingWindow = _ ∨
    (d.rras.getD j (rraDefault 0 .average)).smoothingWindow = _
  rw [List.getD_eq_getElem _ _ hj] at hcf ⊢
  exact hwindows hv _ (List.getElem_mem hj) hcf

/-! ## What a smoothing option changes -/

/-- The CF of the RRA that a smoothing option stores a window into. -/
def TuneOpt.smoothedCf : TuneOpt → Option Cf
  | .smoothingWindow => some .seasonal
  | .smoothingWindowDeviation => some .devseasonal
  | _ => none

/-- `t` is `r` at version 4, with other smoothing windows in the RRAs that need not be kept. -/
structure Retuned (keep : ℕ → Prop) (r t : Rrd) : Prop where
  eq : t = { r with version := 4, rraDef := t.rraDef }
  rraDef : ∀ k, t.rraDef k = { r.rraDef k with hwBeta := (t.rraDef k).hwBeta }
  kept : ∀ j, keep j → t.rraDef j = r.rraDef j

variable {keep : ℕ → Prop} {r t : Rrd}

theorem retuned_withVersion4 (keep : ℕ → Prop) (r : Rrd) :
    Retuned keep r (withVersion4 (.open r)).rrd :=
  ⟨rfl, fun _ => rfl, fun _ _ => rfl⟩

/-- A window is stored. -/
theorem retuned_setRra {i : ℕ} (v : RrdValue) (hi : ¬keep i) :
    Retuned keep r ((withVersion4 (.open r)).setRra i { r.rraDef i with hwBeta := v }).rrd := by
  have hrest (k : ℕ) (hk : k ≠ i) :
      ((withVersion4 (.open r)).setRra i { r.rraDef i with hwBeta := v }).rrd.rraDef k =
        r.rraDef k := Function.update_of_ne hk _ _
  have hself : ((withVersion4 (.open r)).setRra i { r.rraDef i with hwBeta := v }).rrd.rraDef i =
      { r.rraDef i with hwBeta := v } := Function.update_self ..
  refine ⟨rfl, fun k => ?_, fun j hj => hrest j ?_⟩
  · by_cases hk : k = i
    · subst hk
      rw [hself]
    · rw [hrest k hk]
  · rintro rfl
    exact hi hj

/-- **A smoothing option** asks for version 4 and stores a window into the first RRA of its CF,
whether or not it goes through. -/
theorem rrdTune_retuned {opt : TuneOpt} {cf : Cf} (hopt : opt.smoothedCf = some cf) (arg : Text)
    (r : Rrd) : Retuned (fun j => (TuneRrd.open r).findRra cf ≠ some j) r
      (rrdTune [(opt, arg)] (.open r)).state.rrd := by
  have hset (cf : Cf) : Retuned (fun j => (TuneRrd.open r).findRra cf ≠ some j) r
      (setHwsmootharg cf arg (withVersion4 (.open r))).state.rrd := by
    unfold setHwsmootharg tuneRra
    split_ifs
    · exact retuned_withVersion4 _ r
    · cases hf : (withVersion4 (.open r)).findRra cf with
      | none => exact retuned_withVersion4 _ r
      | some i =>
        dsimp only
        split_ifs
        · exact retuned_withVersion4 _ r
        · exact retuned_setRra _ fun hne => hne hf
  have hrun : (rrdTune [(opt, arg)] (.open r)).state = (tuneOption opt arg (.open r)).state := by
    rw [rrdTune]
    cases tuneOption opt arg (.open r) <;> rfl
  rw [hrun]
  cases opt <;> cases hopt
  · exact hset .seasonal
  · exact hset .devseasonal

/-! ## What the smoother sees of it -/

/-- **RRA `j` is smoothed the same way** in both files. -/
structure SameSmoothing (j : ℕ) (r t : Rrd) : Prop where
  isOk : (applySmoother t j).isOk = (applySmoother r j).isOk
  values : (applySmoother t j).state.values = (applySmoother r j).state.values
  cdpPrep : (applySmoother t j).state.cdpPrep = (applySmoother r j).state.cdpPrep

theorem Retuned.dsCnt (h : Retuned keep r t) : t.dsCnt = r.dsCnt := by rw [h.eq]

theorem Retuned.values (h : Retuned keep r t) : t.values = r.values := by rw [h.eq]

theorem Retuned.cdpPrep (h : Retuned keep r t) : t.cdpPrep = r.cdpPrep := by rw [h.eq]

theorem Retuned.version (h : Retuned keep r t) : t.version = 4 := by rw [h.eq]

theorem Retuned.rowCnt (h : Retuned keep r t) (k : ℕ) :
    (t.rraDef k).rowCnt = (r.rraDef k).rowCnt := by rw [h.rraDef]

theorem Retuned.cf (h : Retuned keep r t) (k : ℕ) : (t.rraDef k).cf = (r.rraDef k).cf := by
  rw [h.rraDef]

theorem Retuned.dependentRraIdx (h : Retuned keep r t) (k : ℕ) :
    (t.rraDef k).dependentRraIdx = (r.rraDef k).dependentRraIdx := by rw [h.rraDef]

theorem Retuned.rraStart (h : Retuned keep r t) (i : ℕ) : t.rraStart i = r.rraStart i := by
  induction i with
  | zero => rfl
  | succ i ih => rw [Rrd.rraStart_succ, Rrd.rraStart_succ, ih, h.rowCnt, h.dsCnt]

theorem Retuned.setCdp (h : Retuned keep r t) (idx : ℕ) (c : CdpPrep) :
    Retuned keep (r.setCdp idx c) (t.setCdp idx c) := by
  refine ⟨?_, h.rraDef, h.kept⟩
  rw [Rrd.setCdp, h.cdpPrep]
  conv_lhs => rw [h.eq]
  rfl

theorem Retuned.writeBlock (h : Retuned keep r t) (j : ℕ) (vals : ℕ → RrdValue) :
    Retuned keep (r.writeBlock j vals) (t.writeBlock j vals) := by
  refine ⟨?_, h.rraDef, h.kept⟩
  rw [Rrd.writeBlock, h.rraStart, h.rowCnt, h.dsCnt, h.values]
  conv_lhs => rw [h.eq]
  rfl

/-- The renormalisation. -/
theorem Retuned.renormalise (h : Retuned keep r t) (j : ℕ) (m : Smoother)
    (init : RrdValue → RrdValue → RrdValue) :
    Retuned keep (smootherRenormalise r j m init).1 (smootherRenormalise t j m init).1 ∧
      (smootherRenormalise t j m init).2 = (smootherRenormalise r j m init).2 := by
  simp only [smootherRenormalise, h.dsCnt, h.rowCnt, h.dependentRraIdx, and_true]
  refine forLoop_rel (fun _ a b => Retuned keep a b) h fun d a b _ hab => ?_
  have hidx (i : ℕ) : b.cdpIdx i d = a.cdpIdx i d := by rw [Rrd.cdpIdx, Rrd.cdpIdx, hab.dsCnt]
  rw [hidx, hab.cdpPrep]
  exact hab.setCdp _ _

/-- **The smoother** depends on the version and the stored window by the width of the window
only. -/
theorem Retuned.applySmoother {j : ℕ} (h : Retuned keep r t)
    (hoffset : smootherOffset t j = smootherOffset r j) : SameSmoothing j r t := by
  have hrun : (Rrdtool.applySmoother t j).isOk = (Rrdtool.applySmoother r j).isOk ∧
      Retuned keep (Rrdtool.applySmoother r j).state (Rrdtool.applySmoother t j).state := by
    simp only [Rrdtool.applySmoother, hoffset, h.rraStart, h.rowCnt, h.dsCnt, h.values, h.cf,
      h.dependentRraIdx]
    split_ifs
    · exact ⟨rfl, h⟩
    · exact ⟨rfl, h⟩
    · cases hwFunctionsOf (r.rraDef (r.rraDef j).dependentRraIdx).cf with
      | none => exact ⟨rfl, h⟩
      | some fn =>
        obtain ⟨hrrd, hvals⟩ := h.renormalise j (smootherAverages (smootherOffset r j)
          (r.rraDef j).rowCnt r.dsCnt fun p => r.values (r.rraStart j + p)) fn.initSeasonality
        refine ⟨rfl, ?_⟩
        dsimp only [Outcome.state_ok]
        rw [hvals]
        exact hrrd.writeBlock j _
    · exact ⟨rfl, h.writeBlock j _⟩
  exact ⟨hrun.1, hrun.2.values, hrun.2.cdpPrep⟩

/-! ## The width of the window -/

variable {j : ℕ}

/-- Half the width, for a window of the season's share `w`. -/
theorem offset_num {w : ℚ} (hw : 0 ≤ w) (n : ℕ) :
    ((Dbl.num w / .num 2 * Dbl.ofNat n).floor.toInt 0).toNat = ⌊w / 2 * n⌋₊ := by
  have hpos : (0 : ℚ) ≤ w / 2 * n := by positivity
  have hfloor : (0 : ℚ) ≤ (⌊w / 2 * n⌋ : ℤ) := by exact_mod_cast Int.floor_nonneg.mpr hpos
  rw [Dbl.num_div two_ne_zero, Dbl.ofNat, Dbl.num_mul]
  change (if (0 : ℚ) ≤ (⌊w / 2 * n⌋ : ℤ) then ⌊((⌊w / 2 * n⌋ : ℤ) : ℚ)⌋ else _).toNat = _
  rw [if_pos hfloor, Int.floor_intCast, Int.floor_toNat]

theorem offset_default (n : ℕ) :
    ((Dbl.num (1 / 20) / .num 2 * Dbl.ofNat n).floor.toInt 0).toNat = n / 40 := by
  have hshare : (1 / 20 : ℚ) / 2 * n = n / (40 : ℕ) := by
    push_cast
    ring
  rw [offset_num (by norm_num), hshare, Nat.floor_div_eq_div]

/-- The built-in window. -/
theorem smootherOffset_builtin (hv : r.version < 4) :
    smootherOffset r j = (r.rraDef j).rowCnt / 40 := by
  have hshare : (5 / 100 : ℚ) = 1 / 20 := by norm_num
  rw [smootherOffset, if_neg (Nat.not_le.mpr hv), hshare]
  exact offset_default _

/-- The default window is the built-in one. -/
theorem smootherOffset_default (hw : (r.rraDef j).smoothingWindow = .num (1 / 20)) :
    smootherOffset r j = (r.rraDef j).rowCnt / 40 := by
  rcases Nat.lt_or_ge r.version 4 with hv | hv
  · exact smootherOffset_builtin hv
  · rw [smootherOffset, if_pos hv, hw]
    exact offset_default _

/-- No window. -/
theorem smootherOffset_zero (hv : r.version = 4) (hw : (r.rraDef j).smoothingWindow = .num 0) :
    smootherOffset r j = 0 := by
  rw [smootherOffset, if_pos hv.ge, hw, offset_num (le_refl 0)]
  simp

/-! ## A peak in the first row -/

/-- A single value in the first row of each DS. -/
def peakAtStart (row : ℕ) : ℕ → ℚ := fun _ => if row = 0 then 1 else 0

/-- The file with this in RRA `j`, and empty preparation areas. -/
def Rrd.withPeak (r : Rrd) (j : ℕ) : Rrd :=
  { r with
    values := fun p => .num (if r.rraStart j ≤ p ∧ p < r.rraStart j + r.dsCnt then 1 else 0)
    cdpPrep := fun _ => zeroCdp }

theorem withPeak_sameDefs (r : Rrd) (j : ℕ) : SameDefs r (r.withPeak j) :=
  ⟨rfl, rfl, rfl, rfl, rfl, rfl, rfl⟩

theorem withPeak_rowsAre (r : Rrd) (j : ℕ) : (r.withPeak j).RowsAre j peakAtStart := by
  intro row d hrow hd
  change d < r.dsCnt at hd
  apply congrArg Dbl.num
  change (if r.rraStart j ≤ r.rraStart j + r.dsCnt * row + d ∧
    r.rraStart j + r.dsCnt * row + d < r.rraStart j + r.dsCnt then (1 : ℚ) else 0) =
    if row = 0 then 1 else 0
  have hiff : (r.rraStart j ≤ r.rraStart j + r.dsCnt * row + d ∧
      r.rraStart j + r.dsCnt * row + d < r.rraStart j + r.dsCnt) ↔ row = 0 := by
    rcases Nat.eq_zero_or_pos row with rfl | hpos
    · omega
    · have hle : r.dsCnt ≤ r.dsCnt * row := Nat.le_mul_of_pos_right _ hpos
      omega
  simp only [hiff]

/-- **A peak is not smoothed the same way** without a window: it is not spread, nothing is added to
the intercept, and no dependency is missed. -/
theorem not_sameSmoothing_of_peak (hpeak : r.RowsAre j peakAtStart)
    (hcdp : ∀ idx, r.cdpPrep idx = zeroCdp) (hds : 0 < r.dsCnt)
    (hcf : (r.rraDef j).cf.isSeasonal = true) (hv : r.version < 4)
    (hrows : 40 ≤ (r.rraDef j).rowCnt) (ht : Retuned keep r t) (hoffset : smootherOffset t j = 0) :
    ¬SameSmoothing j r t := by
  intro h
  have hwidth : smootherOffset r j = (r.rraDef j).rowCnt / 40 := smootherOffset_builtin hv
  have hne : smootherOffset r j ≠ 0 := by omega
  have hfits : 2 * smootherOffset r j + 1 ≤ (r.rraDef j).rowCnt := by omega
  have hfirst : 0 < (r.rraDef j).rowCnt := Nat.lt_of_lt_of_le (by norm_num) hrows
  have hafter : applySmoother t j = .ok t := by
    unfold applySmoother
    exact if_pos hoffset
  cases hc : (r.rraDef j).cf <;> simp only [hc, Cf.isSeasonal, Bool.false_eq_true] at hcf
  · cases hfn : hwFunctionsOf (r.rraDef (r.rraDef j).dependentRraIdx).cf with
    | none =>
      have hfail : applySmoother r j = .fail () r := by
        unfold applySmoother
        dsimp only
        rw [if_neg hne, if_neg hpeak.no_nan, if_pos hc, hfn]
      have hok := h.isOk
      rw [hfail, hafter] at hok
      cases hok
    | some fn =>
      have hgain := applySmoother_seasonal hc hpeak hne hfits hfn hds
      have hsame := congrFun h.cdpPrep (r.cdpIdx (r.rraDef j).dependentRraIdx 0)
      rw [hafter, Outcome.state_ok, ht.cdpPrep, hgain, Rrd.cdp, hcdp] at hsame
      have hsum := Dbl.num.inj (congrArg CdpPrep.hwIntercept hsame)
      rw [zero_add, eq_comm, div_eq_zero_iff] at hsum
      rcases hsum with hzero | hrow
      · exact (Ring.sum_inPlaceMean_single_pos hfits).ne' hzero
      · exact hfirst.ne' (Nat.cast_eq_zero.mp hrow)
  · have hspread := applySmoother_devseasonal hc hpeak hne hfits
    have hsame := congrFun h.values (r.cellPos j 0 0)
    rw [hafter, Outcome.state_ok, ht.values, hpeak 0 0 hfirst hds] at hsame
    obtain ⟨cdpPrep, values, hstate⟩ := applySmoother_state r j
    rw [hstate] at hspread hsame
    have hmean := hsame.trans (hspread 0 0 hfirst hds)
    have hone : (1 : ℚ) = 1 / (2 * smootherOffset r j + 1 : ℕ) :=
      (Dbl.num.inj hmean).trans (Ring.inPlaceMean_single hfits)
    rw [eq_comm, div_eq_one_iff_eq (Nat.cast_ne_zero.mpr (Nat.succ_ne_zero _))] at hone
    have hwidth' : 1 = 2 * smootherOffset r j + 1 := by exact_mod_cast hone
    omega

/-! ## Tuning -/

/-- The seasons that a smoothing option does not address. -/
def OtherSeason (r : Rrd) (cf : Cf) (j : ℕ) : Prop :=
  j < r.rraCnt ∧ (r.rraDef j).cf.isSeasonal = true ∧ (TuneRrd.open r).findRra cf ≠ some j

theorem OtherSeason.congr {r' : Rrd} {cf : Cf} (hdefs : SameDefs r r') :
    OtherSeason r' cf j ↔ OtherSeason r cf j := by
  simp only [OtherSeason, TuneRrd.findRra, TuneRrd.open, hdefs.rraCnt, hdefs.rraDef]
  exact Iff.rfl

/-- A window that is stored is the built-in one, or nothing is smoothed. -/
theorem smootherOffset_same (ht : Retuned keep r t) (hkeep : keep j) (hv : r.version < 4)
    (hw : (r.rraDef j).smoothingWindow = .num 0 ∨ (r.rraDef j).smoothingWindow = .num (1 / 20))
    (h : (r.rraDef j).smoothingWindow = .num (1 / 20) ∨ (r.rraDef j).rowCnt < 40) :
    smootherOffset t j = smootherOffset r j := by
  have hkept := ht.kept j hkeep
  rw [smootherOffset_builtin hv]
  rcases hw with hzero | hdefault
  · rcases h with hdefault | hrows
    · rw [hzero] at hdefault
      exact absurd hdefault (by decide +kernel)
    · rw [smootherOffset_zero ht.version (by rw [hkept]; exact hzero)]
      omega
  · rw [smootherOffset_default (by rw [hkept]; exact hdefault), hkept]

/-- **A smoothing option leaves the other RRAs alone**, whatever a created file holds by then, exactly
where the file has version 4, or all other seasons store the default window or have too few rows to be
smoothed. -/
theorem smoothing_window_iff {r₀ : Rrd} (hc : Created r₀) {opt : TuneOpt} {cf : Cf}
    (hopt : opt.smoothedCf = some cf) (arg : Text) :
    (∀ r, SameDefs r₀ r → ∀ j, OtherSeason r₀ cf j →
      SameSmoothing j r (rrdTune [(opt, arg)] (.open r)).state.rrd) ↔
    r₀.version = 4 ∨ ∀ j, OtherSeason r₀ cf j →
      (r₀.rraDef j).smoothingWindow = .num (1 / 20) ∨ (r₀.rraDef j).rowCnt < 40 := by
  constructor
  · intro h
    rcases hc.version with h3 | h4
    · right
      intro j hj
      by_contra hcond
      obtain ⟨hwindow, hrows⟩ := not_or.mp hcond
      have hv : r₀.version < 4 := by omega
      have hnone := (hc.smoothingWindow hv hj.1 hj.2.1).resolve_right hwindow
      have ht := rrdTune_retuned hopt arg (r₀.withPeak j)
      have hoffset := smootherOffset_zero ht.version
        ((congrArg RraDef.hwBeta (ht.kept j hj.2.2)).trans hnone)
      have hds : 0 < r₀.dsCnt := by
        obtain ⟨_, _, _, _, _, d, _, rfl⟩ := hc
        exact CreateArgs.dsCnt_pos _
      exact not_sameSmoothing_of_peak (withPeak_rowsAre r₀ j) (fun _ => rfl) hds hj.2.1 hv
        (Nat.not_lt.mp hrows) ht hoffset (h _ (withPeak_sameDefs r₀ j) j hj)
    · exact .inl h4
  · intro h r hdefs j hj
    have ht := rrdTune_retuned hopt arg r
    have hkeep := ((OtherSeason.congr hdefs).mpr hj).2.2
    apply ht.applySmoother
    rcases Nat.lt_or_ge r₀.version 4 with hv | hv
    · have hcond := (h.resolve_left hv.ne) j hj
      have hw := hc.smoothingWindow hv hj.1 hj.2.1
      rw [← hdefs.rraDef] at hcond hw
      exact smootherOffset_same ht hkeep (hdefs.version ▸ hv) hw hcond
    · -- the windows are in force already
      rw [smootherOffset, smootherOffset, if_pos ht.version.ge, if_pos (hdefs.version ▸ hv),
        ht.kept j hkeep]

/-- A prediction that brings its season of forty rows. -/
def seasonArgs : List Text :=
  ["DS:d:GAUGE:600:U:U".toList, "RRA:HWPREDICT:1440:0.1:0.0035:40".toList]

/-- What `rrd_create_r` makes of them. -/
def seasonDefs : Defs where
  version := 3
  ds := [⟨['d'], .gauge, .generic 600 dnan dnan⟩]
  rras := [⟨.hwpredict, 1440, 1, .num 0, .num (1 / 10), .num (7 / 2000), 1, 0, 0⟩,
    ⟨.seasonal, 40, 1, .num 0, .num (1 / 10), .num 0, 0, 0, 0⟩,
    ⟨.devseasonal, 40, 1, .num 0, .num (1 / 10), .num 0, 0, 0, 0⟩,
    ⟨.devpredict, 1440, 1, .num 0, .num 0, .num 0, 2, 0, 0⟩,
    ⟨.failures, 40, 1, .num 0, .num 2, .num 2, 2, 9, 7⟩]
  period := 40

theorem seasonDefs_created : rrdCreateR 0 300 seasonArgs = .ok seasonDefs := by decide +kernel

theorem seasonDefs_accepted : seasonDefs.Accepted := (accepted_of_rrdCreateR seasonDefs_created).1

theorem seasonDefs_step : 0 < 300 := (accepted_of_rrdCreateR seasonDefs_created).2

/-- The new file. -/
def newSeason : Rrd :=
  rrdCreateFn (seasonDefs.toArgs 300 900 seasonDefs_accepted seasonDefs_step) fun _ => 0

theorem newSeason_created : Created newSeason :=
  ⟨0, 300, 900, seasonArgs, fun _ => 0, seasonDefs, seasonDefs_created, rfl⟩

theorem newSeason_iff :
    (∀ r, SameDefs newSeason r → ∀ j, OtherSeason newSeason .seasonal j →
      SameSmoothing j r (rrdTune [(.smoothingWindow, "0.1".toList)] (.open r)).state.rrd) ↔
    newSeason.version = 4 ∨ ∀ j, OtherSeason newSeason .seasonal j →
      (newSeason.rraDef j).smoothingWindow = .num (1 / 20) ∨ (newSeason.rraDef j).rowCnt < 40 :=
  smoothing_window_iff newSeason_created rfl "0.1".toList

/-- **A window that is lost**: `--smoothing-window 0.1` stops the smoothing of the deviations. -/
theorem deviations_unsmoothed : ¬ ∀ (r₀ : Rrd) (opt : TuneOpt) (cf : Cf) (arg : Text), Created r₀ →
    opt.smoothedCf = some cf → Dbl.le (.num 0) (CStr.atof arg) = true →
    (CStr.atof arg).le (.num 1) = true → ∀ r, SameDefs r₀ r → ∀ j, OtherSeason r₀ cf j →
      SameSmoothing j r (rrdTune [(opt, arg)] (.open r)).state.rrd := by
  intro h
  have hother : OtherSeason newSeason .seasonal 2 := ⟨by decide, rfl, by decide⟩
  have ht : Retuned (fun j => (TuneRrd.open (newSeason.withPeak 2)).findRra .seasonal ≠ some j)
      (newSeason.withPeak 2) (rrdTune [(.smoothingWindow, "0.1".toList)]
        (.open (newSeason.withPeak 2))).state.rrd := rrdTune_retuned rfl "0.1".toList _
  have hoffset := smootherOffset_zero (j := 2) ht.version
    (congrArg RraDef.hwBeta (ht.kept 2 (by decide)))
  exact not_sameSmoothing_of_peak (withPeak_rowsAre newSeason 2) (fun _ => rfl) (by decide) rfl
    (by decide) (by decide) ht hoffset (h newSeason .smoothingWindow .seasonal "0.1".toList
      newSeason_created rfl (by decide +kernel) (by decide +kernel) _
      (withPeak_sameDefs newSeason 2) 2 hother)

end Rrdtool
