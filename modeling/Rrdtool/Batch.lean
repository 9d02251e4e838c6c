import Rrdtool.Scratch
import Rrdtool.Daemon.Model
import Mathlib.Data.Prod.Lex

/-!
# Batches of cached values

The queue thread of `rrdcached` hands all values of a file that have come together to one call of
`rrd_update_r`. The call stops at the first value it refuses, and the rest of the batch is gone.

* `batches_eq_singly_iff` — every way of grouping the values leaves the file as the values one at
  a time would, if and only if no value after one that is refused has anything to change;
* `batch_drops_value` — a refused value takes a good one with it.
-/

namespace Rrdtool

open Loop

/-- The file after the calls of `rrd_update_r` for some batches, each with the working storage it
finds. -/
def writeBatches (env : Env) : List (Upd × List Text) → Rrd → Rrd
  | [], r => r
  | b :: bs, r => writeBatches env bs (rrdUpdate env b.1 b.2 r).state

/-- The file after one call for each value; the calls that fail are ignored. -/
def writeSingly (env : Env) (ws : List (Upd × Text)) (r : Rrd) : Rrd :=
  writeBatches env (ws.map fun w => (w.1, [w.2])) r

/-- One value, with working storage that happens to be zero. -/
def direct (env : Env) (w : Text) (r : Rrd) : Outcome UpdError Rrd :=
  rrdUpdate env (.blank r) [w] r

/-- **Nothing to lose**: when a value is refused, no later value would change the file as the
refusal left it. -/
def BatchSafe (env : Env) : List Text → Rrd → Prop
  | [], _ => True
  | w :: ws, r =>
    match direct env w r with
    | .ok r' => BatchSafe env ws r'
    | .fail _ r' => ∀ x ∈ ws, (direct env x r').state = r'

/-! ## Definitions and time -/

/-- What the stages of an argument leave alone until it is done. -/
structure Keeps (s t : Upd) : Prop where
  defs : SameDefs s.rrd t.rrd
  lastUp : t.rrd.lastUp = s.rrd.lastUp
  lastUpUsec : t.rrd.lastUpUsec = s.rrd.lastUpUsec
  time : t.currentTime = s.currentTime
  usec : t.currentTimeUsec = s.currentTimeUsec

variable {env : Env} {s t u : Upd} {r r' : Rrd}

theorem Keeps.refl (s : Upd) : Keeps s s := ⟨SameDefs.refl _, rfl, rfl, rfl, rfl⟩

theorem Keeps.trans (h : Keeps s t) (h' : Keeps t u) : Keeps s u :=
  ⟨h.defs.trans h'.defs, h'.lastUp.trans h.lastUp, h'.lastUpUsec.trans h.lastUpUsec,
    h'.time.trans h.time, h'.usec.trans h.usec⟩

theorem PdpFrame.keeps (h : PdpFrame s t) : Keeps s t := by
  obtain ⟨_, _, _, rfl⟩ := h
  exact ⟨sameDefs_pdpPrep _ _, rfl, rfl, rfl, rfl⟩

theorem PrepFrame.keeps (h : PrepFrame s t) : Keeps s t := by
  have hdefs := h.sameDefs
  obtain ⟨_, _, _, _, _, _, _, _, rfl⟩ := h
  exact ⟨hdefs, rfl, rfl, rfl, rfl⟩

theorem RowFrame.keeps (h : RowFrame s t) : Keeps s t := by
  have hdefs := h.sameDefs
  obtain ⟨_, _, _, _, _, rfl⟩ := h
  exact ⟨hdefs, rfl, rfl, rfl, rfl⟩

theorem processPdps_keeps (interval : ℚ) (s : Upd) :
    Keeps s (processPdps env interval s).state := by
  simp only [processPdps]
  split_ifs
  · exact (simpleUpdate_frame interval s).keeps
  · refine Outcome.andThen_state (Outcome.andThen_state (Outcome.andThen_state
      (processAllPdpSt_state _ _ _ s).keeps ?_) ?_) ?_
    · exact fun t ht => ht.trans (updateAllCdpPrep_state _ _ t).keeps
    · exact fun t ht => ht.trans (updateAberrantCdps_state _ t).prep.keeps
    · exact fun t ht => ht.trans (writeToRras_state t).keeps

/-- An argument that fails keeps the definitions and the time of the last update. -/
theorem processArg_fail_keeps {arg : Text} {e : UpdError} (h : processArg env arg s = .fail e t) :
    SameDefs s.rrd t.rrd ∧ t.rrd.lastUp = s.rrd.lastUp ∧ t.rrd.lastUpUsec = s.rrd.lastUpUsec := by
  rcases Outcome.andThen_eq_fail.mp h with hp | ⟨u, hu, h⟩
  · obtain ⟨_, _, _, rfl⟩ := Outcome.of_state_fail hp (parseDs_state arg s)
    exact ⟨SameDefs.refl _, rfl, rfl⟩
  · have hk : Keeps u t := by
      rcases Outcome.andThen_eq_fail.mp h with h | ⟨v, -, hv⟩
      · refine Outcome.of_state_fail h (Outcome.andThen_state (updatePdpPrep_state _ u).keeps ?_)
        exact fun t ht => ht.trans (processPdps_keeps _ t)
      · exact absurd hv (by simp)
    obtain ⟨_, _, _, rfl⟩ := Outcome.of_state_ok hu (parseDs_state arg s)
    exact ⟨hk.defs, hk.lastUp, hk.lastUpUsec⟩

/-- The time of the last update. -/
def Rrd.stamp (r : Rrd) : ℕ ×ₗ ℕ := toLex (r.lastUp, r.lastUpUsec)

/-- Readings that are taken leave their time as that of the last update. -/
theorem processReadings_ok_time (h : processReadings env u = .ok t) :
    SameDefs u.rrd t.rrd ∧ t.rrd.lastUp = u.currentTime.toNat ∧
      t.rrd.lastUpUsec = u.currentTimeUsec := by
  obtain ⟨w, hw, ht⟩ := Outcome.andThen_eq_ok.mp h
  obtain ⟨v, hv, hw⟩ := Outcome.andThen_eq_ok.mp hw
  obtain rfl := Outcome.ok.inj ht
  have hvk : Keeps u v := Outcome.of_state_ok hv (updatePdpPrep_state _ u).keeps
  have hk : Keeps u w := hvk.trans (Outcome.of_state_ok hw (processPdps_keeps _ v))
  exact ⟨hk.defs.trans ⟨rfl, rfl, rfl, rfl, rfl, rfl, rfl⟩, congrArg Int.toNat hk.time, hk.usec⟩

/-- An argument that is processed moves the time of the last update on. -/
theorem processArg_ok_later {arg : Text} (h : processArg env arg s = .ok t) :
    SameDefs s.rrd t.rrd ∧ s.rrd.stamp < t.rrd.stamp := by
  obtain ⟨u, hu, ht⟩ := Outcome.andThen_eq_ok.mp h
  obtain ⟨hle, hne⟩ := parseDs_ok hu
  obtain ⟨hdefs, hlast, husec⟩ := processReadings_ok_time ht
  obtain ⟨_, _, _, rfl⟩ := Outcome.of_state_ok hu (parseDs_state arg s)
  refine ⟨hdefs, ?_⟩
  simp only [Rrd.stamp, Prod.Lex.toLex_lt_toLex]
  dsimp only at hle hne hlast husec
  omega

/-! ## Calls -/

theorem Rrd.NoSeasonal.congr (h : r.NoSeasonal) (hd : SameDefs r r') : r'.NoSeasonal := by
  intro i hi
  rw [hd.rraDef]
  exact h i (hd.rraCnt ▸ hi)

theorem Rrd.LooksBack.congr (h : r.LooksBack) (hd : SameDefs r r') : r'.LooksBack := by
  intro i hi
  rw [hd.dsDef]
  exact h i (hd.dsCnt ▸ hi)

/-- The files that batches are about. -/
structure Rrd.Batchable (r : Rrd) : Prop where
  noSeasonal : r.NoSeasonal
  looksBack : r.LooksBack

theorem Rrd.Batchable.congr (h : r.Batchable) (hd : SameDefs r r') : r'.Batchable :=
  ⟨h.noSeasonal.congr hd, h.looksBack.congr hd⟩

theorem sameFile_start (junk junk' : Upd) (r : Rrd) : SameFile r (junk.start r) (junk'.start r) :=
  ⟨rfl, SameDefs.refl r, ⟨rfl, rfl⟩, ⟨rfl, rfl⟩⟩

/-- What a call returns, in terms of the argument loop: no smoothing run comes after it. -/
def fileOf : UpdResult → Outcome UpdError Rrd
  | .ok s => .ok s.rrd
  | .fail e s => .fail e s.rrd

theorem rrdUpdate_eq_fileOf (hb : r.Batchable) (env : Env) (junk : Upd) (args : List Text) :
    rrdUpdate env junk args r = fileOf (processArgs env args (junk.start r)) := by
  have hrel := processArgs_alike env args hb.noSeasonal hb.looksBack
    (sameFile_start junk junk r)
  simp only [rrdUpdate]
  cases h : processArgs env args (junk.start r) with
  | ok s =>
    rw [h] at hrel
    simp [fileOf, hrel.smooth.1]
  | fail e s => rfl

theorem fileOf_eq {o o' : UpdResult} (h : Outcome.Rel (SameFile r) SameRrd o o') :
    fileOf o = fileOf o' := by
  cases o with
  | ok s =>
    cases o' with
    | ok t => exact congrArg Outcome.ok h.rrd
    | fail e' t => exact h.elim
  | fail e s =>
    cases o' with
    | ok t => exact h.elim
    | fail e' t =>
      obtain ⟨rfl, hst⟩ := h
      exact congrArg (Outcome.fail e) hst

theorem direct_eq_fileOf (hb : r.Batchable) (env : Env) (w : Text) :
    direct env w r = fileOf (processArg env w ((Upd.blank r).start r)) := by
  rw [direct, rrdUpdate_eq_fileOf hb]
  simp only [processArgs]
  cases processArg env w ((Upd.blank r).start r) <;> rfl

/-- **A call takes its values one at a time**, up to the first that is refused. -/
theorem rrdUpdate_cons (hb : r.Batchable) (env : Env) (junk : Upd) (w : Text) (ws : List Text) :
    rrdUpdate env junk (w :: ws) r =
      (direct env w r).andThen fun r' => rrdUpdate env junk ws r' := by
  have hrel := processArg_alike env w hb.noSeasonal hb.looksBack
    (sameFile_start junk (.blank r) r)
  rw [rrdUpdate_eq_fileOf hb, direct_eq_fileOf hb, processArgs]
  cases hu : processArg env w (junk.start r) with
  | fail e s =>
    cases hv : processArg env w ((Upd.blank r).start r) with
    | ok t =>
      rw [hu, hv] at hrel
      exact hrel.elim
    | fail e' t =>
      rw [hu, hv] at hrel
      obtain ⟨rfl, hst⟩ := hrel
      exact congrArg (Outcome.fail e) hst
  | ok s =>
    cases hv : processArg env w ((Upd.blank r).start r) with
    | fail e' t =>
      rw [hu, hv] at hrel
      exact hrel.elim
    | ok t =>
      rw [hu, hv] at hrel
      have hsame : SameFile r s (junk.start t.rrd) :=
        ⟨hrel.rrd, hrel.defs, ⟨hrel.error.1, rfl⟩, ⟨hrel.smooth.1, rfl⟩⟩
      have hdefs : SameDefs r t.rrd := hrel.rrd ▸ hrel.defs
      simp only [fileOf, Outcome.ok_andThen, rrdUpdate_eq_fileOf (hb.congr hdefs)]
      exact fileOf_eq (processArgs_alike env ws hb.noSeasonal hb.looksBack hsame)

/-- The working storage of a call does not matter. -/
theorem rrdUpdate_one (hb : r.Batchable) (env : Env) (junk : Upd) (w : Text) :
    rrdUpdate env junk [w] r = direct env w r := by
  rw [rrdUpdate_cons hb]
  cases direct env w r <;> rfl

/-- One value on its own: a refusal keeps the time of the last update, a success moves it on. -/
theorem direct_cases (hb : r.Batchable) (env : Env) (w : Text) :
    (∃ r', direct env w r = .ok r' ∧ SameDefs r r' ∧ r.stamp < r'.stamp) ∨
      ∃ e r', direct env w r = .fail e r' ∧ SameDefs r r' ∧ r'.stamp = r.stamp := by
  rw [direct_eq_fileOf hb]
  cases hu : processArg env w ((Upd.blank r).start r) with
  | ok t => exact .inl ⟨t.rrd, rfl, processArg_ok_later hu⟩
  | fail e t =>
    obtain ⟨hd, hl, hus⟩ := processArg_fail_keeps hu
    exact .inr ⟨e, t.rrd, rfl, hd, by simp only [Rrd.stamp, hl, hus]; rfl⟩

/-! ## Groups -/

/-- The values one at a time. -/
def oneByOne (env : Env) : List Text → Rrd → Rrd
  | [], r => r
  | w :: ws, r => oneByOne env ws (direct env w r).state

theorem direct_batchable (hb : r.Batchable) (env : Env) (w : Text) :
    (direct env w r).state.Batchable := by
  rcases direct_cases hb env w with ⟨r', h, hd, -⟩ | ⟨e, r', h, hd, -⟩ <;> rw [h] <;>
    exact hb.congr hd

theorem writeSingly_eq (hb : r.Batchable) (env : Env) (ws : List (Upd × Text)) :
    writeSingly env ws r = oneByOne env (ws.map Prod.snd) r := by
  induction ws generalizing r with
  | nil => rfl
  | cons w ws ih =>
    simp only [writeSingly, List.map_cons, writeBatches, rrdUpdate_one hb]
    exact ih (direct_batchable hb env w.2)

/-- The time of the last update never goes back. -/
theorem stamp_le_oneByOne (hb : r.Batchable) (env : Env) (ws : List Text) :
    r.stamp ≤ (oneByOne env ws r).stamp := by
  induction ws generalizing r with
  | nil => exact le_rfl
  | cons w ws ih =>
    have hrest := ih (direct_batchable hb env w)
    refine le_trans ?_ hrest
    rcases direct_cases hb env w with ⟨r', h, -, hlt⟩ | ⟨e, r', h, -, heq⟩ <;> rw [h]
    · exact hlt.le
    · exact heq.ge

/-- Values that change nothing, one after the other. -/
theorem oneByOne_of_idle {ws : List Text} (h : ∀ x ∈ ws, (direct env x r).state = r) :
    oneByOne env ws r = r := by
  induction ws with
  | nil => rfl
  | cons w ws ih =>
    rw [oneByOne, h w List.mem_cons_self]
    exact ih fun x hx => h x (List.mem_cons_of_mem _ hx)

/-- Values that change nothing are refused, all of them. -/
theorem batchSafe_of_idle (hb : r.Batchable) {ws : List Text}
    (h : ∀ x ∈ ws, (direct env x r).state = r) : BatchSafe env ws r := by
  cases ws with
  | nil => trivial
  | cons w ws =>
    have hw := h w List.mem_cons_self
    simp only [BatchSafe]
    rcases direct_cases hb env w with ⟨r', hr, -, hlt⟩ | ⟨e, r', hr, -, -⟩ <;> rw [hr] at hw ⊢
    · exact absurd (congrArg Rrd.stamp hw) hlt.ne'
    · obtain rfl : r' = r := hw
      exact fun x hx => h x (List.mem_cons_of_mem _ hx)

/-- **One batch** of a safe sequence does what its values would do one at a time. -/
theorem batchSafe_append (hb : r.Batchable) (junk : Upd) {ws rest : List Text}
    (h : BatchSafe env (ws ++ rest) r) :
    BatchSafe env rest (rrdUpdate env junk ws r).state ∧
      oneByOne env (ws ++ rest) r = oneByOne env rest (rrdUpdate env junk ws r).state ∧
      (rrdUpdate env junk ws r).state.Batchable := by
  induction ws generalizing r with
  | nil =>
    have hnil : rrdUpdate env junk [] r = .ok r := rrdUpdate_eq_fileOf hb env junk []
    rw [hnil]
    exact ⟨h, rfl, hb⟩
  | cons w ws ih =>
    rw [List.cons_append] at h ⊢
    simp only [BatchSafe] at h
    rw [rrdUpdate_cons hb, oneByOne]
    rcases direct_cases hb env w with ⟨r', hr, hd, -⟩ | ⟨e, r', hr, hd, -⟩ <;> rw [hr] at h ⊢
    · exact ih (hb.congr hd) h
    · -- the call ends here, and what it leaves out would change nothing
      have hrest : ∀ x ∈ rest, (direct env x r').state = r' :=
        fun x hx => h x (List.mem_append_right _ hx)
      refine ⟨batchSafe_of_idle (hb.congr hd) hrest, ?_, hb.congr hd⟩
      exact (oneByOne_of_idle h).trans (oneByOne_of_idle hrest).symm

/-- A safe sequence can be grouped in any way. -/
theorem batchSafe_groups (hb : r.Batchable) {bs : List (Upd × List Text)} {ws : List Text}
    (hbs : (bs.map Prod.snd).flatten = ws) (h : BatchSafe env ws r) :
    writeBatches env bs r = oneByOne env ws r := by
  induction bs generalizing r ws with
  | nil =>
    obtain rfl : [] = ws := hbs
    rfl
  | cons b bs ih =>
    obtain rfl : b.2 ++ (bs.map Prod.snd).flatten = ws := hbs
    obtain ⟨hsafe, heq, hb'⟩ := batchSafe_append hb b.1 h
    rw [heq]
    exact ih hb' rfl hsafe

theorem writeBatches_concat (env : Env) (bs : List (Upd × List Text)) (b : Upd × List Text) (r : Rrd) :
    writeBatches env (bs ++ [b]) r = (rrdUpdate env b.1 b.2 (writeBatches env bs r)).state := by
  induction bs generalizing r with
  | nil => rfl
  | cons c bs ih => exact ih _

theorem oneByOne_append (env : Env) (vs ws : List Text) (r : Rrd) :
    oneByOne env (vs ++ ws) r = oneByOne env ws (oneByOne env vs r) := by
  induction vs generalizing r with
  | nil => rfl
  | cons v vs ih => exact ih _

/-- The beginning of a safe sequence is safe. -/
theorem batchSafe_of_append {vs ws : List Text} (h : BatchSafe env (vs ++ ws) r) :
    BatchSafe env vs r := by
  induction vs generalizing r with
  | nil => trivial
  | cons v vs ih =>
    simp only [List.cons_append, BatchSafe] at h ⊢
    cases hv : direct env v r with
    | ok r' =>
      rw [hv] at h
      exact ih h
    | fail e r' =>
      rw [hv] at h
      exact fun x hx => h x (List.mem_append_left _ hx)

/-- A sequence that is safe and ends where it started has nothing to change. -/
theorem idle_of_batchSafe (hb : r.Batchable) {ws : List Text} (h : BatchSafe env ws r)
    (hend : oneByOne env ws r = r) : ∀ x ∈ ws, (direct env x r).state = r := by
  cases ws with
  | nil => exact fun x hx => absurd hx (by simp)
  | cons w ws =>
    simp only [BatchSafe] at h
    rw [oneByOne] at hend
    rcases direct_cases hb env w with ⟨r', hr, hd, hlt⟩ | ⟨e, r', hr, -, -⟩
    · rw [hr] at hend
      have hle := stamp_le_oneByOne (hb.congr hd) env ws
      rw [show oneByOne env ws r' = r from hend] at hle
      exact absurd hlt (not_lt.mpr hle)
    · rw [hr] at h hend
      have hstay : oneByOne env ws r' = r' := oneByOne_of_idle h
      obtain rfl : r' = r := hstay.symm.trans hend
      intro x hx
      rcases List.mem_cons.mp hx with rfl | hx
      · rw [hr]
        rfl
      · exact h x hx

/-- If every grouping does what the values do one at a time, nothing can be lost. -/
theorem batchSafe_of_groups (hb : r.Batchable) {ws : List Text}
    (h : ∀ bs : List (Upd × List Text), (bs.map Prod.snd).flatten = ws →
      writeBatches env bs r = oneByOne env ws r) : BatchSafe env ws r := by
  induction ws generalizing r with
  | nil => trivial
  | cons w ws ih =>
    -- the first value on its own, and the others in any groups
    have hrest : BatchSafe env ws (direct env w r).state := by
      refine ih (direct_batchable hb env w) fun bs hbs => ?_
      have := h ((.blank r, [w]) :: bs) (by simp [hbs])
      simpa only [writeBatches, rrdUpdate_one hb, oneByOne] using this
    simp only [BatchSafe]
    rcases direct_cases hb env w with ⟨r', hr, hd, -⟩ | ⟨e, r', hr, hd, -⟩ <;> rw [hr] at hrest ⊢
    · exact hrest
    · -- all values in one batch
      have hall := h [(.blank r, w :: ws)] (by simp)
      simp only [writeBatches, rrdUpdate_cons hb, hr, oneByOne] at hall
      exact idle_of_batchSafe (hb.congr hd) hrest hall.symm

/-- **Cached updates against direct updates.** For a file without seasonal RRAs, every way of
grouping the values into batches leaves the file that the values one at a time would leave, if
and only if no value after one that is refused has anything to change. -/
theorem batches_eq_singly_iff (hb : r.Batchable) (env : Env) (ws : List (Upd × Text)) :
    (∀ bs : List (Upd × List Text), (bs.map Prod.snd).flatten = ws.map Prod.snd →
      writeBatches env bs r = writeSingly env ws r) ↔ BatchSafe env (ws.map Prod.snd) r := by
  rw [writeSingly_eq hb]
  exact ⟨batchSafe_of_groups hb, fun h bs hbs => batchSafe_groups hb hbs h⟩

/-! ## Sequences -/

/-- A new file with two `GAUGE`s and three rows of averages. -/
def newPair : Rrd := rrdCreateFn .pair fun _ => 0

theorem newPair_batchable : newPair.Batchable :=
  ⟨fun _ _ => rfl, fun _ _ _ hc => absurd hc (by simp [newPair, rrdCreateFn, CreateArgs.pair,
    CreateArgs.gauge, DsDef.cdef])⟩

/-- The last value of the sequence is refused, and there is nothing behind it. -/
theorem batch_ends_refused :
    let ws : List (Upd × Text) :=
      [(.blank newPair, "1200:5:6".toList), (.blank newPair, "1500:x:6".toList)]
    (direct .bare "1500:x:6".toList (direct .bare "1200:5:6".toList newPair).state).isOk = false ∧
    ∀ bs : List (Upd × List Text), (bs.map Prod.snd).flatten = ws.map Prod.snd →
      writeBatches .bare bs newPair = writeSingly .bare ws newPair := by
  have hfirst : (direct .bare "1200:5:6".toList newPair).isOk = true := by decide +kernel
  have hsecond : (direct .bare "1500:x:6".toList
      (direct .bare "1200:5:6".toList newPair).state).isOk = false := by decide +kernel
  refine ⟨hsecond, (batches_eq_singly_iff newPair_batchable .bare _).mpr ?_⟩
  simp only [List.map_cons, List.map_nil, BatchSafe]
  rw [Outcome.eq_ok_state hfirst]
  cases h : direct .bare "1500:x:6".toList (direct .bare "1200:5:6".toList newPair).state with
  | ok r' =>
    rw [h] at hsecond
    exact absurd hsecond (by simp)
  | fail e r' =>
    dsimp only
    rw [h]
    exact fun x hx => absurd hx (by simp)

/-- `UPDATE` accepts both values. In one batch the first one, which is refused, takes the second
one with it. -/
theorem batch_drops_value :
    let ws : List Text := ["1200:x:6".toList, "1500:5:6".toList]
    let ws' : List (Upd × Text) := ws.map fun w => (.blank newPair, w)
    (Daemon.takeValues (.num 0) (Daemon.number 0 ws)).1 = Daemon.number 0 ws ∧
    (writeBatches .bare [(.blank newPair, ws)] newPair).lastUp = 900 ∧
    (writeSingly .bare ws' newPair).lastUp = 1500 ∧
    ¬ ∀ bs : List (Upd × List Text), (bs.map Prod.snd).flatten = ws'.map Prod.snd →
      writeBatches .bare bs newPair = writeSingly .bare ws' newPair := by
  intro ws ws'
  have hbatch : (writeBatches .bare [(.blank newPair, ws)] newPair).lastUp = 900 := by
    decide +kernel
  have hsingly : (writeSingly .bare ws' newPair).lastUp = 1500 := by decide +kernel
  refine ⟨by decide +kernel, hbatch, hsingly, fun hall => ?_⟩
  have heq := congrArg Rrd.lastUp (hall [(.blank newPair, ws)] rfl)
  rw [hbatch, hsingly] at heq
  exact absurd heq (by decide)

end Rrdtool
