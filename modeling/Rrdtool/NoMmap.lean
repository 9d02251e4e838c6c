import Rrdtool.Atomic
import Rrdtool.Split

/-!
# `_rrd_update` without `mmap`

Without `HAVE_MMAP`, `rrd_open` reads the header into memory. Rows go to the file as they come, with
`write`, and the header goes there after the last argument, with `write_changes_to_disk`. So the
`rrd` of an update in progress (`Upd`) is the header in memory here, with the rows of the file.

* `writeToRras_eq`, `processArgsWith_eq` — up to there both builds do the same;
* `mmap_agrees_iff` — they leave the same file exactly if no argument fails but the first one, and
  this one without a trace.
-/

namespace Rrdtool

open Loop

/-- The RRD that `rrd_open` finds in the file: `live_head` has microseconds from version 3 on. -/
def Rrd.inFile (r : Rrd) : Rrd := if r.version < 3 then { r with lastUpUsec := 0 } else r

namespace NoMmap

/-! ## Writing rows -/

/-- `rrd_write` of one value; `write` makes a file longer that is too short. -/
def rrdWrite (v : RrdValue) (s : Upd) : Upd :=
  { s with
    rrd := { s.rrd with
      values := Function.update s.rrd.values s.pos v
      valueCnt := max s.rrd.valueCnt (s.pos + 1) }
    pos := s.pos + 1 }

/-- `write_RRA_row` -/
def writeRRARow (rraIdx : ℕ) (sc : ScratchIdx) (s : Upd) : Upd :=
  forLoop s.rrd.dsCnt (fun dsIdx s =>
    rrdWrite ((s.rrd.cdpPrep (s.rrd.cdpIdx rraIdx dsIdx)).scratch sc) s) s

/-- One pass of the inner loop of `write_to_rras`. -/
def writeNextRow (rraIdx : ℕ) (sc : ScratchIdx) (s : Upd) : Upd :=
  let u := seekNextRow rraIdx s
  if u.skipUpdate rraIdx then u
  else
    let t := writeRRARow rraIdx sc u
    { t with notified := t.notified ++ [(rraIdx, u.pos)] }

/-- The inner loop of `write_to_rras`. -/
def writeRows (rraIdx : ℕ) : ℕ → ScratchIdx → Upd → Upd
  | 0, _, s => s
  | n + 1, sc, s =>
    let t := writeNextRow rraIdx sc s
    writeRows rraIdx n .secondary { t with rraStepCnt := Function.update t.rraStepCnt rraIdx n }

/-- `write_to_rras` -/
def writeToRras (s : Upd) : Upd :=
  forLoop s.rrd.rraCnt (fun rraIdx s => writeRows rraIdx (s.rraStepCnt rraIdx) .primary s) s

/-! ## Arguments and calls -/

/-- `process_arg` after `update_pdp_prep`. -/
def processPdps (env : Env) (interval : ℚ) (s : Upd) : UpdResult :=
  let el := calculateElapsedSteps s.rrd s.currentTime.toNat s.currentTimeUsec interval
  if el.elapsedPdpSt = 0 then .ok (simpleUpdate interval s)
  else
    (((processAllPdpSt env.lib interval el s).andThen
      (updateAllCdpPrep el.elapsedPdpSt el.procPdpCnt)).andThen
      (updateAberrantCdps el.elapsedPdpSt)).andThen fun s => .ok (writeToRras s)

/-- `process_arg` behind `parse_ds`. -/
def processReadings (env : Env) (s : Upd) : UpdResult :=
  ((updatePdpPrep (updateInterval s) s).andThen (processPdps env (updateInterval s))).andThen
    fun s => .ok (setLastUp s)

/-- `process_arg` -/
def processArgWith (env : Env) (tmpl : List ℕ) (arg : Text) (s : Upd) : UpdResult :=
  (parseDsWith env tmpl arg s).andThen (processReadings env)

/-- The argument loop of `_rrd_update`. -/
def processArgsWith (env : Env) (tmpl : List ℕ) : List Text → Upd → UpdResult
  | [], s => .ok s
  | arg :: args, s => (processArgWith env tmpl arg s).andThen (processArgsWith env tmpl args)

/-- The file before anything of the header is written back: the header that has been opened, with
the rows as they are. -/
def rowsOnDisk (opened : Rrd) (s : Upd) : Rrd :=
  { opened with values := s.rrd.values, valueCnt := s.rrd.valueCnt }

/-- `write_changes_to_disk` -/
def writeChangesToDisk (s : Upd) (file : Rrd) : Rrd :=
  { file with
    lastUp := s.rrd.lastUp
    lastUpUsec := if 3 ≤ s.rrd.version then s.rrd.lastUpUsec else file.lastUpUsec
    pdpPrep := s.rrd.pdpPrep
    cdpPrep := s.rrd.cdpPrep
    curRow := s.rrd.curRow }

/-- `rrd_update_r` on a file that `rrd_open` accepts, and the file it leaves. -/
def rrdUpdateR (env : Env) (junk : Upd) (tmplt : Option Text) (args : List Text) (rrd : Rrd) :
    Outcome CallError Rrd :=
  if args = [] then .fail .arguments rrd
  else
    match tmplIdxOf rrd tmplt with
    | .error e => .fail (.tmplt e) rrd
    | .ok tmpl =>
      match processArgsWith env tmpl args (junk.start rrd) with
      | .fail e s => .fail (.update e) (rowsOnDisk rrd s)
      | .ok s =>
        let file := writeChangesToDisk s (rowsOnDisk rrd s)
        .ok (if s.scheduleSmooth then smoothAllRras file else file)

/-! ## The same rows -/

variable {env : Env} {s t : Upd} {rrd : Rrd} {tmpl : List ℕ}

/-- A value that fits into the file. -/
theorem rrdWrite_of_ok {v : RrdValue} (h : Rrdtool.rrdWrite v s = .ok t) : rrdWrite v s = t := by
  simp only [Rrdtool.rrdWrite] at h
  split_ifs at h with hlen
  obtain rfl := Outcome.ok.inj h
  rw [rrdWrite, max_eq_left (Nat.not_lt.mp hlen)]

theorem writeRRARow_of_ok {i : ℕ} {sc : ScratchIdx} (h : Rrdtool.writeRRARow i sc s = .ok t) :
    writeRRARow i sc s = t :=
  forLoop_of_forLoopE (fun _ _ _ => rrdWrite_of_ok) h

theorem writeNextRow_of_ok {i : ℕ} {sc : ScratchIdx} (h : Rrdtool.writeNextRow i sc s = .ok t) :
    writeNextRow i sc s = t := by
  simp only [Rrdtool.writeNextRow] at h
  simp only [writeNextRow]
  split_ifs at h ⊢
  · exact Outcome.ok.inj h
  · obtain ⟨u, hu, ht⟩ := Outcome.andThen_eq_ok.mp h
    obtain rfl := Outcome.ok.inj ht
    rw [writeRRARow_of_ok hu]

theorem writeRows_of_ok {i n : ℕ} {sc : ScratchIdx} (h : Rrdtool.writeRows i n sc s = .ok t) :
    writeRows i n sc s = t := by
  induction n generalizing s sc with
  | zero => exact Outcome.ok.inj h
  | succ n ih =>
    obtain ⟨u, hu, ht⟩ := Outcome.andThen_eq_ok.mp h
    rw [writeRows, writeNextRow_of_ok hu]
    exact ih ht

/-- **Rows that fit into the file** are written alike. -/
theorem writeToRras_eq (h : Sound s) : Rrdtool.writeToRras s = .ok (writeToRras s) := by
  obtain ⟨t, ht, -⟩ := writeToRras_total h
  have hrows : writeToRras s = t := forLoop_of_forLoopE (fun _ _ _ => writeRows_of_ok) ht
  rw [ht, hrows]

theorem processPdps_eq (h : Sound s) (interval : ℚ) :
    Rrdtool.processPdps env interval s = processPdps env interval s := by
  simp only [Rrdtool.processPdps, processPdps]
  generalize calculateElapsedSteps s.rrd s.currentTime.toNat s.currentTimeUsec interval = el
  split_ifs
  · rfl
  · cases hall : processAllPdpSt env.lib interval el s with
    | fail e t => rfl
    | ok u =>
      have hf : PdpFrame s u := Outcome.of_state_ok hall (processAllPdpSt_state _ _ _ s)
      obtain ⟨v, hv, hsv, -⟩ :=
        updateAllCdpPrep_total (hf.sound h) el.elapsedPdpSt el.procPdpCnt
      obtain ⟨w, hw, hsw, -⟩ := updateAberrantCdps_total hsv el.elapsedPdpSt
      rw [Outcome.ok_andThen, hv, Outcome.ok_andThen, hw, Outcome.ok_andThen, Outcome.ok_andThen]
      exact writeToRras_eq hsw

theorem processReadings_eq (h : Sound s) :
    Rrdtool.processReadings env s = processReadings env s := by
  simp only [Rrdtool.processReadings, processReadings]
  cases hv : updatePdpPrep (updateInterval s) s with
  | fail e t => rfl
  | ok v =>
    have hf : PdpFrame s v := Outcome.of_state_ok hv (updatePdpPrep_state _ s)
    rw [Outcome.ok_andThen, Outcome.ok_andThen, processPdps_eq (hf.sound h)]

end NoMmap

/-! ## Runs -/

variable {env : Env} {s t u : Upd} {rrd : Rrd} {tmpl : List ℕ} {arg : Text} {args : List Text}

theorem processArgWith_sound (h : Sound s) (ht : processArgWith env tmpl arg s = .ok t) :
    Sound t := by
  obtain ⟨u, hu, ht⟩ := Outcome.andThen_eq_ok.mp ht
  have hf : ParseFrame s u := Outcome.of_state_ok hu (parseDsWith_state tmpl arg s)
  exact processReadings_sound (hf.sound h) ht

/-- **The same run in both builds.** -/
theorem processArgsWith_eq (h : Sound s) :
    processArgsWith env tmpl args s = NoMmap.processArgsWith env tmpl args s := by
  induction args generalizing s with
  | nil => rfl
  | cons arg args ih =>
    have harg : processArgWith env tmpl arg s = NoMmap.processArgWith env tmpl arg s := by
      simp only [processArgWith, NoMmap.processArgWith]
      cases hu : parseDsWith env tmpl arg s with
      | fail e u => rfl
      | ok u =>
        have hf : ParseFrame s u := Outcome.of_state_ok hu (parseDsWith_state tmpl arg s)
        rw [Outcome.ok_andThen, Outcome.ok_andThen, NoMmap.processReadings_eq (hf.sound h)]
    rw [processArgsWith, NoMmap.processArgsWith, ← harg]
    cases ht : processArgWith env tmpl arg s with
    | fail e t => rfl
    | ok t => exact ih (processArgWith_sound h ht)

/-- The time of the last update, as the file has it. -/
theorem stamp_inFile_of_old {r : Rrd} (h : r.version < 3) :
    r.inFile.stamp = toLex (r.lastUp, 0) := by
  rw [Rrd.inFile, if_pos h]
  rfl

theorem stamp_inFile_of_new {r : Rrd} (h : ¬ r.version < 3) : r.inFile.stamp = r.stamp := by
  rw [Rrd.inFile, if_neg h]

/-- An argument that is taken moves the time in the file on. -/
theorem processArgWith_later (h : processArgWith env tmpl arg s = .ok t) :
    SameDefs s.rrd t.rrd ∧ s.rrd.inFile.stamp < t.rrd.inFile.stamp := by
  obtain ⟨u, hu, ht⟩ := Outcome.andThen_eq_ok.mp h
  obtain ⟨hle, hne⟩ := parseDsWith_ok hu
  obtain ⟨hdefs, hlast, husec⟩ := processReadings_ok_time ht
  have hold : s.rrd.version < 3 → u.currentTimeUsec = 0 := parseDsWith_usec hu
  obtain ⟨_, _, _, rfl⟩ := Outcome.of_state_ok hu (parseDsWith_state tmpl arg s)
  refine ⟨hdefs, ?_⟩
  dsimp only at hle hne hlast husec hold hdefs
  by_cases hv : s.rrd.version < 3
  · have hv' : t.rrd.version < 3 := by
      rw [hdefs.version]
      exact hv
    have h0 := hold hv
    rw [stamp_inFile_of_old hv, stamp_inFile_of_old hv', Prod.Lex.toLex_lt_toLex]
    dsimp only
    omega
  · have hv' : ¬ t.rrd.version < 3 := by
      rw [hdefs.version]
      exact hv
    rw [stamp_inFile_of_new hv, stamp_inFile_of_new hv', Rrd.stamp, Rrd.stamp,
      Prod.Lex.toLex_lt_toLex]
    dsimp only
    omega

/-- Arguments that are taken. -/
theorem processArgsWith_later (h : processArgsWith env tmpl args s = .ok t) (hne : args ≠ []) :
    s.rrd.inFile.stamp < t.rrd.inFile.stamp := by
  induction args generalizing s with
  | nil => exact absurd rfl hne
  | cons arg args ih =>
    obtain ⟨u, hu, ht⟩ := Outcome.andThen_eq_ok.mp h
    have hlt := (processArgWith_later hu).2
    cases args with
    | nil =>
      obtain rfl := Outcome.ok.inj ht
      exact hlt
    | cons arg' args => exact hlt.trans (ih ht (by simp))

theorem processArgsWith_sound (h : Sound s) (ht : processArgsWith env tmpl args s = .ok t) :
    Sound t := by
  induction args generalizing s with
  | nil =>
    obtain rfl := Outcome.ok.inj ht
    exact h
  | cons arg args ih =>
    obtain ⟨u, hu, ht⟩ := Outcome.andThen_eq_ok.mp ht
    exact ih (processArgWith_sound h hu) ht

/-! ## Calls that fail -/

/-- **A failure without a trace**, with the entries of `tmpl_idx`. -/
def FailsCleanWith (env : Env) (tmpl : List ℕ) (arg : Text) (s : Upd) : Prop :=
  ∀ u, parseDsWith env tmpl arg s = .ok u → Traceless env u

/-- **What a failed argument leaves** in memory: it changes `pdp_prep` at most. -/
theorem processArgWith_fail {e : UpdError} (hs : Sound s)
    (h : processArgWith env tmpl arg s = .fail e t) :
    (∃ f, t.rrd = { s.rrd with pdpPrep := f }) ∧
      (t.rrd = s.rrd ↔ FailsCleanWith env tmpl arg s) := by
  have hparse : ParseFrame s (parseDsWith env tmpl arg s).state := parseDsWith_state tmpl arg s
  rcases Outcome.andThen_eq_fail.mp h with hp | ⟨u, hu, h⟩
  · rw [hp] at hparse
    have hrrd : t.rrd = s.rrd := hparse.rrd
    exact ⟨⟨_, hrrd⟩, fun _ u hu => by simp [hp] at hu, fun _ => hrrd⟩
  · rw [hu] at hparse
    have hclean : FailsCleanWith env tmpl arg s ↔ Traceless env u := by
      refine ⟨fun hc => hc u hu, fun hc v hv => ?_⟩
      obtain rfl := Outcome.ok.inj (hu.symm.trans hv)
      exact hc
    have hrrd : u.rrd = s.rrd := hparse.rrd
    rw [hclean, ← hrrd]
    exact processReadings_fail (hparse.sound hs) h

theorem inFile_pdpPrep_iff {r : Rrd} {f : ℕ → PdpPrep} :
    Rrd.inFile { r with pdpPrep := f } = r.inFile ↔ { r with pdpPrep := f } = r := by
  refine ⟨fun h => Rrd.with_pdpPrep_eq_iff.mpr ?_, fun h => congrArg Rrd.inFile h⟩
  have hprep := congrArg Rrd.pdpPrep h
  unfold Rrd.inFile at hprep
  dsimp only at hprep
  split_ifs at hprep <;> exact hprep

/-- **The files after an argument that fails**: the header that has been opened is still in the one,
and what the arguments have made of it is in the other. -/
theorem inFile_fail_iff {junk : Upd} {k : ℕ} {e : UpdError} (ho : rrd.Openable)
    (hk : args[k]? = some arg) (hu : processArgsWith env tmpl (args.take k) (junk.start rrd) = .ok u)
    (h : processArgWith env tmpl arg u = .fail e t) :
    t.rrd.inFile = (NoMmap.rowsOnDisk rrd t).inFile ↔ k = 0 ∧ FailsCleanWith env tmpl arg u := by
  have hstart : Sound (junk.start rrd) := ⟨ho, rfl⟩
  obtain ⟨⟨f, hf⟩, hiff⟩ := processArgWith_fail (processArgsWith_sound hstart hu) h
  cases k with
  | zero =>
    obtain rfl := Outcome.ok.inj hu
    have hrows : NoMmap.rowsOnDisk rrd t = rrd := by
      rw [NoMmap.rowsOnDisk, hf]
      rfl
    have hrrd : (junk.start rrd).rrd = rrd := rfl
    rw [hrrd] at hf hiff
    rw [hrows, ← hiff, hf, inFile_pdpPrep_iff]
    simp
  | succ k =>
    refine ⟨fun hsame => ?_, fun hc => absurd hc.1 (by simp)⟩
    have hne : args.take (k + 1) ≠ [] := by
      cases args with
      | nil => simp at hk
      | cons a args => simp
    have hlater := processArgsWith_later hu hne
    have ht : t.rrd.inFile.stamp = u.rrd.inFile.stamp := by
      rw [hf]
      unfold Rrd.inFile
      split_ifs <;> rfl
    have hold : (NoMmap.rowsOnDisk rrd t).inFile.stamp = rrd.inFile.stamp := by
      unfold Rrd.inFile NoMmap.rowsOnDisk
      split_ifs <;> rfl
    rw [hsame, hold] at ht
    rw [← ht] at hlater
    exact absurd hlater (lt_irrefl _)

/-! ## Calls -/

/-- **After the last argument** the header is written over the one that has been opened; the
definitions are still the same. -/
theorem inFile_written (hd : SameDefs rrd s.rrd) :
    (NoMmap.writeChangesToDisk s (NoMmap.rowsOnDisk rrd s)).inFile = s.rrd.inFile := by
  unfold NoMmap.writeChangesToDisk NoMmap.rowsOnDisk
  generalize s.rrd = r at hd ⊢
  obtain ⟨hversion, hds, hrra, hstep, hdsDef, hrraDef, -⟩ := hd
  unfold Rrd.inFile
  dsimp only
  rw [← hversion, ← hds, ← hrra, ← hstep, ← hdsDef, ← hrraDef]
  split_ifs with hv h3
  · rfl
  · rfl
  · omega

/-- Nothing is smoothed. -/
theorem smoothAllRras_of_noSeasonal {r : Rrd} (h : r.NoSeasonal) : smoothAllRras r = r := by
  unfold smoothAllRras
  refine forLoopE_state (fun t => t = r) rfl fun i t hi ht => ?_
  subst ht
  rw [h i hi]
  rfl

/-- **Only the first argument fails, and without a trace.** -/
def FailsAtOnce (env : Env) (junk : Upd) (tmplt : Option Text) (args : List Text) (rrd : Rrd) :
    Prop :=
  ∀ tmpl k arg s, tmplIdxOf rrd tmplt = .ok tmpl → args[k]? = some arg →
    processArgsWith env tmpl (args.take k) (junk.start rrd) = .ok s →
    (processArgWith env tmpl arg s).isOk = false → k = 0 ∧ FailsCleanWith env tmpl arg s

/-- A run up to an argument, and that argument. -/
theorem processArgsWith_at {k : ℕ} (hk : args[k]? = some arg)
    (hu : processArgsWith env tmpl (args.take k) s = .ok u) :
    processArgsWith env tmpl args s =
      (processArgWith env tmpl arg u).andThen (processArgsWith env tmpl (args.drop (k + 1))) := by
  obtain ⟨hlt, rfl⟩ := List.getElem?_eq_some_iff.mp hk
  conv_lhs => rw [← List.take_append_drop k args, List.drop_eq_getElem_cons hlt]
  rw [processArgsWith_append, hu, Outcome.ok_andThen]
  rfl

/-- **The argument a run failed on.** -/
theorem processArgsWith_fail {e : UpdError} (h : processArgsWith env tmpl args s = .fail e t) :
    ∃ k arg u, args[k]? = some arg ∧ processArgsWith env tmpl (args.take k) s = .ok u ∧
      processArgWith env tmpl arg u = .fail e t := by
  induction args generalizing s with
  | nil => exact absurd h (by simp [processArgsWith])
  | cons arg args ih =>
    rcases Outcome.andThen_eq_fail.mp h with hf | ⟨u, hu, hrest⟩
    · exact ⟨0, arg, s, rfl, rfl, hf⟩
    · obtain ⟨k, arg', v, hk, hv, hf⟩ := ih hrest
      refine ⟨k + 1, arg', v, by simpa using hk, ?_, hf⟩
      rw [List.take_succ_cons, processArgsWith, hu, Outcome.ok_andThen]
      exact hv

/-- **The builds with and without `mmap` agree** about the result of a call, and about the file it
leaves exactly if no argument fails, or the first one without a trace. -/
theorem mmap_agrees_iff {junk : Upd} {tmplt : Option Text} (ho : rrd.Openable) (hs : rrd.NoSeasonal) :
    (rrdUpdateR env junk tmplt args rrd).isOk = (NoMmap.rrdUpdateR env junk tmplt args rrd).isOk ∧
      ((rrdUpdateR env junk tmplt args rrd).state.inFile =
        (NoMmap.rrdUpdateR env junk tmplt args rrd).state.inFile ↔
        FailsAtOnce env junk tmplt args rrd) := by
  have hstart : Sound (junk.start rrd) := ⟨ho, rfl⟩
  simp only [rrdUpdateR, NoMmap.rrdUpdateR]
  split_ifs with hnil
  · subst hnil
    refine ⟨rfl, fun _ tmpl k arg s _ hk => ?_, fun _ => rfl⟩
    simp at hk
  · cases htm : tmplIdxOf rrd tmplt with
    | error e =>
      refine ⟨rfl, fun _ tmpl k arg s htm' => ?_, fun _ => rfl⟩
      rw [htm] at htm'
      exact absurd htm' (by simp)
    | ok tmpl =>
      have hsame : HasDefs rrd (junk.start rrd) := SameDefs.refl rrd
      have hdefs := processArgsWith_hasDefs env tmpl args hsame
      dsimp only
      rw [← processArgsWith_eq hstart]
      cases hrun : processArgsWith env tmpl args (junk.start rrd) with
      | ok s =>
        -- no argument has failed, and the header is written back
        rw [hrun] at hdefs
        have hwritten := inFile_written hdefs
        have hsmooth : smoothAllRras s.rrd = s.rrd := smoothAllRras_of_noSeasonal (hs.congr hdefs)
        have hfile : SameDefs rrd (NoMmap.writeChangesToDisk s (NoMmap.rowsOnDisk rrd s)) :=
          ⟨rfl, rfl, rfl, rfl, rfl, rfl, hdefs.valueCnt⟩
        refine ⟨rfl, fun _ tmpl' k arg u htm' hk hu hfail => ?_, fun _ => ?_⟩
        · obtain rfl := Except.ok.inj (htm.symm.trans htm')
          rw [processArgsWith_at hk hu] at hrun
          obtain ⟨v, hv, -⟩ := Outcome.andThen_eq_ok.mp hrun
          rw [hv] at hfail
          exact absurd hfail (by simp)
        · dsimp only [Outcome.state_ok]
          rw [hsmooth, smoothAllRras_of_noSeasonal (hs.congr hfile), ite_self, ite_self]
          exact hwritten.symm
      | fail e t =>
        refine ⟨rfl, fun hfile tmpl' k arg u htm' hk hu hfail => ?_, fun honce => ?_⟩
        · obtain rfl := Except.ok.inj (htm.symm.trans htm')
          rw [processArgsWith_at hk hu] at hrun
          rcases Outcome.andThen_eq_fail.mp hrun with hf | ⟨v, hv, -⟩
          · exact (inFile_fail_iff ho hk hu hf).mp hfile
          · rw [hv] at hfail
            exact absurd hfail (by simp)
        · obtain ⟨k, arg, u, hk, hu, hf⟩ := processArgsWith_fail hrun
          refine (inFile_fail_iff ho hk hu hf).mpr (honce tmpl k arg u htm hk hu ?_)
          rw [hf]
          rfl

/-- One argument, without a time. -/
theorem untimed_agrees :
    let r := rrdCreateFn .single fun _ => 0
    let args := ["5".toList]
    (rrdUpdateR .bare (.blank r) none args r).isOk = false ∧
      (rrdUpdateR .bare (.blank r) none args r).state.inFile =
        (NoMmap.rrdUpdateR .bare (.blank r) none args r).state.inFile := by
  intro r args
  have hseason : r.NoSeasonal := fun i _ => rfl
  refine ⟨by decide +kernel, (mmap_agrees_iff (openable_create _ _) hseason).2.mpr ?_⟩
  intro tmpl k arg s _ hk hs _
  cases k with
  | succ k => simp [args] at hk
  | zero =>
    obtain rfl := Option.some.inj hk
    refine ⟨rfl, fun u hu => ?_⟩
    have hcut : cutTime "5".toList = none := by decide
    simp only [parseDsWith, hcut, reduceCtorEq] at hu

/-- **A second argument without a time**: with `mmap` the time of the first one is in the file,
without it the time is still that of the creation. -/
theorem second_untimed_differs :
    let r := rrdCreateFn .single fun _ => 0
    let args := ["1200:5".toList, "5".toList]
    (rrdUpdateR .bare (.blank r) none args r).state.inFile.lastUp = 1200 ∧
      (NoMmap.rrdUpdateR .bare (.blank r) none args r).state.inFile.lastUp = 900 ∧
      r.Openable ∧ r.NoSeasonal ∧
      (rrdUpdateR .bare (.blank r) none args r).state.inFile ≠
        (NoMmap.rrdUpdateR .bare (.blank r) none args r).state.inFile := by
  intro r args
  have hmapped : (rrdUpdateR .bare (.blank r) none args r).state.inFile.lastUp = 1200 := by
    decide +kernel
  have hread : (NoMmap.rrdUpdateR .bare (.blank r) none args r).state.inFile.lastUp = 900 := by
    decide +kernel
  refine ⟨hmapped, hread, openable_create _ _, fun i _ => rfl, fun hsame => ?_⟩
  rw [hsame, hread] at hmapped
  exact absurd hmapped (by decide)

end Rrdtool
