import Rrdtool.Daemon.Disk
import Rrdtool.Daemon.Journal

/-!
# Crashes

The daemon is killed between two sections, and a new one replays the journal. Values whose batch had been written
when the line `wrote` was still missing come back, and an RRD refuses them: their times are not behind its own.

* `direct_stale` — a value that has been taken before is refused, and the file stays as it is;
* `crash_restores` — whatever calls of `rrd_update_r` write the values of the replay, they lead from the file at
  the crash to what direct updates of all accepted values would have left.
-/

namespace Rrdtool

open Loop

variable {env : Env} {r r' q : Rrd} {s t : Upd} {w : Text} {ws : List Text}

/-! ## Values that come twice -/

/-- An argument that parses has a time that does not depend on the file: it is compared with that of the last update
at the end. -/
theorem parseDsWith_time {tmpl : List ℕ} {arg : Text} (h : parseDsWith env tmpl arg s = .ok t) :
    ∃ at_ vals, ∀ s' : Upd, s'.rrd.dsCnt = s.rrd.dsCnt → s'.updvals = s.updvals →
      parseDsWith env tmpl arg s' = getTimeFromReading env at_ { s' with updvals := vals } := by
  unfold parseDsWith at h ⊢
  cases hc : cutTime arg with
  | none => simp [hc] at h
  | some p =>
    simp only [hc] at h
    split at h
    · exact absurd h (by simp)
    · rename_i vals hvals
      split_ifs at h with hlen
      refine ⟨p.1, vals, fun s' hcnt hsame => ?_⟩
      rw [hcnt, hsame]
      dsimp only
      rw [hvals]
      dsimp only
      rw [if_neg hlen]

/-- A time that is not behind that of the last update is illegal. -/
theorem getTimeFromReading_stale {at_ : Bool} (h : getTimeFromReading env at_ s = .ok t)
    (hvals : r.version = s.rrd.version) (s' : Upd) (hs' : s'.rrd = r) (hupd : s'.updvals = s.updvals)
    (hle : t.currentTime < r.lastUp ∨ t.currentTime = r.lastUp ∧ t.currentTimeUsec ≤ r.lastUpUsec) :
    ∃ e u, getTimeFromReading env at_ s' = .fail e u ∧ u.rrd = r := by
  unfold getTimeFromReading at h ⊢
  rw [hupd]
  cases hr : readTime env at_ (s.updvals 0) with
  | error e => simp [hr] at h
  | ok p =>
    simp only [hr, hs', hvals] at h ⊢
    generalize (if s.rrd.version < 3 then 0 else p.2) = usec at h ⊢
    split_ifs at h
    obtain rfl := Outcome.ok.inj h
    exact ⟨_, _, if_pos hle, rfl⟩

/-- **A value that has been taken is refused** ever after, and nothing changes. -/
theorem direct_stale (hb : r.Batchable) (h : direct env w r = .ok r') (hd : SameDefs r' q) (hle : r'.stamp ≤ q.stamp) :
    (direct env w q).state = q := by
  rw [direct_eq_fileOf hb] at h
  cases hu : processArg env w ((Upd.blank r).start r) with
  | fail e t =>
    rw [hu] at h
    cases h
  | ok t =>
    rw [hu] at h
    obtain rfl : t.rrd = r' := Outcome.ok.inj h
    obtain ⟨u, hparse, hread⟩ := Outcome.andThen_eq_ok.mp hu
    obtain ⟨hdefs, hlast, husec⟩ := processReadings_ok_time hread
    obtain ⟨hlo, -⟩ := parseDs_ok hparse
    have hdefs' : SameDefs r q := (processArg_ok_later hu).1.trans hd
    obtain ⟨at_, vals, hvals⟩ := parseDsWith_time hparse
    have hfirst := hvals _ rfl rfl
    have hagain := hvals ((Upd.blank q).start q) hdefs'.dsCnt rfl
    have htmpl : tmplIdx q = tmplIdx r := by rw [tmplIdx, tmplIdx, hdefs'.dsCnt, hdefs'.dsDef]
    have htime : u.currentTime < q.lastUp ∨ u.currentTime = q.lastUp ∧ u.currentTimeUsec ≤ q.lastUpUsec := by
      simp only [Rrd.stamp, Prod.Lex.toLex_le_toLex, hlast, husec] at hle
      omega
    obtain ⟨e, v, hfail, hv⟩ := getTimeFromReading_stale (hfirst.symm.trans hparse) hdefs'.version
      { (Upd.blank q).start q with updvals := vals } rfl rfl htime
    have hparse' : parseDs env w ((Upd.blank q).start q) = .fail e v := by
      rw [← parseDsWith_tmplIdx]
      change parseDsWith env (tmplIdx q) w _ = _
      rw [htmpl]
      exact hagain.trans hfail
    rw [direct_eq_fileOf (hb.congr hdefs'), processArg_eq, hparse']
    exact hv

/-- Every value is taken. -/
def AllTaken (env : Env) : List Text → Rrd → Prop
  | [], _ => True
  | w :: ws, r => (direct env w r).isOk = true ∧ AllTaken env ws (direct env w r).state

theorem AllTaken.batchSafe (h : AllTaken env ws r) : BatchSafe env ws r := by
  induction ws generalizing r with
  | nil => trivial
  | cons w ws ih =>
    rw [BatchSafe, Outcome.eq_ok_state h.1]
    exact ih h.2

theorem AllTaken.of_append {vs : List Text} (h : AllTaken env (vs ++ ws) r) : AllTaken env ws (oneByOne env vs r) := by
  induction vs generalizing r with
  | nil => exact h
  | cons v vs ih => exact ih h.2

theorem oneByOne_sameDefs (hb : r.Batchable) (env : Env) (ws : List Text) : SameDefs r (oneByOne env ws r) := by
  induction ws generalizing r with
  | nil => exact SameDefs.refl r
  | cons w ws ih =>
    have hw : SameDefs r (direct env w r).state := by
      rcases direct_cases hb env w with ⟨r', h, hd, -⟩ | ⟨e, r', h, hd, -⟩ <;> rw [h] <;> exact hd
    exact hw.trans (ih (direct_batchable hb env w))

/-- Values that have been taken change nothing when they come again. -/
theorem AllTaken.idle (hb : r.Batchable) (h : AllTaken env ws r) (hd : SameDefs (oneByOne env ws r) q)
    (hle : (oneByOne env ws r).stamp ≤ q.stamp) : ∀ x ∈ ws, (direct env x q).state = q := by
  induction ws generalizing r with
  | nil => exact fun x hx => absurd hx List.not_mem_nil
  | cons w ws ih =>
    have hb' := direct_batchable hb env w
    intro x hx
    rcases List.mem_cons.mp hx with rfl | hx
    · refine direct_stale hb (Outcome.eq_ok_state h.1) ((oneByOne_sameDefs hb' env ws).trans hd) ?_
      exact (stamp_le_oneByOne hb' env ws).trans hle
    · exact ih hb' h.2 hd hle x hx

end Rrdtool

namespace Rrdtool.Daemon

open Loop Pipeline

variable {cfg : Cfg} {env : Env} {s t : St} {a : Act} {tree : Text → Option Item} {file : Text}

/-! ## What comes back -/

/-- The batches that are written but not noted: a replay still has their values, which are the last that were handed
over. -/
def Late (s : St) (tree : Text → Option Item) : Prop :=
  ∀ i f, s.threads i = .updated f → ∃ front, s.handed f = front ++ pendingIn tree f

/-- Sections that leave the queue threads, the journal and what is handed over as they are. -/
theorem Late.congr (h : Late s tree) (hthreads : t.threads = s.threads) (hhanded : t.handed = s.handed) :
    Late t tree := by
  intro i f hi
  rw [hthreads] at hi
  rw [hhanded]
  exact h i f hi

/-- A queue thread goes on to where nothing is late. -/
theorem Late.move (h : Late s tree) {i : ℕ} {q : QThread} (hq : ∀ f, q ≠ .updated f)
    (hthreads : t.threads = Function.update s.threads i q) (hhanded : t.handed = s.handed) : Late t tree := by
  intro j f hj
  rw [hthreads] at hj
  rw [hhanded]
  by_cases hji : j = i
  · subst hji
    rw [Function.update_self] at hj
    exact absurd hj (hq f)
  · rw [Function.update_of_ne hji] at hj
    exact h j f hj

/-- The line of an `UPDATE` adds the values that the `UPDATE` has added. -/
theorem Recovers.pendingIn_update (h : Recovers s tree) (now now' : ℤ) (random random' : ℕ) (file : Text)
    (vs : List Text) :
    pendingIn (replayLine cfg now' random' tree (.update file (number s.nextNo vs))) =
      Function.update (pendingIn tree) file (pendingIn tree file ++ s.adds cfg now random file vs) := by
  have hstamp := @getD_newItem_stamp cfg _ _ now' now random' random (h.stamps file)
  rw [replayLine, Daemon.pendingIn_update]
  simp only [Option.map_some, Option.getD_some, Item.add, getD_newItem_values, hstamp]
  rfl

/-- An `UPDATE` of a file with a batch that is late adds nothing. -/
theorem Late.accept (h : Late s tree) (hr : Recovers s tree) {now now' : ℤ} {random random' : ℕ} {vs : List Text}
    (hlog : Logged s file ∨ s.adds cfg now random file vs = []) (hthreads : t.threads = s.threads)
    (hhanded : t.handed = s.handed) :
    Late t (replayLine cfg now' random' tree (.update file (number s.nextNo vs))) := by
  intro i f hi
  rw [hthreads] at hi
  rw [hhanded, hr.pendingIn_update now now' random random' file vs]
  by_cases hf : f = file
  · subst hf
    have hun : (s.threads i).unlogged = some f := by rw [hi]; rfl
    rw [hlog.resolve_left fun hl => hl i hun, Function.update_self, List.append_nil]
    exact h i f hi
  · rw [Function.update_of_ne hf]
    exact h i f hi

/-- A batch that has been written is late. -/
theorem Late.write (h : Late s tree) (hr : Recovers s tree) {i : ℕ} {vs : List Val}
    (hi : s.threads i = .detached file vs) (hthreads : t.threads = Function.update s.threads i (.updated file))
    (hhanded : t.handed = Function.update s.handed file (s.handed file ++ vs)) : Late t tree := by
  intro j f hj
  rw [hthreads] at hj
  by_cases hji : j = i
  · subst hji
    rw [Function.update_self] at hj
    obtain rfl := QThread.updated.inj hj
    refine ⟨s.handed file, ?_⟩
    rw [hhanded, Function.update_self, hr.batch hi]
  · rw [Function.update_of_ne hji] at hj
    have hne : f ≠ file := by
      rintro rfl
      exact hji (hr.one (by rw [hj]; rfl) (by rw [hi]; rfl))
    rw [hhanded, Function.update_of_ne hne]
    exact h j f hj

/-- The line `wrote` throws away what is late. -/
theorem Late.wrote (h : Late s tree) (hr : Recovers s tree) {now : ℤ} {random i : ℕ} (hi : s.threads i = .updated file)
    (hthreads : t.threads = Function.update s.threads i (.noted file)) (hhanded : t.handed = s.handed) :
    Late t (replayLine cfg now random tree (.wrote file)) := by
  intro j f hj
  rw [hthreads] at hj
  by_cases hji : j = i
  · subst hji
    rw [Function.update_self] at hj
    cases hj
  · rw [Function.update_of_ne hji] at hj
    have hne : f ≠ file := by
      rintro rfl
      exact hji (hr.one (by rw [hj]; rfl) (by rw [hi]; rfl))
    rw [hhanded, replayLine, Daemon.pendingIn_update, Function.update_of_ne hne]
    exact h j f hj

theorem Late.step (now : ℤ) (random : ℕ → ℕ) (hr : Recovers s (replay cfg now random s.journalCur))
    (h : Late s (replay cfg now random s.journalCur)) (hg : JournalSafe cfg s a)
    (ht : Daemon.step cfg s a = some t) : Late t (replay cfg now random t.journalCur) := by
  cases Step.of_step ht with
  | read => exact h.congr rfl rfl
  | updateMiss => exact h.congr rfl rfl
  | @updateHit c now' file vs ci _ _ hci =>
    have hcur : (enter c .idle (enterValues cfg now' file vs ci s)).journalCur =
        s.journalCur ++ [.update file (number s.nextNo vs)] := if_pos hr.isOpen
    rw [hcur, replay_append]
    exact h.accept hr (hg (by simp [hci])) rfl rfl
  | insertLate _ _ hm => exact absurd (hr.running.symm.trans hm) (by simp)
  | @insert c random' file vs now' hh =>
    have hcur : (proceed c .idle (enterValues cfg now' file vs
        ((s.tree file).getD (newItem cfg now' random'))
        (insertItem file ((s.tree file).getD (newItem cfg now' random')) s))).journalCur =
        s.journalCur ++ [.update file (number s.nextNo vs)] := if_pos hr.isOpen
    rw [hcur, replay_append]
    exact h.accept hr (hg file vs now' hh) rfl rfl
  | @take i now' random' file queue ci =>
    exact h.move (q := .detached file ci.values) (fun _ => QThread.noConfusion) rfl rfl
  | write hi => exact h.write hr hi rfl rfl
  | @wrote i file hi =>
    have hcur : (journalWrite (.wrote file) s).journalCur = s.journalCur ++ [.wrote file] := if_pos hr.isOpen
    rw [show ({ journalWrite (.wrote file) s with
        threads := Function.update s.threads i (.noted file) } : St).journalCur =
        s.journalCur ++ [.wrote file] from hcur, replay_append]
    exact h.wrote hr hi rfl rfl
  | broadcast => exact h.move (q := .idle) (fun _ => QThread.noConfusion) rfl rfl
  | exit => exact h.move (q := .exited) (fun _ => QThread.noConfusion) rfl rfl
  | _ => exact absurd hg (by simp [JournalSafe])

/-- A file in the queue has no batch under way. -/
theorem Recovers.loneTake (h : Recovers s tree) (hs : Sane s) (a : Act) : LoneTake s a := by
  cases a with
  | take i now random =>
    intro f queue hq j vs _ hj
    exact hs.queue_pending f (by simp [hq]) (h.empty (by rw [hj]; rfl))
  | _ => trivial

/-! ## Crashes -/

/-- What holds of the daemon, its files and its journal in every state. -/
structure System.CrashInv (cfg : Cfg) (env : Env) (files₀ : Text → Rrd) (now : ℤ) (random : ℕ → ℕ) (s : System) :
    Prop where
  ordered : s.daemon.pipe.Ordered
  accounted : s.daemon.pipe.Accounted
  numbered : Numbered s.daemon
  sane : Sane s.daemon
  recovers : Recovers s.daemon (replay cfg now random s.daemon.journalCur)
  late : Late s.daemon (replay cfg now random s.daemon.journalCur)
  written : ∀ file, Written env files₀ s file

theorem System.CrashInv.step {files₀ : Text → Rrd} {now : ℤ} {random : ℕ → ℕ} {s t : System} {a : Act × Upd}
    (hs : s.CrashInv cfg env files₀ now random) (hg : JournalSafe cfg s.daemon a.1)
    (h : System.step cfg env s a = some t) : t.CrashInv cfg env files₀ now random := by
  have hstep := (System.step_eq_some.mp h).1
  have hlone := hs.recovers.loneTake hs.sane a.1
  exact ⟨hs.ordered.apply (hlone.alone hstep) (step_pipe hstep), step_accounted hs.accounted hstep,
    step_numbered hs.numbered hstep, step_sane hs.sane hstep, step_recovers now random hs.sane hs.recovers hg hstep,
    hs.late.step now random hs.recovers hg hstep, fun file => (hs.written file).step h⟩

/-- What the replay gives back is what is not handed over yet, or what was handed over last. -/
theorem System.CrashInv.comesBack {files₀ : Text → Rrd} {now : ℤ} {random : ℕ → ℕ} {s : System}
    (hs : s.CrashInv cfg env files₀ now random) (file : Text) :
    s.daemon.accepted file = s.daemon.handed file ++ pendingIn (replay cfg now random s.daemon.journalCur) file ∨
      s.daemon.accepted file = s.daemon.handed file ∧
        ∃ front, s.daemon.handed file = front ++ pendingIn (replay cfg now random s.daemon.journalCur) file := by
  have hnodup : (s.daemon.accepted file).Nodup :=
    (hs.numbered.pairwise file).imp fun {v w} hlt => fun heq => hlt.ne (congrArg Val.no heq)
  have hdrop := hs.recovers.forgotten file
  by_cases hun : Logged s.daemon file
  · left
    rw [hs.recovers.free hun]
    exact (hs.ordered.free_eq hs.accounted (fun i vs hi => hun i (by rw [batch_eq_some.mp hi]; rfl)) hdrop hnodup).symm
  obtain ⟨i, hi⟩ : ∃ i, (s.daemon.threads i).unlogged = some file := by
    rw [Logged, not_forall] at hun
    exact hun.imp fun i hi => not_not.mp hi
  have hempty : s.daemon.pipe.pending file = [] := hs.recovers.empty hi
  cases hq : s.daemon.threads i with
  | detached f vs =>
    rw [hq] at hi
    obtain rfl := Option.some.inj hi
    have heq := hs.ordered.held_eq hs.accounted (batch_eq_some.mpr hq) hdrop hnodup
    rw [hempty, List.append_nil] at heq
    exact .inl (by rw [hs.recovers.batch hq]; exact heq.symm)
  | updated f =>
    have hfree (j : ℕ) (vs : List Val) (hj : s.daemon.pipe.taken j = some (file, vs)) : False := by
      have hj := batch_eq_some.mp hj
      obtain rfl := hs.recovers.one (show (s.daemon.threads j).unlogged = some file by rw [hj]; rfl) hi
      cases hq.symm.trans hj
    rw [hq] at hi
    obtain rfl := Option.some.inj hi
    have heq := hs.ordered.free_eq hs.accounted hfree hdrop hnodup
    rw [hempty, List.append_nil] at heq
    exact .inr ⟨heq.symm, hs.late i f hq⟩
  | idle =>
    rw [hq] at hi
    cases hi
  | noted f =>
    rw [hq] at hi
    cases hi
  | exited =>
    rw [hq] at hi
    cases hi

/-- Two values are written, and the daemon is killed before it can note it. -/
def killedBeforeWrote : List (Act × Upd) :=
  [.read 0 1, .update 0 0 router ["1200:5:6".toList], .insert 0 0, .read 0 1,
    .update 0 300 router ["1500:7:8".toList], .take 0 300 0, .write 0].map fun a => (a, .blank newPair)

end Rrdtool.Daemon
