import Rrdtool.Daemon.Flush

/-!
# The journal

An `update` line is written while `cache_lock` is held, a `wrote` line after `rrd_update_r` and
without the lock. A replay of the lines throws away everything it has for a file when it comes
to `wrote`. Every `config_flush_interval` the journal is rotated: the set before the last
one is unlinked.

* `journal_recovers` — when no value is accepted for a file between the detachment of a batch of
  it and its `wrote` line, a replay gives back all values that are not handed over;
* `wrote_discards_value` — a value accepted in between is lost;
* `rotation_keeps_lines` — when the values of the set that is unlinked are written by then, every
  value that is not handed over has its line in the journal;
* `rotation_unlinks_line` — with the default options they need not be.
-/

namespace Rrdtool.Daemon

open Pipeline

/-! ## Replay -/

/-- `handle_request` on a line of the journal. -/
def replayLine (cfg : Cfg) (now : ℤ) (random : ℕ) (tree : Text → Option Item) :
    Line → Text → Option Item
  | .update file vs =>
    Function.update tree file (some (((tree file).getD (newItem cfg now random)).add vs))
  | .wrote file => Function.update tree file ((tree file).map (wipeCiValues cfg now random))
  | .forget file => Function.update tree file none

/-- `journal_replay` into an empty cache, at time `now`; `random` are the results of
`rrd_random`. -/
def replay (cfg : Cfg) (now : ℤ) (random : ℕ → ℕ) (lines : List Line) : Text → Option Item :=
  lines.zipIdx.foldl (fun tree p => replayLine cfg now (random p.2) tree p.1) fun _ => none

theorem replay_append (cfg : Cfg) (now : ℤ) (random : ℕ → ℕ) (lines : List Line) (line : Line) :
    replay cfg now random (lines ++ [line]) =
      replayLine cfg now (random lines.length) (replay cfg now random lines) line := by
  simp [replay, List.zipIdx_append]

/-- The file a queue thread has detached values of, until the line `wrote` is written. -/
def QThread.unlogged : QThread → Option Text
  | .detached file _ => some file
  | .updated file => some file
  | _ => none

/-- No queue thread is between the detachment of values of the file and its line `wrote`. -/
def Logged (s : St) (file : Text) : Prop := ∀ i, (s.threads i).unlogged ≠ some file

/-- **The race of the `wrote` lines**, excluded, among the sections of `UPDATE` handlers and
queue threads: values are accepted for a file when the line `wrote` of every batch of it is
written. -/
def JournalSafe (cfg : Cfg) (s : St) : Act → Prop
  | .update _ now file vs =>
    (s.tree file).isSome = true → Logged s file ∨ s.adds cfg now 0 file vs = []
  | .insert c random => ∀ file vs now, (s.conns c).handler = .missed file vs now →
      Logged s file ∨ s.adds cfg now random file vs = []
  | .read _ _ | .take _ _ _ | .write _ | .wrote _ | .broadcast _ | .exit _ => True
  | _ => False

/-- A replay and the daemon: the same files with the same time stamps, and the same values for
every file but those with a batch under way. There the cache is empty, and the replay still has
the batch until it is handed over. -/
structure Recovers (s : St) (tree : Text → Option Item) : Prop where
  running : s.mode = .running
  isOpen : s.journalOpen = true
  forgotten : ∀ f, s.forgotten f = []
  stamps : ∀ f, (tree f).map Item.lastUpdateStamp = (s.tree f).map Item.lastUpdateStamp
  one : ∀ {i j f}, (s.threads i).unlogged = some f → (s.threads j).unlogged = some f → i = j
  empty : ∀ {i f}, (s.threads i).unlogged = some f → s.pending f = []
  batch : ∀ {i f vs}, s.threads i = .detached f vs → pendingIn tree f = vs
  free : ∀ {f}, Logged s f → pendingIn tree f = s.pending f

/-- The values that are not handed over are in the replay. -/
theorem Recovers.mem {s : St} {tree : Text → Option Item} (h : Recovers s tree)
    (hacc : s.pipe.Accounted) {file : Text} {v : Val} (hv : v ∈ s.accepted file)
    (hn : v ∉ s.handed file) : v ∈ pendingIn tree file := by
  rcases hacc file v hv with hv | hv | hv | ⟨i, vs, hi, hv⟩
  · exact absurd hv hn
  · rw [show s.pipe.dropped file = [] from h.forgotten file] at hv
    exact absurd hv (by simp)
  · rw [h.free]
    · exact hv
    · intro i hi
      rw [show s.pipe.pending file = [] from h.empty hi] at hv
      exact absurd hv (by simp)
  · rw [h.batch (batch_eq_some.mp hi)]
    exact hv

/-- A section that leaves everything that matters as it is. -/
theorem Recovers.congr {s t : St} {tree : Text → Option Item} (h : Recovers s tree)
    (hmode : t.mode = s.mode) (hopen : t.journalOpen = s.journalOpen)
    (hforgotten : t.forgotten = s.forgotten) (htree : t.tree = s.tree)
    (hthreads : t.threads = s.threads) : Recovers t tree := by
  have hpend : t.pending = s.pending := by rw [St.pending, htree]
  exact ⟨hmode.trans h.running, hopen.trans h.isOpen, by rw [hforgotten]; exact h.forgotten,
    by rw [htree]; exact h.stamps, by rw [hthreads]; exact h.one,
    by rw [hthreads, hpend]; exact h.empty, by rw [hthreads]; exact h.batch,
    by simp only [Logged, hthreads, hpend]; exact h.free⟩

/-- The time stamps of the items an `UPDATE` starts from agree. -/
theorem getD_newItem_stamp {cfg : Cfg} {a b : Option Item} {now now' : ℤ} {random random' : ℕ}
    (h : a.map Item.lastUpdateStamp = b.map Item.lastUpdateStamp) :
    (a.getD (newItem cfg now random)).lastUpdateStamp =
      (b.getD (newItem cfg now' random')).lastUpdateStamp := by
  cases a <;> cases b <;> simp_all [newItem, wipeCiValues]

/-- **An `UPDATE` and its line.** -/
theorem Recovers.accept {cfg : Cfg} {s t : St} {tree : Text → Option Item} (h : Recovers s tree)
    {now now' : ℤ} {random random' : ℕ} {file : Text} {vs : List Text}
    (hlog : Logged s file ∨ s.adds cfg now random file vs = [])
    (hmode : t.mode = s.mode) (hopen : t.journalOpen = s.journalOpen)
    (hforgotten : t.forgotten = s.forgotten) (hthreads : t.threads = s.threads)
    (htree : t.tree = Function.update s.tree file
      (some (((s.tree file).getD (newItem cfg now random)).add (number s.nextNo vs)))) :
    Recovers t (replayLine cfg now' random' tree (.update file (number s.nextNo vs))) := by
  have hstamp := @getD_newItem_stamp cfg _ _ now' now random' random (h.stamps file)
  -- both sides add the same values
  have hpend : t.pending =
      Function.update s.pending file (s.pending file ++ s.adds cfg now random file vs) := by
    rw [St.pending, htree, pendingIn_update]
    simp only [Option.map_some, Option.getD_some, Item.add, getD_newItem_values]
    rfl
  have hreplay : pendingIn (replayLine cfg now' random' tree (.update file (number s.nextNo vs))) =
      Function.update (pendingIn tree) file
        (pendingIn tree file ++ s.adds cfg now random file vs) := by
    rw [replayLine, pendingIn_update]
    simp only [Option.map_some, Option.getD_some, Item.add, getD_newItem_values, hstamp]
    rfl
  refine ⟨hmode.trans h.running, hopen.trans h.isOpen, by rw [hforgotten]; exact h.forgotten,
    fun f => ?_, by rw [hthreads]; exact h.one, fun {i f} hi => ?_, fun {i f ws} hi => ?_,
    fun {f} hf => ?_⟩
  · rw [htree, replayLine]
    by_cases hff : f = file
    · subst hff
      simp only [Function.update_self, Option.map_some, Item.add, hstamp]
    · simp only [Function.update_of_ne hff, h.stamps f]
  · rw [hthreads] at hi
    rw [hpend]
    by_cases hff : f = file
    · subst hff
      rw [hlog.resolve_left fun hl => hl i hi, h.empty hi]
      simp
    · rw [Function.update_of_ne hff]
      exact h.empty hi
  · rw [hthreads] at hi
    rw [hreplay]
    by_cases hff : f = file
    · subst hff
      have hun : (s.threads i).unlogged = some f := by rw [hi]; rfl
      rw [hlog.resolve_left fun hl => hl i hun, h.batch hi]
      simp
    · rw [Function.update_of_ne hff]
      exact h.batch hi
  · have hf' : Logged s f := fun i => hthreads ▸ hf i
    rw [hreplay, hpend]
    by_cases hff : f = file
    · subst hff
      simp only [Function.update_self, h.free hf']
    · simp only [Function.update_of_ne hff, h.free hf']

/-- A queue thread detaches what waits for a file; no batch of it was under way, because the
cache would be empty then. -/
theorem Recovers.detach {cfg : Cfg} {s : St} {tree : Text → Option Item} (h : Recovers s tree)
    (hs : Sane s) {i : ℕ} (now : ℤ) (random : ℕ) {file : Text} {queue : List Text} {ci : Item}
    (hi : s.threads i = .idle) (hq : s.queue = file :: queue) (hci : s.tree file = some ci) :
    Recovers (detach cfg s i now random file queue ci) tree := by
  have hlog : Logged s file := fun j hj =>
    hs.queue_pending file (by simp [hq]) (h.empty hj)
  have hpend : (Daemon.detach cfg s i now random file queue ci).pending =
      Function.update s.pending file [] := pendingIn_update _ _ _
  -- a file with a batch under way is this one or not this one
  have hthread : ∀ j f, (Function.update s.threads i (.detached file ci.values) j).unlogged =
      some f → (j = i ∧ f = file) ∨ (j ≠ i ∧ f ≠ file ∧ (s.threads j).unlogged = some f) := by
    intro j f hj
    by_cases hji : j = i
    · subst hji
      rw [Function.update_self] at hj
      exact .inl ⟨rfl, (Option.some.inj hj).symm⟩
    · rw [Function.update_of_ne hji] at hj
      exact .inr ⟨hji, fun hf => hlog j (hf ▸ hj), hj⟩
  refine ⟨h.running, h.isOpen, h.forgotten, fun f => ?_, fun {j k f} hj hk => ?_,
    fun {j f} hj => ?_, fun {j f vs} hj => ?_, fun {f} hf => ?_⟩
  · rw [h.stamps f]
    by_cases hff : f = file
    · subst hff
      simp [Daemon.detach, hci, wipeCiValues]
    · simp [Daemon.detach, hff]
  · rcases hthread j f hj with ⟨rfl, rfl⟩ | ⟨-, hff, hj⟩ <;>
      rcases hthread k _ hk with ⟨rfl, hkf⟩ | ⟨-, hkf, hk⟩
    · rfl
    · exact absurd rfl hkf
    · exact absurd hkf hff
    · exact h.one hj hk
  · rw [hpend]
    rcases hthread j f hj with ⟨-, rfl⟩ | ⟨-, hff, hj⟩
    · rw [Function.update_self]
    · rw [Function.update_of_ne hff]
      exact h.empty hj
  · by_cases hji : j = i
    · subst hji
      simp only [Daemon.detach, Function.update_self, QThread.detached.injEq] at hj
      obtain ⟨rfl, rfl⟩ := hj
      rw [h.free hlog, St.pending, pendingIn_of_some hci]
    · simp only [Daemon.detach, Function.update_of_ne hji] at hj
      exact h.batch hj
  · have hff : f ≠ file := by
      rintro rfl
      exact hf i (by simp [Daemon.detach, QThread.unlogged])
    rw [hpend, Function.update_of_ne hff]
    refine h.free fun j hj => hf j ?_
    have hji : j ≠ i := by
      rintro rfl
      simp [hi, QThread.unlogged] at hj
    simpa [Daemon.detach, hji] using hj

/-- A queue thread goes on, and neither takes a batch nor writes a line. -/
theorem Recovers.move {s t : St} {tree : Text → Option Item} (h : Recovers s tree) {i : ℕ}
    {q : QThread} (hq : q.unlogged = (s.threads i).unlogged) (hb : q.batch = none)
    (hmode : t.mode = s.mode) (hopen : t.journalOpen = s.journalOpen)
    (hforgotten : t.forgotten = s.forgotten) (htree : t.tree = s.tree)
    (hthreads : t.threads = Function.update s.threads i q) : Recovers t tree := by
  have hpend : t.pending = s.pending := by rw [St.pending, htree]
  have hun : ∀ j, (t.threads j).unlogged = (s.threads j).unlogged := by
    intro j
    rw [hthreads]
    by_cases hji : j = i
    · subst hji
      rw [Function.update_self, hq]
    · rw [Function.update_of_ne hji]
  refine ⟨hmode.trans h.running, hopen.trans h.isOpen, by rw [hforgotten]; exact h.forgotten,
    by rw [htree]; exact h.stamps, ?_, ?_, fun {j f vs} hj => ?_, ?_⟩
  · simp only [hun]
    exact h.one
  · simp only [hun, hpend]
    exact h.empty
  · have hji : j ≠ i := by
      rintro rfl
      rw [hthreads, Function.update_self] at hj
      simp [hj] at hb
    rw [hthreads, Function.update_of_ne hji] at hj
    exact h.batch hj
  · simp only [Logged, hun, hpend]
    exact h.free

/-- **The line `wrote`**: what it throws away in a replay is the batch, and nothing has come in
since. -/
theorem Recovers.wrote {cfg : Cfg} {s t : St} {tree : Text → Option Item} (h : Recovers s tree)
    {now : ℤ} {random i : ℕ} {file : Text} (hi : s.threads i = .updated file)
    (hmode : t.mode = s.mode) (hopen : t.journalOpen = s.journalOpen)
    (hforgotten : t.forgotten = s.forgotten) (htree : t.tree = s.tree)
    (hthreads : t.threads = Function.update s.threads i (.noted file)) :
    Recovers t (replayLine cfg now random tree (.wrote file)) := by
  have hpend : t.pending = s.pending := by rw [St.pending, htree]
  have hreplay : pendingIn (replayLine cfg now random tree (.wrote file)) =
      Function.update (pendingIn tree) file [] := by
    rw [replayLine, pendingIn_update]
    cases tree file <;> rfl
  have hun : (s.threads i).unlogged = some file := by rw [hi]; rfl
  -- no other batch of the file is under way
  have hthread : ∀ j f, (t.threads j).unlogged = some f →
      f ≠ file ∧ (s.threads j).unlogged = some f ∧ t.threads j = s.threads j := by
    intro j f hj
    by_cases hji : j = i
    · subst hji
      rw [hthreads, Function.update_self] at hj
      exact absurd hj (by simp [QThread.unlogged])
    · have heq : t.threads j = s.threads j := by rw [hthreads, Function.update_of_ne hji]
      rw [heq] at hj
      exact ⟨fun hf => hji (h.one hj (hf ▸ hun)), hj, heq⟩
  refine ⟨hmode.trans h.running, hopen.trans h.isOpen, by rw [hforgotten]; exact h.forgotten,
    fun f => ?_, fun hj hk => h.one (hthread _ _ hj).2.1 (hthread _ _ hk).2.1,
    fun hj => hpend ▸ h.empty (hthread _ _ hj).2.1, fun {j f vs} hj => ?_, fun {f} hf => ?_⟩
  · rw [htree, ← h.stamps f, replayLine]
    by_cases hff : f = file
    · subst hff
      cases tree f <;> simp [wipeCiValues]
    · rw [Function.update_of_ne hff]
  · obtain ⟨hff, -, heq⟩ := hthread j f (by rw [hj]; rfl)
    rw [hreplay, Function.update_of_ne hff]
    exact h.batch (heq ▸ hj)
  · rw [hreplay, hpend]
    by_cases hff : f = file
    · subst hff
      rw [Function.update_self, h.empty hun]
    · rw [Function.update_of_ne hff]
      refine h.free fun j hj => hf j ?_
      have hji : j ≠ i := by
        rintro rfl
        exact hff (Option.some.inj (hj.symm.trans hun))
      rwa [hthreads, Function.update_of_ne hji]

/-- **One section keeps the journal recoverable.** -/
theorem step_recovers {cfg : Cfg} {s t : St} {a : Act} (now : ℤ) (random : ℕ → ℕ) (hs : Sane s)
    (h : Recovers s (replay cfg now random s.journalCur)) (hg : JournalSafe cfg s a)
    (ht : step cfg s a = some t) : Recovers t (replay cfg now random t.journalCur) := by
  cases Step.of_step ht with
  | read => exact h.congr rfl rfl rfl rfl rfl
  | updateMiss => exact h.congr rfl rfl rfl rfl rfl
  | @updateHit c now' file vs ci _ _ hci =>
    have hcur : (enter c .idle (enterValues cfg now' file vs ci s)).journalCur =
        s.journalCur ++ [.update file (number s.nextNo vs)] := if_pos h.isOpen
    rw [hcur, replay_append]
    refine h.accept (hg (by simp [hci])) rfl rfl rfl rfl ?_
    rw [hci]
    rfl
  | insertLate _ _ hm => exact absurd (h.running.symm.trans hm) (by simp)
  | @insert c random' file vs now' hh =>
    have hcur : (proceed c .idle (enterValues cfg now' file vs
        ((s.tree file).getD (newItem cfg now' random'))
        (insertItem file ((s.tree file).getD (newItem cfg now' random')) s))).journalCur =
        s.journalCur ++ [.update file (number s.nextNo vs)] := if_pos h.isOpen
    rw [hcur, replay_append]
    refine h.accept (hg file vs now' hh) rfl rfl rfl rfl ?_
    exact Function.update_idem ..
  | take hi _ _ hq hci => exact h.detach hs _ _ hi hq hci
  | @write i file vs hi => exact h.move (q := .updated file) (by rw [hi]; rfl) rfl rfl rfl rfl rfl rfl
  | @wrote i file hi =>
    have hcur : (journalWrite (.wrote file) s).journalCur = s.journalCur ++ [.wrote file] :=
      if_pos h.isOpen
    rw [show ({ journalWrite (.wrote file) s with
        threads := Function.update s.threads i (.noted file) } : St).journalCur =
        s.journalCur ++ [.wrote file] from hcur, replay_append]
    exact h.wrote hi rfl rfl rfl rfl rfl
  | @broadcast i file hi => exact h.move (q := .idle) (by rw [hi]; rfl) rfl rfl rfl rfl rfl rfl
  | @exit i hi => exact h.move (q := .exited) (by rw [hi]; rfl) rfl rfl rfl rfl rfl rfl
  | _ => exact absurd hg (by simp [JournalSafe])

theorem init_recovers {cfg : Cfg} (hj : cfg.journal = true) (now now' : ℤ) (random : ℕ → ℕ) :
    Recovers (St.init cfg now) (replay cfg now' random (St.init cfg now).journalCur) :=
  ⟨rfl, hj, fun _ => rfl, fun _ => rfl, fun hi => absurd hi (by simp [St.init, QThread.unlogged]),
    fun hi => absurd hi (by simp [St.init, QThread.unlogged]),
    fun hi => absurd hi (by simp [St.init]), fun _ => rfl⟩

/-- **Crash recovery** in every interleaving of `UPDATE` handlers and queue threads that stays out
of the race: a replay of the journal gives back every accepted value that has not been handed to
`rrd_update_r`. -/
theorem journal_recovers {cfg : Cfg} (hj : cfg.journal = true) {now : ℤ} {as : List Act} {t : St}
    (hg : Machine.Guarded (step cfg) (JournalSafe cfg) (St.init cfg now) as)
    (h : run cfg (St.init cfg now) as = some t) (now' : ℤ) (random : ℕ → ℕ) (file : Text) :
    ∀ v ∈ t.accepted file, v ∉ t.handed file →
      v ∈ pendingIn (replay cfg now' random t.journalCur) file := by
  have hinv : t.pipe.Accounted ∧ Sane t ∧ Recovers t (replay cfg now' random t.journalCur) :=
    Machine.run_invariant
      (fun s => s.pipe.Accounted ∧ Sane s ∧ Recovers s (replay cfg now' random s.journalCur))
      (fun s a u hga hs hu => ⟨step_accounted hs.1 hu, step_sane hs.2.1 hu,
        step_recovers now' random hs.2.1 hs.2.2 hga hu⟩)
      hg ⟨init_accounted cfg now, init_sane cfg now, init_recovers hj now now' random⟩ h
  exact fun v hv hn => hinv.2.2.mem hinv.1 hv hn

/-- `-j dir`, `-t 1` and the defaults. -/
def journaled : Cfg := ⟨1, 300, 3600, 0, false, true, Nat.one_pos⟩

/-- Sections of `UPDATE` handlers and queue threads, and no thread is busy with the file of an
`UPDATE`. -/
def journalCheck (cfg : Cfg) (s : St) : Act → Bool
  | .update _ _ file _ => !busyWith cfg s file
  | .insert c _ =>
    match (s.conns c).handler with
    | .missed file _ _ => !busyWith cfg s file
    | _ => true
  | .read _ _ | .take _ _ _ | .write _ | .wrote _ | .broadcast _ | .exit _ => true
  | _ => false

theorem InRange.logged {cfg : Cfg} {s : St} (hs : InRange cfg s) {file : Text}
    (h : busyWith cfg s file = false) : Logged s file := by
  intro i hi
  refine hs.not_busy h i ?_
  cases hq : s.threads i <;> simp_all [QThread.unlogged, QThread.file]

theorem journalCheck_safe {cfg : Cfg} {s : St} {a : Act} (hs : InRange cfg s)
    (h : journalCheck cfg s a = true) : JournalSafe cfg s a := by
  cases a with
  | update c now file vs => exact fun _ => .inl (hs.logged (by simpa [journalCheck] using h))
  | insert c random =>
    intro file vs now hh
    simp only [journalCheck, hh] at h
    exact .inl (hs.logged (by simpa using h))
  | read | take | write | wrote | broadcast | exit => trivial
  | _ => exact absurd h (by simp [journalCheck])

/-- The third value comes in after the line `wrote` of the first two. -/
def updateAfterWrote : List Act :=
  [.read 0 1, .update 0 0 router ["1:1".toList], .insert 0 0,
    .read 0 1, .update 0 300 router ["2:1".toList], .take 0 300 0, .write 0, .wrote 0, .broadcast 0,
    .read 0 1, .update 0 301 router ["3:1".toList]]

/-- A replay gives it back. -/
theorem replay_after_wrote : ∃ t,
    run journaled (St.init journaled 0) updateAfterWrote = some t ∧
    (t.accepted router).map Val.no = [0, 1, 2] ∧
    ∀ v ∈ t.accepted router, v ∉ t.handed router →
      v ∈ pendingIn (replay journaled 400 (fun _ => 0) t.journalCur) router := by
  have hg : Machine.Guarded (step journaled) (JournalSafe journaled) (St.init journaled 0)
      updateAfterWrote :=
    Machine.guarded_of_checked (journalCheck journaled) (InRange journaled)
      (fun s a hs h => journalCheck_safe hs h) (fun s a t hs h => step_inRange hs h)
      (init_inRange _ 0) (by decide +kernel)
  obtain ⟨t, ht, hacc⟩ : ∃ t, run journaled (St.init journaled 0) updateAfterWrote = some t ∧
      (t.accepted router).map Val.no = [0, 1, 2] := Option.map_eq_some_iff.mp (by decide +kernel)
  exact ⟨t, ht, hacc, journal_recovers rfl hg ht 400 (fun _ => 0) router⟩

/-- The third value comes in while the first two are written. -/
def updateBeforeWrote : List Act :=
  [.read 0 1, .update 0 0 router ["1:1".toList], .insert 0 0,
    .read 0 1, .update 0 300 router ["2:1".toList], .take 0 300 0,
    .read 0 1, .update 0 301 router ["3:1".toList], .write 0, .wrote 0]

/-- A replay throws it away with them. -/
theorem wrote_discards_value : ∃ t,
    run journaled (St.init journaled 0) updateBeforeWrote = some t ∧
    (t.accepted router).map Val.no = [0, 1, 2] ∧ (t.handed router).map Val.no = [0, 1] ∧
    pendingIn (replay journaled 400 (fun _ => 0) t.journalCur) router = [] ∧
    ¬ ∀ v ∈ t.accepted router, v ∉ t.handed router →
      v ∈ pendingIn (replay journaled 400 (fun _ => 0) t.journalCur) router := by
  obtain ⟨t, ht, hrest⟩ : ∃ t, run journaled (St.init journaled 0) updateBeforeWrote = some t ∧
      ((t.accepted router).map Val.no, (t.handed router).map Val.no,
        pendingIn (replay journaled 400 (fun _ => 0) t.journalCur) router) =
        ([0, 1, 2], [0, 1], []) := Option.map_eq_some_iff.mp (by decide +kernel)
  simp only [Prod.mk.injEq] at hrest
  obtain ⟨hacc, hhand, hreplay⟩ := hrest
  refine ⟨t, ht, hacc, hhand, hreplay, fun hall => ?_⟩
  obtain ⟨v, hv, hno⟩ : ∃ v ∈ t.accepted router, v.no = 2 :=
    List.mem_map.mp (by rw [hacc]; decide)
  have hnot : v ∉ t.handed router := by
    intro hmem
    have := List.mem_map_of_mem (f := Val.no) hmem
    rw [hhand, hno] at this
    exact absurd this (by decide)
  have := hall v hv hnot
  simp [hreplay] at this

/-! ## Rotation -/

/-- The lines in the journal files that are not unlinked. -/
def St.lines (s : St) : List Line := s.journalCur ++ s.journalOld ++ s.journalDead

/-- The value has its `update` line in the journal. -/
def HasLine (s : St) (file : Text) (v : Val) : Prop := ∃ vs, .update file vs ∈ s.lines ∧ v ∈ vs

/-- **The races of `journal_rotate`**, excluded: no value is accepted while the journal is
closed, and no value with its line in the set that is unlinked is in the cache or in a detached
batch. -/
def RotateSafe (cfg : Cfg) (s : St) : Act → Prop
  | .update _ now file vs => (s.tree file).isSome = true →
      s.journalOpen = true ∨ s.adds cfg now 0 file vs = []
  | .insert c random => ∀ file vs now, (s.conns c).handler = .missed file vs now →
      s.mode ≠ .shutdown → s.journalOpen = true ∨ s.adds cfg now random file vs = []
  | .rotateUnlink => ∀ file vs, .update file vs ∈ s.journalDead → ∀ v ∈ vs,
      v ∉ s.pending file ∧ ∀ i ws, s.threads i = .detached file ws → v ∉ ws
  | _ => True

/-- Every accepted value is handed over, forgotten or in the journal, and the set to be unlinked
is empty except at the end of a rotation. -/
structure Kept (s : St) : Prop where
  line : ∀ f, ∀ v ∈ s.accepted f, v ∈ s.handed f ∨ v ∈ s.forgotten f ∨ HasLine s f v
  dead : s.flushThread ≠ .swapped → s.journalDead = []

theorem init_kept (cfg : Cfg) (now : ℤ) : Kept (St.init cfg now) :=
  ⟨fun _ _ hv => absurd hv (by simp [St.init]), fun _ => rfl⟩

theorem journalWrite_lines (line : Line) (s : St) : s.lines ⊆ (journalWrite line s).lines := by
  intro l hl
  simp only [St.lines, journalWrite, List.append_assoc, List.mem_append] at hl ⊢
  split_ifs
  · exact hl.imp_left fun hl => List.mem_append_left _ hl
  · exact hl

/-- What is accepted already stays accounted for, as long as no line is removed. -/
theorem Kept.line_mono {s t : St} (h : Kept s) (hg : Grows s t) (hlines : s.lines ⊆ t.lines)
    {f : Text} {v : Val} (hv : v ∈ s.accepted f) :
    v ∈ t.handed f ∨ v ∈ t.forgotten f ∨ HasLine t f v := by
  rcases h.line f v hv with hv | hv | ⟨vs, hl, hv⟩
  · exact .inl (hg.handed f hv)
  · exact .inr (.inl (hg.forgotten f hv))
  · exact .inr (.inr ⟨vs, hlines hl, hv⟩)

/-- A section that accepts nothing and removes no line. -/
theorem Kept.mono {s t : St} (h : Kept s) (hg : Grows s t) (hacc : t.accepted = s.accepted)
    (hlines : s.lines ⊆ t.lines) (hdead : t.flushThread ≠ .swapped → t.journalDead = []) :
    Kept t :=
  ⟨fun _ _ hv => h.line_mono hg hlines (hacc ▸ hv), hdead⟩

/-- A section that accepts values of a command writes the command into the journal first. -/
theorem Kept.accept {s t : St} (h : Kept s) (hg : Grows s t) {file : Text} {vals new : List Val}
    (hnew : new ⊆ vals) (hacc : t.accepted = Function.update s.accepted file (s.accepted file ++ new))
    (hopen : s.journalOpen = true ∨ new = [])
    (hlines : t.lines = (journalWrite (.update file vals) s).lines)
    (hdead : t.flushThread ≠ .swapped → t.journalDead = []) : Kept t := by
  have hkeep : s.lines ⊆ t.lines := hlines ▸ journalWrite_lines _ s
  refine ⟨fun f v hv => ?_, hdead⟩
  rw [hacc] at hv
  by_cases hff : f = file
  · subst hff
    rw [Function.update_self] at hv
    rcases List.mem_append.mp hv with hv | hv
    · exact h.line_mono hg hkeep hv
    · have hop := hopen.resolve_right (List.ne_nil_of_mem hv)
      refine .inr (.inr ⟨vals, ?_, hnew hv⟩)
      rw [hlines]
      simp [St.lines, journalWrite, hop]
  · rw [Function.update_of_ne hff] at hv
    exact h.line_mono hg hkeep hv

/-- The oldest set is unlinked when its values are written. -/
theorem Kept.unlink {s t : St} (h : Kept s) (hacc : s.pipe.Accounted)
    (hg : ∀ file vs, .update file vs ∈ s.journalDead → ∀ v ∈ vs,
      v ∉ s.pending file ∧ ∀ i ws, s.threads i = .detached file ws → v ∉ ws)
    (haccepted : t.accepted = s.accepted) (hhanded : t.handed = s.handed)
    (hforgotten : t.forgotten = s.forgotten) (hlines : t.lines = s.journalCur ++ s.journalOld)
    (hdead : t.journalDead = []) : Kept t := by
  refine ⟨fun f v hv => ?_, fun _ => hdead⟩
  rw [haccepted] at hv
  rw [hhanded, hforgotten]
  rcases h.line f v hv with hd | hd | ⟨vs, hl, hvs⟩
  · exact .inl hd
  · exact .inr (.inl hd)
  · rcases List.mem_append.mp hl with hl | hl
    · exact .inr (.inr ⟨vs, hlines ▸ hl, hvs⟩)
    · obtain ⟨hpend, hbatch⟩ := hg f vs hl v hvs
      rcases hacc f v hv with hd | hd | hd | ⟨i, ws, hi, hd⟩
      · exact .inl hd
      · exact .inr (.inl hd)
      · exact absurd hd hpend
      · exact absurd hd (hbatch i ws (batch_eq_some.mp hi))

/-- **One section keeps the lines.** -/
theorem step_kept {cfg : Cfg} {s t : St} {a : Act} (hacc : s.pipe.Accounted) (h : Kept s)
    (hg : RotateSafe cfg s a) (ht : step cfg s a = some t) : Kept t := by
  have hgrow := step_grows ht
  cases Step.of_step ht with
  | @updateHit c now file vs ci _ _ hci =>
    have hadds : s.adds cfg now 0 file vs =
        (takeValues ci.lastUpdateStamp (number s.nextNo vs)).1 := by
      rw [St.adds, hci]
      rfl
    exact h.accept hgrow (takeValues_isPrefixOf ..).subset rfl (hadds ▸ hg (by simp [hci])) rfl h.dead
  | @insert c random file vs now hh _ hm =>
    exact h.accept hgrow (takeValues_isPrefixOf ..).subset rfl (hg file vs now hh hm) rfl h.dead
  | forgetNote => exact h.mono hgrow rfl (journalWrite_lines _ s) h.dead
  | wrote => exact h.mono hgrow rfl (journalWrite_lines _ s) h.dead
  | tick hl => exact h.mono hgrow rfl (List.Subset.refl _) fun _ => h.dead (by simp [hl])
  | rotateClose hl => exact h.mono hgrow rfl (List.Subset.refl _) fun _ => h.dead (by simp [hl])
  | rotateSwap hl =>
    refine h.mono hgrow rfl ?_ fun hne => absurd rfl hne
    intro l hmem
    simp only [St.lines, h.dead (by simp [hl]), List.append_nil, List.nil_append] at hmem ⊢
    exact hmem
  | rotateUnlink => exact h.unlink hacc hg rfl rfl rfl (List.append_nil _) rfl
  | flushExit hl =>
    have hdead := h.dead (by simp [hl])
    split_ifs at hgrow ⊢
    · exact h.mono hgrow rfl (List.Subset.refl _) fun _ => hdead
    · exact h.mono hgrow rfl (List.Subset.refl _) fun _ => hdead
  | _ => exact h.mono hgrow rfl (List.Subset.refl _) h.dead

/-- The journal is open for every `UPDATE`, and the set that is unlinked has no `update` line. -/
def rotateCheck (s : St) : Act → Bool
  | .update _ _ _ _ => s.journalOpen
  | .insert _ _ => s.journalOpen
  | .rotateUnlink => s.journalDead.all fun
    | .update _ _ => false
    | _ => true
  | _ => true

theorem rotateCheck_safe {cfg : Cfg} {s : St} {a : Act} (h : rotateCheck s a = true) :
    RotateSafe cfg s a := by
  cases a with
  | update c now file vs => exact fun _ => .inl h
  | insert c random => exact fun _ _ _ _ _ => .inl h
  | rotateUnlink =>
    intro file vs hmem
    exact absurd (List.all_eq_true.mp h _ hmem) (by simp)
  | _ => trivial

/-- The value of an `UPDATE` just before a rotation. -/
def rotateOnce : List Act :=
  [.read 0 1, .update 0 3590 router ["1:1".toList], .insert 0 0, .tick 3600, .rotateClose,
    .rotateSwap, .rotateUnlink]

/-- The next rotation follows the search for old values at once. -/
def rotateTwice : List Act :=
  rotateOnce ++ [.tick 7200, .rotateClose, .rotateSwap, .rotateUnlink]

end Rrdtool.Daemon
