import Rrdtool.Daemon.Flow

/-!
# Shutdown

After a signal the flush thread walks the tree once and puts everything into the queue, and a
queue thread ends when it finds the queue empty in state `SHUTDOWN`. A connection thread goes on
with the commands it has read. An `UPDATE` whose file is in the tree does not look at `state`.

* `shutdown_writes_all` — when what comes in after the walk is in the queue and a queue thread is
  still there, the threads end with every value handed to `rrd_update_r`;
* `update_after_walk` — a value that comes in after the walk can stay behind.
-/

namespace Rrdtool.Daemon

open Pipeline

/-- What an `UPDATE` with the item `ci` adds will be written: it adds nothing, or a queue thread
has not ended and the file is in the queue or put there. -/
def TakenUp (cfg : Cfg) (s : St) (now : ℤ) (file : Text) (vs : List Text) (ci : Item) : Prop :=
  (takeValues ci.lastUpdateStamp (number s.nextNo vs)).1 = [] ∨
    (∃ i < cfg.queueThreads, s.threads i ≠ .exited) ∧
      (file ∈ s.queue ∨
        (takeValues ci.lastUpdateStamp (number s.nextNo vs)).2.2 = true ∧
          cfg.writeInterval ≤ now - ci.lastFlushTime)

/-- **The race of the shutdown**, excluded: what comes in after the walk of the flush thread is
taken up. -/
def ShutdownSafe (cfg : Cfg) (s : St) : Act → Prop
  | .update _ now file vs => ∀ ci, s.tree file = some ci → s.flushThread = .done →
      TakenUp cfg s now file vs ci
  | .insert c random => ∀ file vs now, (s.conns c).handler = .missed file vs now →
      s.mode ≠ .shutdown → s.flushThread = .done →
      TakenUp cfg s now file vs ((s.tree file).getD (newItem cfg now random))
  | _ => True

/-- After the walk every value that waits is in the queue, and when all queue threads have ended
none waits. -/
structure Draining (cfg : Cfg) (s : St) : Prop where
  mode : s.mode = .shutdown → s.flushThread = .done
  queued : s.flushThread = .done → ∀ f, s.pending f ≠ [] → f ∈ s.queue
  exited : (∀ i < cfg.queueThreads, s.threads i = .exited) →
    s.flushThread = .done ∧ ∀ f, s.pending f = []

theorem init_draining (cfg : Cfg) (now : ℤ) : Draining cfg (St.init cfg now) :=
  ⟨fun h => absurd h (by simp [St.init]), fun h => absurd h (by simp [St.init]),
    fun h => absurd (h 0 cfg.queueThreads_pos) (by simp [St.init])⟩

/-- A section that accepts no value and takes no file with values out of the queue. -/
theorem Draining.mono {cfg : Cfg} {s t : St} (h : Draining cfg s)
    (hmode : t.mode = .shutdown → s.mode = .shutdown)
    (hdone : t.flushThread = .done ↔ s.flushThread = .done)
    (hpend : ∀ f, t.pending f ≠ [] → s.pending f ≠ [])
    (hqueue : ∀ f, t.pending f ≠ [] → f ∈ s.queue → f ∈ t.queue)
    (hthreads : ∀ i, t.threads i = .exited → s.threads i = .exited) : Draining cfg t := by
  refine ⟨fun hm => hdone.mpr (h.mode (hmode hm)), fun hd f hf => ?_, fun hall => ?_⟩
  · exact hqueue f hf (h.queued (hdone.mp hd) f (hpend f hf))
  · obtain ⟨hd, hnone⟩ := h.exited fun i hi => hthreads i (hall i hi)
    exact ⟨hdone.mpr hd, fun f => not_not.mp fun hf => hpend f hf (hnone f)⟩

/-- A section that does not touch the tree or the queue. -/
theorem Draining.congr {cfg : Cfg} {s t : St} (h : Draining cfg s)
    (hmode : t.mode = .shutdown → s.mode = .shutdown)
    (hdone : t.flushThread = .done ↔ s.flushThread = .done) (htree : t.tree = s.tree)
    (hqueue : t.queue = s.queue) (hthreads : ∀ i, t.threads i = .exited → s.threads i = .exited) :
    Draining cfg t := by
  refine h.mono hmode hdone (fun f hf => ?_) (fun f _ hmem => hqueue ▸ hmem) hthreads
  rwa [St.pending, htree] at hf

/-- **An `UPDATE`** that is taken up. -/
theorem Draining.accept {cfg : Cfg} {s t : St} (h : Draining cfg s) {now : ℤ} {file : Text}
    {vs : List Text} {ci : Item} (hci : ci.values = s.pending file)
    (hg : s.flushThread = .done → TakenUp cfg s now file vs ci)
    (hmode : t.mode = s.mode) (hdone : t.flushThread = s.flushThread)
    (hthreads : t.threads = s.threads)
    (hpend : t.pending = Function.update s.pending file (ci.add (number s.nextNo vs)).values)
    (hqueue : t.queue = (enterValues cfg now file vs ci s).queue) : Draining cfg t := by
  have hvalues : (ci.add (number s.nextNo vs)).values =
      s.pending file ++ (takeValues ci.lastUpdateStamp (number s.nextNo vs)).1 := by
    rw [← hci]
    rfl
  have hkeep : s.queue ⊆ t.queue := by
    rw [hqueue, enterValues_queue]
    split_ifs
    · exact List.subset_append_left _ _
    · exact List.Subset.refl _
  refine ⟨fun hm => hdone.trans (h.mode (hmode ▸ hm)), fun hd f hf => ?_, fun hall => ?_⟩
  · rw [hdone] at hd
    by_cases hff : f = file
    · subst hff
      rw [hpend, Function.update_self] at hf
      rcases hg hd with hnone | ⟨-, hmem | ⟨hok, hold⟩⟩
      · rw [hvalues, hnone, List.append_nil] at hf
        exact hkeep (h.queued hd f hf)
      · exact hkeep hmem
      · by_cases hmem : f ∈ s.queue
        · exact hkeep hmem
        · rw [hqueue, enterValues_queue, if_pos ⟨hok, hold, hmem, hf⟩]
          simp
    · rw [hpend, Function.update_of_ne hff] at hf
      exact hkeep (h.queued hd f hf)
  · rw [hthreads] at hall
    obtain ⟨hd, hnone⟩ := h.exited hall
    refine ⟨hdone.trans hd, fun f => ?_⟩
    rw [hpend]
    by_cases hff : f = file
    · subst hff
      rcases hg hd with hadds | ⟨⟨i, hi, hne⟩, -⟩
      · rw [Function.update_self, hvalues, hadds, hnone f]
        rfl
      · exact absurd (hall i hi) hne
    · rw [Function.update_of_ne hff]
      exact hnone f

/-- The walk of the flush thread leaves nothing outside of the queue. -/
theorem flushOldValues_queued {cfg : Cfg} {s : St} (hs : Sane s) (hm : s.mode ≠ .running)
    (now maxAge : ℤ) {f : Text} (hf : s.pending f ≠ []) :
    f ∈ (flushOldValues cfg now maxAge s).queue := by
  by_cases hq : f ∈ s.queue
  · exact List.mem_append_left _ hq
  refine List.mem_append_right _ (List.mem_filter.mpr ?_)
  cases htree : s.tree f with
  | none => exact absurd (pendingIn_of_none htree) hf
  | some ci =>
    have hv : ci.values ≠ [] := by rwa [St.pending, pendingIn_of_some htree] at hf
    exact ⟨(hs.mem_keys f).mpr (by rw [htree]; rfl), by simp [flushes, htree, hq, hv, hm]⟩

/-- A thread that is given a state which is not the end. -/
theorem update_exited {threads : ℕ → QThread} {i j : ℕ} {q : QThread} (hq : q ≠ .exited)
    (h : Function.update threads i q j = .exited) : threads j = .exited := by
  by_cases hji : j = i
  · subst hji
    rw [Function.update_self] at h
    exact absurd h hq
  · rwa [Function.update_of_ne hji] at h

/-- The files with values after those of one file are gone. -/
theorem update_nil_ne {pending : Text → List Val} {file f : Text}
    (h : Function.update pending file [] f ≠ []) : f ≠ file ∧ pending f ≠ [] := by
  have hff : f ≠ file := by
    rintro rfl
    exact h (Function.update_self ..)
  exact ⟨hff, by rwa [Function.update_of_ne hff] at h⟩

/-- **One section keeps the queue complete.** -/
theorem step_draining {cfg : Cfg} (hflush : cfg.flushAtShutdown = true) {s t : St} {a : Act}
    (hs : Sane s) (h : Draining cfg s) (hg : ShutdownSafe cfg s a) (ht : step cfg s a = some t) :
    Draining cfg t := by
  cases Step.of_step ht with
  | @updateHit c now file vs ci _ _ hci =>
    exact h.accept (pendingIn_of_some hci).symm (hg ci hci) rfl rfl rfl (pendingIn_update ..) rfl
  | @insertLate c random file vs now =>
    have hpend : (insertItem file ((s.tree file).getD (newItem cfg now random)) s).pending =
        s.pending := congrArg Pipe.pending (insertItem_pipe (getD_newItem_values ..))
    exact h.mono id .rfl (fun f hf => congrFun hpend f ▸ hf) (fun _ _ hf => hf) fun _ hi => hi
  | @insert c random file vs now hh _ hm =>
    have hci := getD_newItem_values cfg s.tree file now random
    refine h.accept hci (hg file vs now hh hm) rfl rfl rfl ?_ rfl
    simp only [St.pending, proceed, enterValues, journalWrite, insertItem, Function.update_idem]
    exact pendingIn_update ..
  | @forget c file ci =>
    have hpend : (forgetItem s c file ci).pending = Function.update s.pending file [] :=
      pendingIn_update ..
    refine h.mono id .rfl (fun f hf => (update_nil_ne (hpend ▸ hf)).2) (fun f hf hmem => ?_)
      fun _ hi => hi
    exact (List.mem_erase_of_ne (update_nil_ne (hpend ▸ hf)).1).mpr hmem
  | @flushWait c file ci =>
    refine h.mono id .rfl (fun _ hf => hf) (fun f _ hmem => ?_) fun _ hi => hi
    simp only [enqueueHead]
    split_ifs
    · exact hmem
    · by_cases hff : f = file
      · exact hff ▸ List.mem_cons_self
      · exact List.mem_cons_of_mem _ ((List.mem_erase_of_ne hff).mpr hmem)
  | @flushall c now =>
    have hpend := @flushOldValues_pending cfg s now (-1)
    exact h.mono id .rfl (fun f hf => congrFun hpend f ▸ hf)
      (fun f _ hmem => List.mem_append_left _ hmem) fun _ hi => hi
  | @tick now hl =>
    have hpend := @flushOldValues_pending cfg s now cfg.writeInterval
    refine h.mono id ?_ (fun f hf => congrFun hpend f ▸ hf)
      (fun f _ hmem => List.mem_append_left _ hmem) fun _ hi => hi
    simp only [hl]
    split_ifs <;> simp
  | rotateClose hl => exact h.congr id (by simp [hl]) rfl rfl fun _ hi => hi
  | rotateSwap hl => exact h.congr id (by simp [hl]) rfl rfl fun _ hi => hi
  | rotateUnlink hl => exact h.congr id (by simp [hl]) rfl rfl fun _ hi => hi
  | signal => exact h.congr (by simp) .rfl rfl rfl fun _ hi => hi
  | @flushExit now hl hm =>
    rw [if_pos hflush]
    have hpend := @flushOldValues_pending cfg s now (-1)
    refine ⟨fun _ => rfl, fun _ f hf => ?_, fun hall => ?_⟩
    · exact flushOldValues_queued hs hm now (-1) (congrFun hpend f ▸ hf)
    · -- no thread has ended before
      exact absurd (h.exited hall).1 (by simp [hl])
  | @take i now random file queue ci hi _ _ hq hci =>
    have hpend : (detach cfg s i now random file queue ci).pending =
        Function.update s.pending file [] := pendingIn_update ..
    refine h.mono id .rfl (fun f hf => (update_nil_ne (hpend ▸ hf)).2) (fun f hf hmem => ?_)
      fun _ hi => update_exited (by simp) hi
    rw [hq] at hmem
    exact List.mem_of_ne_of_mem (update_nil_ne (hpend ▸ hf)).1 hmem
  | write => exact h.congr id .rfl rfl rfl fun _ hi => update_exited (by simp) hi
  | wrote => exact h.congr id .rfl rfl rfl fun _ hi => update_exited (by simp) hi
  | broadcast => exact h.congr id .rfl rfl rfl fun _ hi => update_exited (by simp) hi
  | exit _ hm hq =>
    have hdone := h.mode hm
    -- the queue is empty, so nothing waits
    have hempty : s.queue = [] := hq.resolve_right (by simp [hflush])
    refine ⟨fun _ => hdone, h.queued, fun _ => ⟨hdone, fun f => not_not.mp fun hf => ?_⟩⟩
    have := h.queued hdone f hf
    simp [hempty] at this
  | _ => exact h.congr id .rfl rfl rfl fun _ hi => hi

/-- **A clean shutdown loses nothing** in every interleaving that stays out of the race: when the
queue threads have ended, every accepted value has been handed to `rrd_update_r` or was
forgotten. -/
theorem shutdown_writes_all {cfg : Cfg} (hflush : cfg.flushAtShutdown = true) {now : ℤ}
    {as : List Act} {t : St}
    (hg : Machine.Guarded (step cfg) (ShutdownSafe cfg) (St.init cfg now) as)
    (h : run cfg (St.init cfg now) as = some t)
    (hexit : ∀ i < cfg.queueThreads, t.threads i = .exited) (file : Text) :
    ∀ v ∈ t.accepted file, v ∉ t.forgotten file → v ∈ t.handed file := by
  have hinv : (t.pipe.Accounted ∧ InRange cfg t) ∧ Sane t ∧ Draining cfg t :=
    Machine.run_invariant (fun s => (s.pipe.Accounted ∧ InRange cfg s) ∧ Sane s ∧ Draining cfg s)
      (fun s a u hga hs hu => ⟨⟨step_accounted hs.1.1 hu, step_inRange hs.1.2 hu⟩,
        step_sane hs.2.1 hu, step_draining hflush hs.2.1 hs.2.2 hga hu⟩)
      hg ⟨⟨init_accounted cfg now, init_inRange cfg now⟩, init_sane cfg now, init_draining cfg now⟩ h
  obtain ⟨⟨hacc, hrange⟩, -, hdrain⟩ := hinv
  intro v hv hforgot
  rcases hacc file v hv with hv | hv | hv | ⟨i, vs, hi, -⟩
  · exact hv
  · exact absurd hv hforgot
  · rw [show t.pipe.pending file = [] from (hdrain.exited hexit).2 file] at hv
    exact absurd hv (by simp)
  · have hdet := batch_eq_some.mp hi
    have hlt := hrange i file (by rw [hdet]; rfl)
    exact absurd (hexit i hlt) (by simp [hdet])

/-- `-F`, `-t 1` and the defaults. -/
def flushing : Cfg := ⟨1, 300, 3600, 0, true, false, Nat.one_pos⟩

/-- No `UPDATE` after the walk. -/
def shutdownCheck (s : St) : Act → Bool
  | .update _ _ _ _ => decide (s.flushThread ≠ .done)
  | .insert _ _ => decide (s.flushThread ≠ .done)
  | _ => true

theorem shutdownCheck_safe {cfg : Cfg} {s : St} {a : Act} (h : shutdownCheck s a = true) :
    ShutdownSafe cfg s a := by
  cases a with
  | update c now file vs => exact fun _ _ hd => absurd hd (of_decide_eq_true h)
  | insert c random => exact fun _ _ _ _ _ hd => absurd hd (of_decide_eq_true h)
  | _ => trivial

/-- A value that comes in after the signal, before the walk. -/
def updateThenWalk : List Act :=
  [.read 0 1, .signal, .update 0 0 router ["1:1".toList], .insert 0 0, .flushExit 1, .take 0 1 0,
    .write 0, .wrote 0, .broadcast 0, .exit 0]

/-- It is written. -/
theorem update_before_walk : ∃ t,
    run flushing (St.init flushing 0) updateThenWalk = some t ∧
    (t.accepted router).map Val.no = [0] ∧
    (∀ i < flushing.queueThreads, t.threads i = .exited) ∧
    ∀ v ∈ t.accepted router, v ∉ t.forgotten router → v ∈ t.handed router := by
  have hg : Machine.Guarded (step flushing) (ShutdownSafe flushing) (St.init flushing 0)
      updateThenWalk :=
    Machine.guarded_of_checked shutdownCheck (fun _ => True) (fun _ _ _ h => shutdownCheck_safe h)
      (fun _ _ _ _ _ => trivial) trivial (by decide +kernel)
  obtain ⟨t, ht, hrest⟩ : ∃ t, run flushing (St.init flushing 0) updateThenWalk = some t ∧
      ((t.accepted router).map Val.no, t.threads 0) = ([0], .exited) :=
    Option.map_eq_some_iff.mp (by decide +kernel)
  obtain ⟨hacc, hthread⟩ := Prod.mk.inj hrest
  have hexit : ∀ i < flushing.queueThreads, t.threads i = .exited := by
    intro i hi
    obtain rfl : i = 0 := Nat.lt_one_iff.mp hi
    exact hthread
  exact ⟨t, ht, hacc, hexit, shutdown_writes_all rfl hg ht hexit router⟩

/-- Two commands are read before the signal; the second one is handled after the walk. -/
def walkThenUpdate : List Act :=
  [.read 0 2, .update 0 0 router ["1:1".toList], .insert 0 0, .signal, .flushExit 1, .take 0 1 0,
    .update 0 0 router ["2:1".toList], .write 0, .wrote 0, .broadcast 0, .exit 0]

/-- Its value stays in the cache when the last queue thread has ended. -/
theorem update_after_walk : ∃ t,
    run flushing (St.init flushing 0) walkThenUpdate = some t ∧ t.threads 0 = .exited ∧
    (t.accepted router).map Val.no = [0, 1] ∧ (t.handed router).map Val.no = [0] ∧
    t.forgotten router = [] ∧
    ¬ ∀ v ∈ t.accepted router, v ∉ t.forgotten router → v ∈ t.handed router := by
  obtain ⟨t, ht, hrest⟩ : ∃ t, run flushing (St.init flushing 0) walkThenUpdate = some t ∧
      (t.threads 0, (t.accepted router).map Val.no, (t.handed router).map Val.no,
        t.forgotten router) = (.exited, [0, 1], [0], []) :=
    Option.map_eq_some_iff.mp (by decide +kernel)
  simp only [Prod.mk.injEq] at hrest
  obtain ⟨hthread, hacc, hhand, hforgot⟩ := hrest
  refine ⟨t, ht, hthread, hacc, hhand, hforgot, fun hall => ?_⟩
  obtain ⟨v, hv, hno⟩ : ∃ v ∈ t.accepted router, v.no = 1 :=
    List.mem_map.mp (by rw [hacc]; decide)
  have := List.mem_map_of_mem (f := Val.no) (hall v hv (by simp [hforgot]))
  rw [hhand, hno] at this
  exact absurd this (by decide)

end Rrdtool.Daemon
