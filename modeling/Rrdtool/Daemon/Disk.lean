import Rrdtool.Batch
import Rrdtool.Daemon.Flush
import Rrdtool.Daemon.Order

/-!
# The files behind the daemon

The daemon together with the files that its queue threads update. Whoever looks at a file gets what direct
updates would have left there, but for the values that are still on their way.

* `files_direct` — in every interleaving that stays out of the races, a file is what the values handed over so
  far leave when they are written one at a time; these, the batch on its way and the values that wait in the cache
  are what the daemon has accepted, in this order; and a `FLUSH` that has returned zero is behind all of its values.
-/

namespace Rrdtool.Daemon

open Loop Pipeline

/-- The daemon and the files. -/
structure System : Type where
  daemon : St
  files : Text → Rrd

/-- What a section does to the files: `rrd_update_r` is called for a batch, with the working storage it finds. -/
def writeFiles (env : Env) (junk : Upd) (s : St) (files : Text → Rrd) : Act → Text → Rrd
  | .write i =>
    match s.threads i with
    | .detached file vs =>
      Function.update files file (rrdUpdate env junk (vs.map Val.text) (files file)).state
    | _ => files
  | _ => files

/-- One section of the daemon. -/
def System.step (cfg : Cfg) (env : Env) (s : System) (a : Act × Upd) : Option System :=
  (Daemon.step cfg s.daemon a.1).map fun t => ⟨t, writeFiles env a.2 s.daemon s.files a.1⟩

/-- The races of the queue threads and of `flush_file`, excluded. -/
def System.Safe (cfg : Cfg) (s : System) (a : Act × Upd) : Prop :=
  LoneTake s.daemon a.1 ∧ FlushSafe cfg s.daemon a.1

variable {cfg : Cfg} {env : Env} {s t : System} {a : Act × Upd} {file : Text}

theorem System.step_eq_some : System.step cfg env s a = some t ↔
    Daemon.step cfg s.daemon a.1 = some t.daemon ∧ t.files = writeFiles env a.2 s.daemon s.files a.1 := by
  rw [System.step, Option.map_eq_some_iff]
  constructor
  · rintro ⟨u, hu, rfl⟩
    exact ⟨hu, rfl⟩
  · rintro ⟨hu, hf⟩
    exact ⟨t.daemon, hu, by rw [← hf]⟩

/-! ## The calls for a file -/

/-- A file is what some calls of `rrd_update_r` leave, which together get the values handed over for it. -/
def Written (env : Env) (files₀ : Text → Rrd) (s : System) (file : Text) : Prop :=
  ∃ bs : List (Upd × List Text), (bs.map Prod.snd).flatten = (s.daemon.handed file).map Val.text ∧
    s.files file = writeBatches env bs (files₀ file)

/-- Only `rrd_update_r` changes the files and what has been handed over. -/
theorem step_handed {s t : St} {a : Act} (h : step cfg s a = some t) :
    (∃ i f vs, a = .write i ∧ s.threads i = .detached f vs ∧
      t.handed = Function.update s.handed f (s.handed f ++ vs)) ∨
    (∀ i, a ≠ .write i) ∧ t.handed = s.handed := by
  cases Step.of_step h with
  | @write i f vs hi => exact .inl ⟨i, f, vs, rfl, hi, rfl⟩
  | flushExit => exact .inr ⟨fun i hi => (by cases hi), by split_ifs <;> rfl⟩
  | _ => exact .inr ⟨fun i hi => (by cases hi), rfl⟩

theorem Written.step {files₀ : Text → Rrd} (hw : Written env files₀ s file)
    (h : System.step cfg env s a = some t) : Written env files₀ t file := by
  obtain ⟨hstep, hfiles⟩ := System.step_eq_some.mp h
  obtain ⟨bs, hbs, hf⟩ := hw
  rcases step_handed hstep with ⟨i, f, vs, ha, hi, hhanded⟩ | ⟨hno, hhanded⟩
  · rw [ha, writeFiles, hi] at hfiles
    dsimp only at hfiles
    by_cases heq : file = f
    · subst heq
      refine ⟨bs ++ [(a.2, vs.map Val.text)], ?_, ?_⟩
      · rw [hhanded, Function.update_self, List.map_append, List.map_append, List.flatten_append, hbs,
          List.map_singleton, List.flatten_singleton]
      · rw [hfiles, Function.update_self, writeBatches_concat, hf]
    · refine ⟨bs, ?_, ?_⟩
      · rw [hhanded, Function.update_of_ne heq, hbs]
      · rw [hfiles, Function.update_of_ne heq, hf]
  · have hsame : writeFiles env a.2 s.daemon s.files a.1 = s.files := by
      unfold writeFiles
      split
      · rename_i i heq
        exact absurd heq (hno i)
      · rfl
    exact ⟨bs, by rw [hhanded, hbs], by rw [hfiles, hsame, hf]⟩

/-! ## Runs -/

/-- What holds of the daemon and its files in every state. -/
structure System.Inv (env : Env) (files₀ : Text → Rrd) (s : System) : Prop where
  ordered : s.daemon.pipe.Ordered
  accounted : s.daemon.pipe.Accounted
  numbered : Numbered s.daemon
  barrier : Barrier s.daemon
  written : ∀ file, Written env files₀ s file

theorem System.Inv.init (cfg : Cfg) (env : Env) (now : ℤ) (files₀ : Text → Rrd) :
    System.Inv env files₀ ⟨St.init cfg now, files₀⟩ where
  ordered := ⟨fun hi => absurd hi (by simp [St.pipe, St.init, QThread.batch]),
    fun hi => absurd hi (by simp [St.pipe, St.init, QThread.batch]), fun _ => List.Sublist.refl _⟩
  accounted := init_accounted cfg now
  numbered := init_numbered cfg now
  barrier := init_barrier cfg now
  written _ := ⟨[], rfl, rfl⟩

theorem System.Inv.step {files₀ : Text → Rrd} (hs : System.Inv env files₀ s) (hg : s.Safe cfg a)
    (h : System.step cfg env s a = some t) : System.Inv env files₀ t := by
  have hstep := (System.step_eq_some.mp h).1
  exact ⟨hs.ordered.apply (hg.1.alone hstep) (step_pipe hstep), step_accounted hs.accounted hstep,
    step_numbered hs.numbered hstep, step_barrier hs.accounted hs.barrier hg.2 hstep,
    fun file => (hs.written file).step h⟩

/-- What has been accepted for a file that was not forgotten: it is handed over, in one batch on its way, or it waits. -/
theorem System.Inv.accepted_eq {files₀ : Text → Rrd} (hs : System.Inv env files₀ s)
    (hforget : s.daemon.forgotten file = []) :
    ∃ batch, (batch = [] ∨ ∃ i, s.daemon.threads i = .detached file batch) ∧
      s.daemon.accepted file = s.daemon.handed file ++ batch ++ s.daemon.pending file := by
  have hnodup : (s.daemon.accepted file).Nodup :=
    (hs.numbered.pairwise file).imp fun {v w} hlt => fun heq => hlt.ne (congrArg Val.no heq)
  by_cases hheld : ∃ i vs, s.daemon.threads i = .detached file vs
  · obtain ⟨i, vs, hi⟩ := hheld
    refine ⟨vs, .inr ⟨i, hi⟩, ?_⟩
    exact (hs.ordered.held_eq hs.accounted (batch_eq_some.mpr hi) hforget hnodup).symm
  · refine ⟨[], .inl rfl, ?_⟩
    rw [List.append_nil]
    refine (hs.ordered.free_eq hs.accounted (fun i vs hi => hheld ⟨i, vs, ?_⟩) hforget hnodup).symm
    exact batch_eq_some.mp hi

/-- **The cache is transparent.** In every interleaving of the daemon that stays out of the races, and for every
file that is not forgotten and whose values are safe to be grouped: the file is what the values handed over leave
when they are written one at a time; with the batch on its way and the values that wait they are the accepted ones,
in order, so that these, written one at a time, would lead from the file to what direct updates would have left; and
when `FLUSH` has returned zero, every value accepted before it is in the file. -/
theorem files_direct {now : ℤ} {files₀ : Text → Rrd} {as : List (Act × Upd)}
    (hg : Machine.Guarded (System.step cfg env) (System.Safe cfg) ⟨St.init cfg now, files₀⟩ as)
    (h : Machine.run (System.step cfg env) ⟨St.init cfg now, files₀⟩ as = some t)
    (hb : (files₀ file).Batchable) (hforget : t.daemon.forgotten file = [])
    (hsafe : BatchSafe env ((t.daemon.accepted file).map Val.text) (files₀ file)) :
    ∃ batch, (batch = [] ∨ ∃ i, t.daemon.threads i = .detached file batch) ∧
      t.daemon.accepted file = t.daemon.handed file ++ batch ++ t.daemon.pending file ∧
      t.files file = oneByOne env ((t.daemon.handed file).map Val.text) (files₀ file) ∧
      oneByOne env ((batch ++ t.daemon.pending file).map Val.text) (t.files file) =
        oneByOne env ((t.daemon.accepted file).map Val.text) (files₀ file) ∧
      ∀ n, (file, n) ∈ t.daemon.returned → ∀ v ∈ t.daemon.accepted file, v.no < n → v ∈ t.daemon.handed file := by
  have hinv : System.Inv env files₀ t :=
    Machine.run_invariant (System.Inv env files₀) (fun s a u hga hs hu => hs.step hga hu) hg
      (.init cfg env now files₀) h
  obtain ⟨batch, hbatch, hacc⟩ := hinv.accepted_eq hforget
  obtain ⟨bs, hbs, hf⟩ := hinv.written file
  have htexts : (t.daemon.accepted file).map Val.text =
      (t.daemon.handed file).map Val.text ++ (batch ++ t.daemon.pending file).map Val.text := by
    rw [hacc, List.append_assoc, List.map_append]
  rw [htexts] at hsafe
  have hfile : t.files file = oneByOne env ((t.daemon.handed file).map Val.text) (files₀ file) :=
    hf.trans (batchSafe_groups hb hbs (batchSafe_of_append hsafe))
  refine ⟨batch, hbatch, hacc, hfile, ?_, fun n hn v hv hlt => ?_⟩
  · rw [htexts, oneByOne_append, hfile]
  · rcases (hinv.barrier.returned _ hn).2 v hv hlt with hv | hv
    · exact hv
    · rw [hforget] at hv
      cases hv

/-! ## A run -/

/-- One queue thread and nothing for a `FLUSH` to race with. -/
def diskCheck (s : System) (a : Act × Upd) : Bool :=
  flushCheck (queueThreads 1 one_pos) s.daemon a.1 &&
    match a.1 with
    | .take i _ _ => i == 0
    | _ => true

theorem diskCheck_safe (hs : InRange (queueThreads 1 one_pos) s.daemon ∧ Sane s.daemon)
    (h : diskCheck s a = true) : s.Safe (queueThreads 1 one_pos) a := by
  obtain ⟨hflush, hlone⟩ := Bool.and_eq_true_iff.mp h
  refine ⟨?_, flushCheck_safe hs hflush⟩
  obtain ⟨act, junk⟩ := a
  cases act with
  | take i now random =>
    obtain rfl := eq_of_beq hlone
    intro f queue _ j vs hj hheld
    have hlt : j < 1 := hs.1 j f (by rw [hheld]; rfl)
    exact hj (Nat.lt_one_iff.mp hlt)
  | _ => trivial

/-- A value that is flushed, and another one that waits. -/
def flushedThenCached : List (Act × Upd) :=
  [.read 0 2, .update 0 0 router ["1200:5:6".toList], .insert 0 0, .flush 0 router, .take 0 1 0, .write 0, .wrote 0,
    .broadcast 0, .flushReturn 0, .read 0 1, .update 0 2 router ["1500:7:8".toList]].map fun a => (a, .blank newPair)

/-- The first value is in the file, and the second one is still to come. -/
theorem flushedThenCached_files : ∃ t, Machine.run (System.step (queueThreads 1 one_pos) .bare)
      ⟨St.init (queueThreads 1 one_pos) 0, fun _ => newPair⟩ flushedThenCached = some t ∧
    t.files router = oneByOne .bare ["1200:5:6".toList] newPair ∧
    oneByOne .bare ["1500:7:8".toList] (t.files router) =
      oneByOne .bare ["1200:5:6".toList, "1500:7:8".toList] newPair := by
  have hg : Machine.Guarded (System.step (queueThreads 1 one_pos) .bare) (System.Safe (queueThreads 1 one_pos))
      ⟨St.init (queueThreads 1 one_pos) 0, fun _ => newPair⟩ flushedThenCached :=
    Machine.guarded_of_checked diskCheck (fun s => InRange (queueThreads 1 one_pos) s.daemon ∧ Sane s.daemon)
      (fun s a hs h => diskCheck_safe hs h)
      (fun s a t hs h => ⟨step_inRange hs.1 (System.step_eq_some.mp h).1, step_sane hs.2 (System.step_eq_some.mp h).1⟩)
      ⟨init_inRange _ 0, init_sane _ 0⟩ (by decide +kernel)
  obtain ⟨t, ht, hrest⟩ : ∃ t, Machine.run (System.step (queueThreads 1 one_pos) .bare)
      ⟨St.init (queueThreads 1 one_pos) 0, fun _ => newPair⟩ flushedThenCached = some t ∧
      ((t.daemon.accepted router).map Val.text, (t.daemon.handed router).map Val.text,
        (t.daemon.pending router).map Val.text, t.daemon.forgotten router) =
        (["1200:5:6".toList, "1500:7:8".toList], ["1200:5:6".toList], ["1500:7:8".toList], []) :=
    Option.map_eq_some_iff.mp (by decide +kernel)
  simp only [Prod.mk.injEq] at hrest
  obtain ⟨hacc, hhanded, hpending, hforget⟩ := hrest
  have hsafe : BatchSafe .bare ((t.daemon.accepted router).map Val.text) newPair := by
    have hfirst : (direct .bare "1200:5:6".toList newPair).isOk = true := by decide +kernel
    have hsecond : (direct .bare "1500:7:8".toList (direct .bare "1200:5:6".toList newPair).state).isOk = true := by
      decide +kernel
    rw [hacc, BatchSafe, Outcome.eq_ok_state hfirst]
    dsimp only
    rw [BatchSafe, Outcome.eq_ok_state hsecond]
    trivial
  obtain ⟨batch, -, hparts, hfile, hrest, -⟩ := files_direct hg ht newPair_batchable hforget hsafe
  refine ⟨t, ht, hfile.trans (congrArg (oneByOne .bare · newPair) hhanded), ?_⟩
  have hbatch : batch = [] := by
    have hlen := congrArg (fun l => (l.map Val.text).length) hparts
    simp only [List.map_append, hacc, hhanded, hpending, List.length_append, List.length_map] at hlen
    simp only [List.length_cons, List.length_nil] at hlen
    exact List.eq_nil_of_length_eq_zero (by omega)
  rwa [hbatch, List.nil_append, hpending, hacc] at hrest

end Rrdtool.Daemon
