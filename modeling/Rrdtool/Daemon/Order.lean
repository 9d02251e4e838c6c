import Rrdtool.Daemon.Flow

/-!
# The order of writes

A queue thread detaches the values of a file and drops `cache_lock` before it calls
`rrd_update_r`. The file can then be filled, put into the queue and taken again, by another
queue thread, before the first batch is written.

* `handed_in_order` — without such a second batch the values of a file are handed to
  `rrd_update_r` in the order in which they were accepted;
* `lone_of_one_thread` — one queue thread alone never meets one;
* `queue_threads_reorder` — two of them can.
-/

namespace Rrdtool.Daemon

open Pipeline

/-- A queue thread does not take a batch of a file while another one holds a batch of it that
is not written yet. -/
def LoneTake (s : St) : Act → Prop
  | .take i _ _ => ∀ file queue, s.queue = file :: queue →
      ∀ j vs, j ≠ i → s.threads j ≠ .detached file vs
  | _ => True

theorem LoneTake.alone {cfg : Cfg} {s t : St} {a : Act} (h : LoneTake s a)
    (ht : step cfg s a = some t) : s.pipe.Alone (opOf cfg s a) := by
  cases a with
  | take i now random =>
    simp only [opOf]
    cases hq : s.queue with
    | nil => trivial
    | cons file queue =>
      intro j vs hj
      have hj' : s.threads j = .detached file vs := batch_eq_some.mp hj
      refine h file queue hq j vs ?_ hj'
      rintro rfl
      cases Step.of_step ht with
      | take hi => simp [hi] at hj'
  | update c now file vs =>
    simp only [opOf]
    split_ifs <;> trivial
  | insert c random =>
    simp only [opOf]
    split
    · split_ifs <;> trivial
    · trivial
  | forget c file =>
    simp only [opOf]
    split_ifs <;> trivial
  | _ => trivial

/-- **Per-file write order.** In every interleaving in which no queue thread takes a batch of a
file while another one holds an unwritten one of it, the values handed to `rrd_update_r` are
in the order of their acceptance: no value is handed over after a later one. -/
theorem handed_in_order {cfg : Cfg} {now : ℤ} {as : List Act} {t : St}
    (hg : Machine.Guarded (step cfg) LoneTake (St.init cfg now) as)
    (h : run cfg (St.init cfg now) as = some t) (file : Text) :
    (t.handed file).Sublist (t.accepted file) ∧
      (t.accepted file).Pairwise (fun v w => v.no < w.no) ∧
      (t.handed file).Pairwise fun v w => v.no < w.no := by
  have hinit : (St.init cfg now).pipe.Ordered :=
    ⟨fun hi => absurd hi (by simp [St.pipe, St.init, QThread.batch]),
      fun hi => absurd hi (by simp [St.pipe, St.init, QThread.batch]),
      fun _ => List.Sublist.refl _⟩
  have hinv : t.pipe.Ordered ∧ Numbered t :=
    Machine.run_invariant (fun s => s.pipe.Ordered ∧ Numbered s)
      (fun s a u hga hs hu => ⟨hs.1.apply (hga.alone hu) (step_pipe hu), step_numbered hs.2 hu⟩)
      hg ⟨hinit, init_numbered cfg now⟩ h
  have hsub : (t.handed file).Sublist (t.accepted file) :=
    (List.sublist_append_left _ _).trans (hinv.1.free file)
  exact ⟨hsub, hinv.2.pairwise file, (hinv.2.pairwise file).sublist hsub⟩

/-- With one queue thread no other thread can hold a batch. -/
theorem lone_of_one_thread {cfg : Cfg} (hone : cfg.queueThreads = 1) {now : ℤ} {as : List Act}
    {t : St} (h : run cfg (St.init cfg now) as = some t) :
    Machine.Guarded (step cfg) LoneTake (St.init cfg now) as := by
  refine Machine.guarded_of_run (InRange cfg) (fun s a u hs hu => ?_)
    (fun s a u hs hu => step_inRange hs hu) (init_inRange cfg now) h
  cases Step.of_step hu with
  | @take i now random file queue ci hi hlt _ hq =>
    intro f q hfq j vs hji hj
    have := hs j f (by rw [hj]; rfl)
    omega
  | _ => trivial

/-! ## Runs -/

/-- Three `UPDATE`s; the first two values are detached when the third one comes in. -/
def refill : List Act :=
  [.read 0 1, .update 0 0 router ["1:1".toList], .insert 0 0,
    .read 0 1, .update 0 300 router ["2:1".toList], .take 0 300 0,
    .read 0 1, .update 0 600 router ["3:1".toList]]

/-- One thread writes the first batch before it takes the second one. -/
theorem one_thread_refill : ∃ t,
    run (queueThreads 1 one_pos) (St.init (queueThreads 1 one_pos) 0)
      (refill ++ [.write 0, .wrote 0, .broadcast 0, .take 0 600 0, .write 0]) = some t ∧
    (t.handed router).map Val.no = [0, 1, 2] ∧
    (t.handed router).Pairwise fun v w => v.no < w.no := by
  obtain ⟨t, ht, hno⟩ : ∃ t, run (queueThreads 1 one_pos) (St.init (queueThreads 1 one_pos) 0)
      (refill ++ [.write 0, .wrote 0, .broadcast 0, .take 0 600 0, .write 0]) = some t ∧
      (t.handed router).map Val.no = [0, 1, 2] := Option.map_eq_some_iff.mp (by decide +kernel)
  exact ⟨t, ht, hno, (handed_in_order (lone_of_one_thread rfl ht) ht router).2.2⟩

/-- A second thread takes the third value and is faster. -/
theorem queue_threads_reorder : ∃ t,
    run (queueThreads 2 two_pos) (St.init (queueThreads 2 two_pos) 0)
      (refill ++ [.take 1 600 0, .write 1, .write 0]) = some t ∧
    (t.accepted router).map Val.no = [0, 1, 2] ∧ (t.handed router).map Val.no = [2, 0, 1] ∧
    ¬ (t.handed router).Pairwise fun v w => v.no < w.no := by
  obtain ⟨t, ht, hno⟩ : ∃ t, run (queueThreads 2 two_pos) (St.init (queueThreads 2 two_pos) 0)
      (refill ++ [.take 1 600 0, .write 1, .write 0]) = some t ∧
      ((t.accepted router).map Val.no, (t.handed router).map Val.no) = ([0, 1, 2], [2, 0, 1]) :=
    Option.map_eq_some_iff.mp (by decide +kernel)
  obtain ⟨hacc, hhand⟩ := Prod.mk.inj hno
  refine ⟨t, ht, hacc, hhand, fun hp => ?_⟩
  have hpair : ((t.handed router).map Val.no).Pairwise (· < ·) := List.pairwise_map.mpr hp
  rw [hhand] at hpair
  exact absurd hpair (by decide)

end Rrdtool.Daemon
