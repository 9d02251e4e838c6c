import Rrdtool.Daemon.Flow

/-!
# `FLUSH` as a write barrier

`flush_file` returns at once when the item of the file holds no value, and otherwise waits for
the next broadcast on the item. Neither looks at the batches that queue threads have detached:
the values of the caller can be in such a batch, and the broadcast can be the one of a batch
that was detached before the call.

* `flush_returns_written` — outside of these races, once `flush_file` has returned zero, the
  values accepted before the call have been handed to `rrd_update_r` or forgotten;
* `flush_overtakes_batch` — inside they need not be.
-/

namespace Rrdtool.Daemon

open Pipeline

/-! ## Waiting -/

/-- The values a queue thread has detached and not yet handed over. -/
def QThread.holds : QThread → List Val
  | .detached _ vs => vs
  | _ => []

/-- The values that had come in for a file before number `n` are handed over or forgotten. -/
def Flushed (s : St) (file : Text) (n : ℕ) : Prop :=
  ∀ v ∈ s.accepted file, v.no < n → v ∈ s.handed file ∨ v ∈ s.forgotten file

/-- The same, but for the values that one queue thread holds. -/
def FlushedBut (s : St) (file : Text) (n : ℕ) (vs : List Val) : Prop :=
  ∀ v ∈ s.accepted file, v.no < n → v ∈ s.handed file ∨ v ∈ s.forgotten file ∨ v ∈ vs

/-- No queue thread holds a batch of the file. -/
def NoBatch (s : St) (file : Text) : Prop := ∀ i vs, s.threads i ≠ .detached file vs

/-- Some `flush_file` waits for the file. -/
def Awaited (s : St) (file : Text) : Prop := ∃ c n, (s.conns c).handler = .waiting file n false

/-- **The races of `flush_file`**, excluded: a `FLUSH` that finds no value in the cache meets no
batch of its file, one that has to wait meets no thread that is busy with its file; and while it
waits, the file is not taken, forgotten or freed beside a batch of it. -/
def FlushSafe (cfg : Cfg) (s : St) : Act → Prop
  | .flush _ file => ∀ ci, s.tree file = some ci →
      if ci.values = [] then NoBatch s file else ∀ i, (s.threads i).file ≠ some file
  | .take _ _ _ => ∀ file queue, s.queue = file :: queue → Awaited s file → NoBatch s file
  | .forget _ file => Awaited s file → NoBatch s file
  | .flushall _ now => ∀ file, purges cfg s now file = true → Awaited s file → NoBatch s file
  | .tick now => ∀ file, purges cfg s now file = true → Awaited s file → NoBatch s file
  | .flushExit now => ∀ file, purges cfg s now file = true → Awaited s file → NoBatch s file
  | _ => True

/-! ## Growth -/

/-- What no section takes back. -/
structure Grows (s t : St) : Prop where
  nextNo : s.nextNo ≤ t.nextNo
  accepted : ∀ f, ∀ v ∈ t.accepted f, v ∈ s.accepted f ∨ s.nextNo ≤ v.no
  handed : ∀ f, s.handed f ⊆ t.handed f
  forgotten : ∀ f, s.forgotten f ⊆ t.forgotten f

theorem step_grows {cfg : Cfg} {s t : St} {a : Act} (h : step cfg s a = some t) : Grows s t := by
  have hhanded : ∀ f, s.handed f ⊆ t.handed f := by
    cases Step.of_step h with
    | write => exact subset_update_append _ _ _
    | flushExit => split_ifs <;> exact fun f => List.Subset.refl _
    | _ => exact fun f => List.Subset.refl _
  have hforgotten : ∀ f, s.forgotten f ⊆ t.forgotten f := by
    cases Step.of_step h with
    | forget => exact subset_update_append _ _ _
    | flushExit => split_ifs <;> exact fun f => List.Subset.refl _
    | _ => exact fun f => List.Subset.refl _
  rcases step_accepts h with ⟨hacc, hno⟩ | ⟨file, vs, last, hacc, hno⟩
  · exact ⟨hno.ge, fun f v hv => .inl (hacc ▸ hv), hhanded, hforgotten⟩
  refine ⟨hno ▸ Nat.le_add_right _ _, fun f v hv => ?_, hhanded, hforgotten⟩
  rw [hacc] at hv
  by_cases hf : f = file
  · subst hf
    rw [Function.update_self] at hv
    exact (List.mem_append.mp hv).imp id fun hv =>
      (mem_number ((takeValues_isPrefixOf _ _).subset hv)).1
  · rw [Function.update_of_ne hf] at hv
    exact .inl hv

theorem Flushed.mono {s t : St} {file : Text} {n : ℕ} (h : Flushed s file n) (hn : n ≤ s.nextNo)
    (hg : Grows s t) : Flushed t file n := by
  intro v hv hlt
  rcases hg.accepted file v hv with hv | hge
  · exact (h v hv hlt).imp (fun hv => hg.handed file hv) fun hv => hg.forgotten file hv
  · omega

theorem FlushedBut.mono {s t : St} {file : Text} {n : ℕ} {vs ws : List Val}
    (h : FlushedBut s file n vs) (hn : n ≤ s.nextNo) (hg : Grows s t)
    (hvs : ∀ v ∈ vs, v ∈ ws ∨ v ∈ t.handed file) : FlushedBut t file n ws := by
  intro v hv hlt
  rcases hg.accepted file v hv with hv | hge
  · rcases h v hv hlt with hv | hv | hv
    · exact .inl (hg.handed file hv)
    · exact .inr (.inl (hg.forgotten file hv))
    · exact (hvs v hv).elim (fun hv => .inr (.inr hv)) .inl
  · omega

/-- Without a batch of the file, what is not flushed is still in the cache. -/
theorem NoBatch.flushedBut {s : St} (hs : s.pipe.Accounted) {file : Text} (hb : NoBatch s file)
    (n : ℕ) : FlushedBut s file n (s.pending file) := by
  intro v hv _
  rcases hs file v hv with hv | hv | hv | ⟨i, vs, hi, -⟩
  · exact .inl hv
  · exact .inr (.inl hv)
  · exact .inr (.inr hv)
  · exact absurd (batch_eq_some.mp hi) (hb i vs)

theorem FlushedBut.flushed {s : St} {file : Text} {n : ℕ} (h : FlushedBut s file n []) :
    Flushed s file n := by
  intro v hv hlt
  simpa using h v hv hlt

/-! ## What a section does to waiting threads -/

/-- The sections that broadcast on the item of a file. -/
def Wakes (cfg : Cfg) (s : St) (file : Text) : Act → Prop
  | .forget _ f => f = file
  | .flushall _ now => purges cfg s now file = true
  | .tick now => purges cfg s now file = true
  | .flushExit now => purges cfg s now file = true
  | .broadcast i => s.threads i = .noted file
  | _ => False

theorem wake_waiting {files : List Text} {conns : ℕ → Conn} {c : ℕ} {file : Text} {n : ℕ} {b : Bool}
    (h : (wake files conns c).handler = .waiting file n b) :
    (conns c).handler = .waiting file n b ∨
      (b = true ∧ (conns c).handler = .waiting file n false ∧ file ∈ files) := by
  simp only [wake] at h
  split at h
  · rename_i f since b' hc
    split_ifs at h with hf
    · obtain ⟨rfl, rfl, rfl⟩ : f = file ∧ since = n ∧ true = b := by simpa using h
      cases b'
      · exact .inr ⟨rfl, hc, hf⟩
      · exact .inl hc
    · exact .inl h
  · exact .inl h

/-- A thread that is given a handler which does not wait is not one that waits. -/
theorem update_waiting {conns : ℕ → Conn} {c c' : ℕ} {k : Conn} {file : Text} {n : ℕ} {b : Bool}
    (hk : k.handler ≠ .waiting file n b)
    (h : (Function.update conns c k c').handler = .waiting file n b) :
    (conns c').handler = .waiting file n b := by
  by_cases hc : c' = c
  · subst hc
    rw [Function.update_self] at h
    exact absurd h hk
  · rwa [Function.update_of_ne hc] at h

theorem mem_purged {cfg : Cfg} {s : St} {now : ℤ} {file : Text}
    (h : file ∈ s.keys.filter (purges cfg s now)) : purges cfg s now file = true :=
  (List.mem_filter.mp h).2

/-- **Who waits after a section**: who waited before, maybe woken, and a `FLUSH` that found
values. -/
theorem step_waiting {cfg : Cfg} {s t : St} {a : Act} (h : step cfg s a = some t) {c : ℕ}
    {file : Text} {n : ℕ} {b : Bool} (hc : (t.conns c).handler = .waiting file n b) :
    (s.conns c).handler = .waiting file n b ∨
      (b = true ∧ (s.conns c).handler = .waiting file n false ∧ Wakes cfg s file a) ∨
      (b = false ∧ n = s.nextNo ∧ a = .flush c file ∧
        ∃ ci, s.tree file = some ci ∧ ci.values ≠ []) := by
  cases Step.of_step h with
  | read => exact .inl (update_waiting (by simp) hc)
  | updateMiss => exact .inl (update_waiting (by simp) hc)
  | updateHit => exact .inl (update_waiting (by simp) hc)
  | insertLate => exact .inl (update_waiting (by simp) hc)
  | insert => exact .inl (update_waiting (by simp) hc)
  | forgetMiss => exact .inl (update_waiting (by simp) hc)
  | @forget c' f ci =>
    rcases wake_waiting hc with hc | ⟨hb, hc, hf⟩
    · exact .inl (update_waiting (by simp) hc)
    · exact .inr (.inl ⟨hb, update_waiting (by simp) hc, (List.mem_singleton.mp hf).symm⟩)
  | forgetNote => exact .inl (update_waiting (by simp) hc)
  | flushMiss => exact .inl (update_waiting (by simp) hc)
  | flushEmpty => exact .inl (update_waiting (by simp) hc)
  | @flushWait c' f ci _ _ hci hv =>
    by_cases hcc : c = c'
    · subst hcc
      simp only [enter, Function.update_self, Handler.waiting.injEq] at hc
      obtain ⟨rfl, rfl, rfl⟩ := hc
      exact .inr (.inr ⟨rfl, rfl, rfl, ci, hci, hv⟩)
    · simp only [enter, Function.update_of_ne hcc] at hc
      exact .inl hc
  | flushReturn => exact .inl (update_waiting (by simp) hc)
  | flushall =>
    rcases wake_waiting (update_waiting (by simp) hc) with hc | ⟨hb, hc, hf⟩
    · exact .inl hc
    · exact .inr (.inl ⟨hb, hc, mem_purged hf⟩)
  | tick =>
    rcases wake_waiting hc with hc | ⟨hb, hc, hf⟩
    · exact .inl hc
    · exact .inr (.inl ⟨hb, hc, mem_purged hf⟩)
  | flushExit =>
    split_ifs at hc
    · rcases wake_waiting hc with hc | ⟨hb, hc, hf⟩
      · exact .inl hc
      · exact .inr (.inl ⟨hb, hc, mem_purged hf⟩)
    · exact .inl hc
  | @broadcast i f hi =>
    simp only at hc
    split_ifs at hc
    · rcases wake_waiting hc with hc' | ⟨hb, hc', hf⟩
      · exact .inl hc'
      · obtain rfl := List.mem_singleton.mp hf
        exact .inr (.inl ⟨hb, hc', hi⟩)
    · exact .inl hc
  | _ => exact .inl hc

/-- Who is busy with a file after a section: who was before, and a thread that has just taken
what waits for it. -/
theorem step_busy {cfg : Cfg} {s t : St} {a : Act} (h : step cfg s a = some t) {i : ℕ}
    {file : Text} (hi : (t.threads i).file = some file) :
    ((s.threads i).file = some file ∧
        ∀ v ∈ (s.threads i).holds, v ∈ (t.threads i).holds ∨ v ∈ t.handed file) ∨
      ∃ now random queue, a = .take i now random ∧ s.queue = file :: queue ∧
        (t.threads i).holds = s.pending file := by
  -- the threads but one are where they were
  have hsame : t.threads i = s.threads i → (s.threads i).file = some file ∧
      ∀ v ∈ (s.threads i).holds, v ∈ (t.threads i).holds ∨ v ∈ t.handed file := by
    intro heq
    rw [heq] at hi ⊢
    exact ⟨hi, fun v hv => .inl hv⟩
  cases Step.of_step h with
  | flushExit => exact .inl (hsame (by split_ifs <;> rfl))
  | @take j now random f queue ci _ _ _ hq hci =>
    by_cases hij : i = j
    · subst hij
      simp only [detach, Function.update_self, QThread.file, Option.some.injEq] at hi
      subst hi
      refine .inr ⟨now, random, queue, rfl, hq, ?_⟩
      rw [St.pending, pendingIn_of_some hci]
      simp [detach, QThread.holds]
    · exact .inl (hsame (Function.update_of_ne hij ..))
  | @write j f vs hj =>
    by_cases hij : i = j
    · subst hij
      simp only [Function.update_self, QThread.file, Option.some.injEq] at hi
      subst hi
      rw [hj]
      exact .inl ⟨rfl, fun v hv => .inr (by simpa using .inr hv)⟩
    · exact .inl (hsame (Function.update_of_ne hij ..))
  | @wrote j f hj =>
    by_cases hij : i = j
    · subst hij
      simp only [Function.update_self, QThread.file, Option.some.injEq] at hi
      subst hi
      rw [hj]
      exact .inl ⟨rfl, fun v hv => absurd hv (by simp [QThread.holds])⟩
    · exact .inl (hsame (Function.update_of_ne hij ..))
  | @broadcast j f hj =>
    by_cases hij : i = j
    · subst hij
      simp [QThread.file] at hi
    · exact .inl (hsame (Function.update_of_ne hij ..))
  | @exit j =>
    by_cases hij : i = j
    · subst hij
      simp [QThread.file] at hi
    · exact .inl (hsame (Function.update_of_ne hij ..))
  | _ => exact .inl (hsame rfl)

/-- Which calls of `flush_file` have returned zero after a section. -/
theorem step_returned {cfg : Cfg} {s t : St} {a : Act} (h : step cfg s a = some t) {p : Text × ℕ}
    (hp : p ∈ t.returned) :
    p ∈ s.returned ∨
      (∃ c ci, a = .flush c p.1 ∧ s.tree p.1 = some ci ∧ ci.values = [] ∧ p.2 = s.nextNo) ∨
      ∃ c, (s.conns c).handler = .waiting p.1 p.2 true := by
  cases Step.of_step h with
  | @flushEmpty c f ci _ _ hci hv =>
    rcases List.mem_cons.mp hp with rfl | hp
    · exact .inr (.inl ⟨c, ci, rfl, hci, hv, rfl⟩)
    · exact .inl hp
  | @flushReturn c f since hc =>
    rcases List.mem_cons.mp hp with rfl | hp
    · exact .inr (.inr ⟨c, hc⟩)
    · exact .inl hp
  | flushExit => exact .inl (by split_ifs at hp <;> exact hp)
  | _ => exact .inl hp

/-! ## The barrier -/

/-- What a wait is worth: a call that has returned or been woken is over with its values, and
for one that still sleeps the broadcast of any thread that is busy with its file will come when
that thread has written the last of them. -/
structure Barrier (s : St) : Prop where
  returned : ∀ p ∈ s.returned, p.2 ≤ s.nextNo ∧ Flushed s p.1 p.2
  woken : ∀ {c file n}, (s.conns c).handler = .waiting file n true →
    n ≤ s.nextNo ∧ Flushed s file n
  asleep : ∀ {c file n}, (s.conns c).handler = .waiting file n false →
    n ≤ s.nextNo ∧ ∀ i, (s.threads i).file = some file → FlushedBut s file n (s.threads i).holds

theorem init_barrier (cfg : Cfg) (now : ℤ) : Barrier (St.init cfg now) :=
  ⟨fun _ hp => absurd hp (by simp [St.init]), fun hc => absurd hc (by simp [St.init]),
    fun hc => absurd hc (by simp [St.init])⟩

/-- A broadcast comes after the values of whoever waits for it. -/
theorem Wakes.flushed {cfg : Cfg} {s t : St} {a : Act} (hacc : s.pipe.Accounted) (hb : Barrier s)
    (hg : FlushSafe cfg s a) (h : step cfg s a = some t) {c : ℕ} {file : Text} {n : ℕ}
    (hc : (s.conns c).handler = .waiting file n false) (hw : Wakes cfg s file a) :
    Flushed t file n := by
  obtain ⟨hn, hasleep⟩ := hb.asleep hc
  have hgrow := step_grows h
  have hawaited : Awaited s file := ⟨c, n, hc⟩
  -- a freed item holds no value
  have hpurge : ∀ now, purges cfg s now file = true → NoBatch s file → Flushed t file n := by
    intro now hp hnb
    have hbut := hnb.flushedBut hacc n
    rw [purges_pending hp] at hbut
    exact hbut.flushed.mono hn hgrow
  cases a with
  | forget c' f =>
    obtain rfl : f = file := hw
    have hbut := (hg hawaited).flushedBut hacc n
    cases Step.of_step h with
    | forgetMiss _ _ hnone =>
      rw [St.pending, pendingIn_of_none hnone] at hbut
      exact hbut.flushed.mono hn hgrow
    | @forget _ _ ci _ _ hci =>
      intro v hv hlt
      rcases hbut v hv hlt with hv | hv | hv
      · exact .inl hv
      · exact .inr (hgrow.forgotten f hv)
      · rw [St.pending, pendingIn_of_some hci] at hv
        exact .inr (by simp [forgetItem, hv])
  | flushall c' now => exact hpurge now hw (hg file hw hawaited)
  | tick now => exact hpurge now hw (hg file hw hawaited)
  | flushExit now => exact hpurge now hw (hg file hw hawaited)
  | broadcast i =>
    have hbut := hasleep i (by rw [show s.threads i = .noted file from hw]; rfl)
    rw [show s.threads i = .noted file from hw] at hbut
    exact FlushedBut.flushed (hbut.mono hn hgrow fun v hv => .inl hv)
  | _ => exact absurd hw (by simp [Wakes])

/-- **One section keeps the barrier.** -/
theorem step_barrier {cfg : Cfg} {s t : St} {a : Act} (hacc : s.pipe.Accounted) (hb : Barrier s)
    (hg : FlushSafe cfg s a) (h : step cfg s a = some t) : Barrier t := by
  have hgrow := step_grows h
  refine ⟨fun p hp => ?_, fun {c file n} hc => ?_, fun {c file n} hc => ?_⟩
  · rcases step_returned h hp with hp | ⟨c, ci, rfl, hci, hv, hno⟩ | ⟨c, hc⟩
    · obtain ⟨hn, hf⟩ := hb.returned p hp
      exact ⟨hn.trans hgrow.nextNo, hf.mono hn hgrow⟩
    · have hnb : NoBatch s p.1 := by
        have := hg ci hci
        rwa [if_pos hv] at this
      have hbut := hnb.flushedBut hacc p.2
      rw [St.pending, pendingIn_of_some hci, hv] at hbut
      exact ⟨hno.trans_le hgrow.nextNo, hbut.flushed.mono hno.le hgrow⟩
    · obtain ⟨hn, hf⟩ := hb.woken hc
      exact ⟨hn.trans hgrow.nextNo, hf.mono hn hgrow⟩
  · rcases step_waiting h hc with hc | ⟨-, hc, hw⟩ | ⟨hfalse, -⟩
    · obtain ⟨hn, hf⟩ := hb.woken hc
      exact ⟨hn.trans hgrow.nextNo, hf.mono hn hgrow⟩
    · exact ⟨(hb.asleep hc).1.trans hgrow.nextNo, hw.flushed hacc hb hg h hc⟩
    · exact absurd hfalse (by simp)
  · rcases step_waiting h hc with hc | ⟨htrue, -⟩ | ⟨-, hno, rfl, ci, hci, hv⟩
    · obtain ⟨hn, hf⟩ := hb.asleep hc
      refine ⟨hn.trans hgrow.nextNo, fun i hi => ?_⟩
      rcases step_busy h hi with ⟨hi, hkeep⟩ | ⟨now, random, queue, rfl, hq, hholds⟩
      · exact (hf i hi).mono hn hgrow hkeep
      · rw [hholds]
        exact ((hg file queue hq ⟨c, n, hc⟩).flushedBut hacc n).mono hn hgrow fun v hv => .inl hv
    · exact absurd htrue (by simp)
    · refine ⟨hno.trans_le hgrow.nextNo, fun i hi => ?_⟩
      rcases step_busy h hi with ⟨hi, -⟩ | ⟨now, random, queue, hact, -⟩
      · have := hg ci hci
        rw [if_neg hv] at this
        exact absurd hi (this i)
      · exact absurd hact (by simp)

/-- **`FLUSH` is a barrier** in every interleaving that stays out of the races: when a call of
`flush_file` has returned zero, the values that had been accepted for the file before the call
are handed to `rrd_update_r` or were forgotten. -/
theorem flush_returns_written {cfg : Cfg} {now : ℤ} {as : List Act} {t : St}
    (hg : Machine.Guarded (step cfg) (FlushSafe cfg) (St.init cfg now) as)
    (h : run cfg (St.init cfg now) as = some t) :
    ∀ p ∈ t.returned, ∀ v ∈ t.accepted p.1, v.no < p.2 →
      v ∈ t.handed p.1 ∨ v ∈ t.forgotten p.1 := by
  have hinv : t.pipe.Accounted ∧ Barrier t :=
    Machine.run_invariant (fun s => s.pipe.Accounted ∧ Barrier s)
      (fun s a u hga hs hu => ⟨step_accounted hs.1 hu, step_barrier hs.1 hs.2 hga hu⟩)
      hg ⟨init_accounted cfg now, init_barrier cfg now⟩ h
  exact fun p hp => (hinv.2.returned p hp).2

/-! ## Runs -/

/-- No thread is busy with the file of a `FLUSH`, of a `FORGET` or at the head of the queue, and
none at all when old values are flushed. -/
def flushCheck (cfg : Cfg) (s : St) : Act → Bool
  | .flush _ file => !busyWith cfg s file
  | .forget _ file => !busyWith cfg s file
  | .take _ _ _ => s.queue.all fun file => !busyWith cfg s file
  | .flushall _ _ => s.keys.all fun file => !busyWith cfg s file
  | .tick _ => s.keys.all fun file => !busyWith cfg s file
  | .flushExit _ => s.keys.all fun file => !busyWith cfg s file
  | _ => true

theorem NoBatch.of_not_busy {s : St} {file : Text} (h : ∀ i, (s.threads i).file ≠ some file) :
    NoBatch s file := by
  intro i vs hi
  exact h i (by rw [hi]; rfl)

theorem flushCheck_safe {cfg : Cfg} {s : St} {a : Act} (hs : InRange cfg s ∧ Sane s)
    (h : flushCheck cfg s a = true) : FlushSafe cfg s a := by
  have hpurge : ∀ now, (s.keys.all fun file => !busyWith cfg s file) = true →
      ∀ file, purges cfg s now file = true → Awaited s file → NoBatch s file := by
    intro now hall file hp _
    have hmem : file ∈ s.keys := by
      rw [hs.2.mem_keys]
      cases htree : s.tree file with
      | none => simp [purges, htree] at hp
      | some ci => rfl
    exact .of_not_busy (hs.1.not_busy (by simpa using List.all_eq_true.mp hall file hmem))
  cases a with
  | flush c file =>
    have hfree := hs.1.not_busy (by simpa [flushCheck] using h)
    intro ci _
    split_ifs
    · exact .of_not_busy hfree
    · exact hfree
  | forget c file =>
    exact fun _ => .of_not_busy (hs.1.not_busy (by simpa [flushCheck] using h))
  | take i now random =>
    intro file queue hq _
    have hhead := List.all_eq_true.mp h file (by simp [hq])
    exact .of_not_busy (hs.1.not_busy (by simpa using hhead))
  | flushall c now => exact hpurge now h
  | tick now => exact hpurge now h
  | flushExit now => exact hpurge now h
  | _ => trivial

/-- A `FLUSH` that waits for the value before it. -/
def flushLate : List Act :=
  [.read 0 2, .update 0 0 router ["1:1".toList], .insert 0 0, .flush 0 router, .take 0 1 0,
    .write 0, .wrote 0, .broadcast 0, .flushReturn 0]

/-- It returns with the value written. -/
theorem flush_waits : ∃ t,
    run (queueThreads 1 one_pos) (St.init (queueThreads 1 one_pos) 0) flushLate = some t ∧
    t.returned = [(router, 1)] ∧ ∀ p ∈ t.returned, ∀ v ∈ t.accepted p.1, v.no < p.2 →
      v ∈ t.handed p.1 ∨ v ∈ t.forgotten p.1 := by
  have hg : Machine.Guarded (step (queueThreads 1 one_pos)) (FlushSafe (queueThreads 1 one_pos))
      (St.init (queueThreads 1 one_pos) 0) flushLate :=
    Machine.guarded_of_checked (flushCheck (queueThreads 1 one_pos))
      (fun s => InRange (queueThreads 1 one_pos) s ∧ Sane s) (fun s a hs h => flushCheck_safe hs h)
      (fun s a t hs h => ⟨step_inRange hs.1 h, step_sane hs.2 h⟩)
      ⟨init_inRange _ 0, init_sane _ 0⟩ (by decide +kernel)
  obtain ⟨t, ht, hret⟩ : ∃ t, run (queueThreads 1 one_pos) (St.init (queueThreads 1 one_pos) 0)
      flushLate = some t ∧ t.returned = [(router, 1)] :=
    Option.map_eq_some_iff.mp (by decide +kernel)
  exact ⟨t, ht, hret, flush_returns_written hg ht⟩

/-- A `FLUSH` that finds the cache empty while a thread holds the values. -/
def flushEarly : List Act :=
  [.read 0 1, .update 0 0 router ["1:1".toList], .insert 0 0,
    .read 0 1, .update 0 300 router ["2:1".toList], .take 0 300 0,
    .read 0 1, .flush 0 router]

/-- It returns at once, and no value is written. -/
theorem flush_overtakes_batch : ∃ t,
    run (queueThreads 1 one_pos) (St.init (queueThreads 1 one_pos) 0) flushEarly = some t ∧
    t.returned = [(router, 2)] ∧ (t.accepted router).map Val.no = [0, 1] ∧
    t.handed router = [] ∧ t.forgotten router = [] ∧
    ¬ ∀ p ∈ t.returned, ∀ v ∈ t.accepted p.1, v.no < p.2 →
      v ∈ t.handed p.1 ∨ v ∈ t.forgotten p.1 := by
  obtain ⟨t, ht, hrest⟩ : ∃ t, run (queueThreads 1 one_pos) (St.init (queueThreads 1 one_pos) 0)
      flushEarly = some t ∧
      (t.returned, (t.accepted router).map Val.no, t.handed router, t.forgotten router) =
        ([(router, 2)], [0, 1], [], []) :=
    Option.map_eq_some_iff.mp (by decide +kernel)
  simp only [Prod.mk.injEq] at hrest
  obtain ⟨hret, hacc, hhand, hforgot⟩ := hrest
  refine ⟨t, ht, hret, hacc, hhand, hforgot, fun hall => ?_⟩
  obtain ⟨v, hv, hno⟩ : ∃ v ∈ t.accepted router, v.no = 0 :=
    List.mem_map.mp (by rw [hacc]; exact List.mem_cons_self)
  have := hall (router, 2) (by rw [hret]; exact List.mem_cons_self) v hv (by rw [hno]; exact two_pos)
  simp [hhand, hforgot] at this

end Rrdtool.Daemon
