import Rrdtool.Daemon.Model

/-!
# The flow of values through the daemon

Seen from its data, the daemon is a `Pipe`: values are accepted for a file, wait in its cache
item, are detached by a queue thread and handed to `rrd_update_r`, or are forgotten. `opOf`
names the operation a section performs and `step_pipe` says that it performs this and no
other one. The invariants that only depend on the flow come from the general theory.
-/

namespace Rrdtool.Daemon

open Pipeline

/-- The values that wait in the cache items of a tree. -/
def pendingIn (tree : Text → Option Item) (file : Text) : List Val :=
  ((tree file).map Item.values).getD []

/-- The values that wait for a file. -/
abbrev St.pending (s : St) : Text → List Val := pendingIn s.tree

/-- The batch a queue thread has detached and not yet handed over. -/
def QThread.batch : QThread → Option (Text × List Val)
  | .detached file vs => some (file, vs)
  | _ => none

@[simp] theorem batch_detached (file : Text) (vs : List Val) :
    (QThread.detached file vs).batch = some (file, vs) := rfl

@[simp] theorem batch_updated (file : Text) : (QThread.updated file).batch = none := rfl

theorem batch_eq_some {q : QThread} {file : Text} {vs : List Val} :
    q.batch = some (file, vs) ↔ q = .detached file vs := by
  cases q <;> simp [QThread.batch]

/-- The daemon as a pipe. -/
def St.pipe (s : St) : Pipe Text ℕ Val where
  accepted := s.accepted
  pending := pendingIn s.tree
  taken := fun i => (s.threads i).batch
  finished := s.handed
  dropped := s.forgotten

/-- The values that an `UPDATE` of a file adds. -/
def St.adds (cfg : Cfg) (s : St) (now : ℤ) (random : ℕ) (file : Text) (vs : List Text) : List Val :=
  (takeValues ((s.tree file).getD (newItem cfg now random)).lastUpdateStamp
    (number s.nextNo vs)).1

/-- What a section does to the data. -/
def opOf (cfg : Cfg) (s : St) : Act → Transfer Text ℕ Val
  | .update _ now file vs =>
    if (s.tree file).isSome then .accept file (s.adds cfg now 0 file vs) else .stay
  | .insert c random =>
    match (s.conns c).handler with
    | .missed file vs now =>
      if s.mode = .shutdown then .stay else .accept file (s.adds cfg now random file vs)
    | _ => .stay
  | .forget _ file => if (s.tree file).isSome then .drop file else .stay
  | .take i _ _ =>
    match s.queue with
    | file :: _ => .take i file
    | [] => .stay
  | .write i => .finish i
  | _ => .stay

section Pending

variable {cfg : Cfg} {s : St}

theorem pendingIn_of_some {tree : Text → Option Item} {file : Text} {ci : Item}
    (h : tree file = some ci) : pendingIn tree file = ci.values := by
  simp [pendingIn, h]

theorem pendingIn_of_none {tree : Text → Option Item} {file : Text} (h : tree file = none) :
    pendingIn tree file = [] := by
  simp [pendingIn, h]

/-- Replacing one item changes what waits for its file. -/
theorem pendingIn_update (tree : Text → Option Item) (file : Text) (ci : Option Item) :
    pendingIn (Function.update tree file ci) =
      Function.update (pendingIn tree) file ((ci.map Item.values).getD []) := by
  funext f
  by_cases hf : f = file
  · subst hf
    simp [pendingIn]
  · simp [pendingIn, hf]

/-- The items that are freed hold no value. -/
theorem purges_pending {now : ℤ} {file : Text} (h : purges cfg s now file = true) :
    s.pending file = [] := by
  simp only [purges] at h
  split at h
  · exact absurd h (by simp)
  · rename_i ci hci
    simp only [Bool.and_eq_true, decide_eq_true_eq] at h
    exact (pendingIn_of_some hci).trans h.1.2

/-- `flush_old_values` moves no value. -/
theorem flushOldValues_pending (now maxAge : ℤ) :
    (flushOldValues cfg now maxAge s).pending = s.pending := by
  funext f
  by_cases hf : f ∈ s.keys.filter (purges cfg s now)
  · have hnone : (flushOldValues cfg now maxAge s).tree f = none := if_pos hf
    rw [St.pending, pendingIn_of_none hnone, purges_pending (List.mem_filter.mp hf).2]
  · have hsame : (flushOldValues cfg now maxAge s).tree f = s.tree f := if_neg hf
    simp only [pendingIn, hsame]

theorem flushOldValues_pipe (now maxAge : ℤ) : (flushOldValues cfg now maxAge s).pipe = s.pipe := by
  simp only [St.pipe, flushOldValues_pending]
  rfl

/-- The values an `UPDATE` enters are accepted. -/
theorem enterValues_pipe (cfg : Cfg) (now : ℤ) {file : Text} {vs : List Text} {ci : Item}
    (hci : ci.values = pendingIn s.tree file) :
    s.pipe.apply (.accept file (takeValues ci.lastUpdateStamp (number s.nextNo vs)).1) =
      some (enterValues cfg now file vs ci s).pipe := by
  simp only [Pipe.apply, St.pipe, enterValues, journalWrite, pendingIn_update, Option.map_some,
    Option.getD_some, Item.add, hci]

/-- The item an `UPDATE` ends up with holds what waits for its file. -/
theorem getD_newItem_values (cfg : Cfg) (tree : Text → Option Item) (file : Text) (now : ℤ)
    (random : ℕ) : ((tree file).getD (newItem cfg now random)).values = pendingIn tree file := by
  cases h : tree file with
  | none => rw [pendingIn_of_none h]; rfl
  | some ci => rw [pendingIn_of_some h]; rfl

/-- Putting an item into the tree that holds what waits for its file moves no value. -/
theorem insertItem_pipe {file : Text} {ci : Item} (hci : ci.values = pendingIn s.tree file) :
    (insertItem file ci s).pipe = s.pipe := by
  simp only [St.pipe, insertItem, pendingIn_update, Option.map_some, Option.getD_some, hci,
    Function.update_eq_self]

/-- The batches of the queue threads after one of them has moved on. -/
theorem batch_update (threads : ℕ → QThread) (i : ℕ) (q : QThread) :
    (fun j => (Function.update threads i q j).batch) =
      Function.update (fun j => (threads j).batch) i q.batch := by
  funext j
  by_cases hj : j = i
  · subst hj
    simp
  · simp [hj]

/-- A thread that holds no batch before and after moves no value. -/
theorem batch_update_eq (threads : ℕ → QThread) (i : ℕ) (q : QThread)
    (h : q.batch = (threads i).batch) :
    (fun j => (Function.update threads i q j).batch) = fun j => (threads j).batch := by
  rw [batch_update, h]
  exact Function.update_eq_self i fun j => (threads j).batch

end Pending

/-- **The daemon refines the pipe.** -/
theorem step_pipe {cfg : Cfg} {s t : St} {a : Act} (h : step cfg s a = some t) :
    s.pipe.apply (opOf cfg s a) = some t.pipe := by
  cases Step.of_step h with
  | read => rfl
  | updateMiss _ _ hnone =>
    simp only [opOf, hnone]
    rfl
  | @updateHit c now file vs ci _ _ hci =>
    simp only [opOf, hci, Option.isSome_some, if_true, St.adds, Option.getD_some]
    exact enterValues_pipe cfg now (pendingIn_of_some hci).symm
  | insertLate hh _ hm =>
    simp only [opOf, hh, hm, if_true]
    exact congrArg some (insertItem_pipe (getD_newItem_values ..)).symm
  | @insert c random file vs now hh _ hm =>
    have hci := getD_newItem_values cfg s.tree file now random
    have hpipe := insertItem_pipe hci
    simp only [opOf, hh, hm, if_false, St.adds]
    rw [← hpipe]
    exact enterValues_pipe cfg now (hci.trans (congrFun (congrArg Pipe.pending hpipe.symm) file))
  | forgetMiss _ _ hnone =>
    simp only [opOf, hnone]
    rfl
  | forget _ _ hci =>
    simp only [opOf, hci, Option.isSome_some, if_true, Pipe.apply, St.pipe, forgetItem,
      pendingIn_update, pendingIn_of_some hci]
    rfl
  | forgetNote => rfl
  | flushMiss => rfl
  | flushEmpty => rfl
  | flushWait => rfl
  | flushReturn => rfl
  | @flushall c now => exact congrArg some (flushOldValues_pipe now (-1)).symm
  | @tick now => exact congrArg some (flushOldValues_pipe now cfg.writeInterval).symm
  | rotateClose => rfl
  | rotateSwap => rfl
  | rotateUnlink => rfl
  | signal => rfl
  | @flushExit now =>
    split_ifs
    · exact congrArg some (flushOldValues_pipe now (-1)).symm
    · rfl
  | @take i now random file queue ci hi _ _ hq hci =>
    have hidle : s.pipe.taken i = none := by
      simp only [St.pipe, hi, QThread.batch]
    simp only [opOf, hq, Pipe.apply, hidle]
    simp only [St.pipe, detach, pendingIn_update, pendingIn_of_some hci, wipeCiValues,
      Option.map_some, Option.getD_some, batch_update, batch_detached]
  | @write i file vs hi =>
    have htaken : s.pipe.taken i = some (file, vs) := by
      simp only [St.pipe, hi, QThread.batch]
    simp only [opOf, Pipe.apply, htaken]
    simp only [St.pipe, batch_update, batch_updated]
  | @wrote i file hi =>
    have hb := batch_update_eq s.threads i (.noted file) (by rw [hi]; rfl)
    simp only [opOf, Pipe.apply, St.pipe, journalWrite, hb]
  | @broadcast i file hi =>
    have hb := batch_update_eq s.threads i .idle (by rw [hi]; rfl)
    simp only [opOf, Pipe.apply, St.pipe, hb]
  | @exit i hi =>
    have hb := batch_update_eq s.threads i .exited (by rw [hi]; rfl)
    simp only [opOf, Pipe.apply, St.pipe, hb]

/-- No run loses a value. -/
theorem step_accounted {cfg : Cfg} {s t : St} {a : Act} (hs : s.pipe.Accounted)
    (h : step cfg s a = some t) : t.pipe.Accounted :=
  hs.apply (step_pipe h)

theorem init_accounted (cfg : Cfg) (now : ℤ) : (St.init cfg now).pipe.Accounted := by
  intro f v hv
  exact absurd hv (by simp [St.pipe, St.init])

/-! ## Numbers -/

/-- What the value loop adds is a prefix of the values of the command. -/
theorem takeValues_isPrefixOf (last : Dbl) (vs : List Val) : (takeValues last vs).1 <+: vs := by
  induction vs generalizing last with
  | nil => exact List.prefix_rfl
  | cons v vs ih =>
    simp only [takeValues]
    split
    · exact List.nil_prefix
    · split_ifs
      · exact List.nil_prefix
      · exact (List.prefix_cons_inj v).mpr (ih _)

theorem mem_number {no : ℕ} {ts : List Text} {v : Val} (h : v ∈ number no ts) :
    no ≤ v.no ∧ v.no < no + ts.length := by
  induction ts generalizing no with
  | nil => exact absurd h (by simp [number])
  | cons t ts ih =>
    rw [List.length_cons]
    rcases List.mem_cons.mp h with rfl | h
    · exact ⟨le_rfl, Nat.lt_add_of_pos_right (Nat.succ_pos _)⟩
    · have := ih h
      omega

theorem number_pairwise (no : ℕ) (ts : List Text) :
    (number no ts).Pairwise fun v w => v.no < w.no := by
  induction ts generalizing no with
  | nil => exact .nil
  | cons t ts ih =>
    exact List.pairwise_cons.mpr ⟨fun v hv => (mem_number hv).1, ih (no + 1)⟩

/-- A section accepts nothing, or the beginning of the values of one command. -/
theorem step_accepts {cfg : Cfg} {s t : St} {a : Act} (h : step cfg s a = some t) :
    (t.accepted = s.accepted ∧ t.nextNo = s.nextNo) ∨
      ∃ file vs last, t.accepted = Function.update s.accepted file
          (s.accepted file ++ (takeValues last (number s.nextNo vs)).1) ∧
        t.nextNo = s.nextNo + vs.length := by
  cases Step.of_step h with
  | @updateHit c now file vs ci => exact .inr ⟨file, vs, ci.lastUpdateStamp, rfl, rfl⟩
  | @insert c random file vs now =>
    exact .inr ⟨file, vs, ((s.tree file).getD (newItem cfg now random)).lastUpdateStamp, rfl, rfl⟩
  | flushExit => split_ifs <;> exact .inl ⟨rfl, rfl⟩
  | _ => exact .inl ⟨rfl, rfl⟩

/-- Values are numbered in the order in which they are accepted. -/
structure Numbered (s : St) : Prop where
  pairwise : ∀ f, (s.accepted f).Pairwise fun v w => v.no < w.no
  lt : ∀ f, ∀ v ∈ s.accepted f, v.no < s.nextNo

theorem init_numbered (cfg : Cfg) (now : ℤ) : Numbered (St.init cfg now) :=
  ⟨fun _ => .nil, fun _ _ hv => absurd hv (by simp [St.init])⟩

theorem step_numbered {cfg : Cfg} {s t : St} {a : Act} (hs : Numbered s)
    (h : step cfg s a = some t) : Numbered t := by
  rcases step_accepts h with ⟨hacc, hno⟩ | ⟨file, vs, last, hacc, hno⟩
  · exact ⟨fun f => by rw [hacc]; exact hs.pairwise f,
      fun f v hv => by rw [hacc] at hv; rw [hno]; exact hs.lt f v hv⟩
  have hpre := takeValues_isPrefixOf last (number s.nextNo vs)
  have hnew : ∀ v ∈ (takeValues last (number s.nextNo vs)).1,
      s.nextNo ≤ v.no ∧ v.no < s.nextNo + vs.length :=
    fun v hv => mem_number (hpre.subset hv)
  refine ⟨fun f => ?_, fun f v hv => ?_⟩
  · rw [hacc]
    by_cases hf : f = file
    · subst hf
      rw [Function.update_self, List.pairwise_append]
      refine ⟨hs.pairwise f, (number_pairwise s.nextNo vs).sublist hpre.sublist, fun v hv w hw => ?_⟩
      exact (hs.lt f v hv).trans_le (hnew w hw).1
    · rw [Function.update_of_ne hf]
      exact hs.pairwise f
  · rw [hno]
    rw [hacc] at hv
    by_cases hf : f = file
    · subst hf
      rw [Function.update_self] at hv
      rcases List.mem_append.mp hv with hv | hv
      · exact (hs.lt f v hv).trans_le (Nat.le_add_right _ _)
      · exact (hnew v hv).2
    · rw [Function.update_of_ne hf] at hv
      exact (hs.lt f v hv).trans_le (Nat.le_add_right _ _)

/-! ## Tree and queue -/

/-- The keys of the tree are its files, and the queue holds files with values, once each. -/
structure Sane (s : St) : Prop where
  keys_nodup : s.keys.Nodup
  mem_keys : ∀ f, f ∈ s.keys ↔ (s.tree f).isSome = true
  queue_nodup : s.queue.Nodup
  queue_pending : ∀ f, f ∈ s.queue → s.pending f ≠ []

theorem init_sane (cfg : Cfg) (now : ℤ) : Sane (St.init cfg now) :=
  ⟨.nil, fun _ => by simp [St.init], .nil, fun _ hf => absurd hf (by simp [St.init])⟩

/-- A section that does not touch the tree or the queue. -/
theorem Sane.congr {s t : St} (hs : Sane s) (htree : t.tree = s.tree) (hkeys : t.keys = s.keys)
    (hqueue : t.queue = s.queue) : Sane t := by
  refine ⟨hkeys ▸ hs.keys_nodup, fun f => ?_, hqueue ▸ hs.queue_nodup, fun f hf => ?_⟩
  · rw [hkeys, htree]
    exact hs.mem_keys f
  · rw [hqueue] at hf
    rw [St.pending, htree]
    exact hs.queue_pending f hf

theorem Sane.insertItem {s : St} (hs : Sane s) {file : Text} {ci : Item}
    (hci : ci.values = pendingIn s.tree file) : Sane (insertItem file ci s) := by
  have hpend : (Daemon.insertItem file ci s).pending = s.pending :=
    congrArg Pipe.pending (insertItem_pipe hci)
  refine ⟨?_, fun f => ?_, hs.queue_nodup, fun f hf => ?_⟩
  · simp only [Daemon.insertItem]
    split_ifs with h
    · exact hs.keys_nodup
    · rw [(List.perm_orderedInsert _ _ _).nodup_iff, List.nodup_cons]
      exact ⟨fun hmem => h ((hs.mem_keys file).mp hmem), hs.keys_nodup⟩
  · by_cases hf : f = file
    · subst hf
      simp only [Daemon.insertItem, Function.update_self, Option.isSome_some, iff_true]
      split_ifs with h
      · exact (hs.mem_keys f).mpr h
      · exact (List.mem_orderedInsert _).mpr (.inl rfl)
    · simp only [Daemon.insertItem, Function.update_of_ne hf]
      split_ifs
      · exact hs.mem_keys f
      · rw [List.mem_orderedInsert, ← hs.mem_keys f]
        simp [hf]
  · rw [hpend]
    exact hs.queue_pending f hf

theorem enterValues_queue (cfg : Cfg) (now : ℤ) (file : Text) (vs : List Text) (ci : Item) (s : St) :
    (enterValues cfg now file vs ci s).queue =
      if (takeValues ci.lastUpdateStamp (number s.nextNo vs)).2.2 ∧
          cfg.writeInterval ≤ now - (ci.add (number s.nextNo vs)).lastFlushTime ∧
          file ∉ s.queue ∧ (ci.add (number s.nextNo vs)).values ≠ []
      then s.queue ++ [file] else s.queue := rfl

/-- An `UPDATE` puts its file into the queue only with values. -/
theorem Sane.enterValues {s : St} (hs : Sane s) (cfg : Cfg) (now : ℤ) {file : Text}
    (vs : List Text) {ci : Item} (hci : s.tree file = some ci) :
    Sane (enterValues cfg now file vs ci s) := by
  have hvals : (ci.add (number s.nextNo vs)).values =
      s.pending file ++ (takeValues ci.lastUpdateStamp (number s.nextNo vs)).1 := by
    rw [St.pending, pendingIn_of_some hci]
    rfl
  have hpend : (Daemon.enterValues cfg now file vs ci s).pending =
      Function.update s.pending file (ci.add (number s.nextNo vs)).values :=
    pendingIn_update _ _ _
  have hkeep : ∀ f, f ∈ s.queue → (Daemon.enterValues cfg now file vs ci s).pending f ≠ [] := by
    intro f hf
    rw [hpend]
    by_cases hff : f = file
    · subst hff
      rw [Function.update_self, hvals]
      simp [hs.queue_pending f hf]
    · rw [Function.update_of_ne hff]
      exact hs.queue_pending f hf
  have hqueue : (Daemon.enterValues cfg now file vs ci s).queue = s.queue ∨
      (Daemon.enterValues cfg now file vs ci s).queue = s.queue ++ [file] ∧ file ∉ s.queue ∧
        (ci.add (number s.nextNo vs)).values ≠ [] := by
    rw [enterValues_queue]
    split_ifs with h
    · exact .inr ⟨rfl, h.2.2⟩
    · exact .inl rfl
  refine ⟨hs.keys_nodup, fun f => ?_, ?_, fun f hf => ?_⟩
  · refine (hs.mem_keys f).trans ?_
    by_cases hff : f = file
    · subst hff
      simp [Daemon.enterValues, hci]
    · simp [Daemon.enterValues, journalWrite, hff]
  · rcases hqueue with hq | ⟨hq, hnot, -⟩ <;> rw [hq]
    · exact hs.queue_nodup
    · exact List.nodup_append.mpr ⟨hs.queue_nodup, List.nodup_singleton _, fun a ha b hb => by
        rw [List.mem_singleton.mp hb]
        rintro rfl
        exact hnot ha⟩
  · rcases hqueue with hq | ⟨hq, -, hne⟩ <;> rw [hq] at hf
    · exact hkeep f hf
    · rcases List.mem_append.mp hf with hf | hf
      · exact hkeep f hf
      · obtain rfl := List.mem_singleton.mp hf
        rw [hpend, Function.update_self]
        exact hne

theorem Sane.flushOldValues {s : St} (hs : Sane s) (cfg : Cfg) (now maxAge : ℤ) :
    Sane (flushOldValues cfg now maxAge s) := by
  refine ⟨hs.keys_nodup.filter _, fun f => ?_, ?_, fun f hf => ?_⟩
  · simp only [Daemon.flushOldValues, List.mem_filter, decide_not, Bool.not_eq_true',
      decide_eq_false_iff_not, hs.mem_keys]
    split_ifs with h
    · simp [h]
    · simp only [h, not_false_eq_true, and_true]
  · refine List.nodup_append.mpr ⟨hs.queue_nodup, hs.keys_nodup.filter _, ?_⟩
    rintro a ha b hb rfl
    have hfl := (List.mem_filter.mp hb).2
    simp only [flushes] at hfl
    split at hfl
    · exact absurd hfl (by simp)
    · simp [ha] at hfl
  · rw [flushOldValues_pending]
    rcases List.mem_append.mp hf with hf | hf
    · exact hs.queue_pending f hf
    · have hfl := (List.mem_filter.mp hf).2
      simp only [flushes] at hfl
      split at hfl
      · exact absurd hfl (by simp)
      · rename_i ci hci
        simp only [Bool.and_eq_true, decide_eq_true_eq] at hfl
        rw [St.pending, pendingIn_of_some hci]
        exact hfl.1.2

theorem Sane.forgetItem {s : St} (hs : Sane s) (c : ℕ) (file : Text) (ci : Item) :
    Sane (forgetItem s c file ci) := by
  refine ⟨hs.keys_nodup.erase _, fun f => ?_, hs.queue_nodup.erase _, fun f hf => ?_⟩
  · by_cases hff : f = file
    · subst hff
      simp [Daemon.forgetItem, hs.keys_nodup.not_mem_erase]
    · simp only [Daemon.forgetItem, Function.update_of_ne hff, ← hs.mem_keys]
      exact List.mem_erase_of_ne hff
  · have hff : f ≠ file := by
      rintro rfl
      exact hs.queue_nodup.not_mem_erase hf
    have hpend : (Daemon.forgetItem s c file ci).pending = Function.update s.pending file [] :=
      pendingIn_update _ _ _
    rw [hpend, Function.update_of_ne hff]
    exact hs.queue_pending f (List.mem_of_mem_erase hf)

theorem Sane.detach {s : St} (hs : Sane s) (cfg : Cfg) (i : ℕ) (now : ℤ) (random : ℕ)
    {file : Text} {queue : List Text} {ci : Item} (hq : s.queue = file :: queue)
    (hci : s.tree file = some ci) : Sane (detach cfg s i now random file queue ci) := by
  have hnodup := hs.queue_nodup
  rw [hq, List.nodup_cons] at hnodup
  refine ⟨hs.keys_nodup, fun f => ?_, hnodup.2, fun f hf => ?_⟩
  · refine (hs.mem_keys f).trans ?_
    by_cases hff : f = file
    · subst hff
      simp [Daemon.detach, hci]
    · simp [Daemon.detach, hff]
  · have hff : f ≠ file := by
      rintro rfl
      exact hnodup.1 hf
    have hpend : (Daemon.detach cfg s i now random file queue ci).pending =
        Function.update s.pending file [] := pendingIn_update _ _ _
    rw [hpend, Function.update_of_ne hff]
    exact hs.queue_pending f (by rw [hq]; exact List.mem_cons_of_mem _ hf)

theorem Sane.flushWait {s t : St} (hs : Sane s) {file : Text} {ci : Item}
    (hci : s.tree file = some ci) (hv : ci.values ≠ []) (htree : t.tree = s.tree)
    (hkeys : t.keys = s.keys) (hqueue : t.queue = enqueueHead file s.queue) : Sane t := by
  have hmem : ∀ f, f ∈ enqueueHead file s.queue → f = file ∨ f ∈ s.queue := by
    intro f hf
    simp only [enqueueHead] at hf
    split_ifs at hf
    · exact .inr hf
    · exact (List.mem_cons.mp hf).imp id List.mem_of_mem_erase
  refine ⟨hkeys ▸ hs.keys_nodup, fun f => ?_, ?_, fun f hf => ?_⟩
  · rw [hkeys, htree]
    exact hs.mem_keys f
  · rw [hqueue, enqueueHead]
    split_ifs
    · exact hs.queue_nodup
    · exact List.nodup_cons.mpr ⟨hs.queue_nodup.not_mem_erase, hs.queue_nodup.erase _⟩
  · rw [hqueue] at hf
    rw [St.pending, htree]
    rcases hmem f hf with rfl | hf
    · rw [pendingIn_of_some hci]
      exact hv
    · exact hs.queue_pending f hf

/-- **Tree and queue stay sane.** -/
theorem step_sane {cfg : Cfg} {s t : St} {a : Act} (hs : Sane s) (h : step cfg s a = some t) :
    Sane t := by
  cases Step.of_step h with
  | @updateHit c now file vs ci _ _ hci =>
    exact (hs.enterValues cfg now vs hci).congr rfl rfl rfl
  | insertLate => exact (hs.insertItem (getD_newItem_values ..)).congr rfl rfl rfl
  | @insert c random file vs now =>
    have hi := hs.insertItem (getD_newItem_values cfg s.tree file now random)
    exact (hi.enterValues cfg now vs (Function.update_self ..)).congr rfl rfl rfl
  | @forget c file ci => exact hs.forgetItem c file ci
  | flushWait _ _ hci hv => exact hs.flushWait hci hv rfl rfl rfl
  | @flushall c now => exact (hs.flushOldValues cfg now (-1)).congr rfl rfl rfl
  | @tick now => exact (hs.flushOldValues cfg now cfg.writeInterval).congr rfl rfl rfl
  | @flushExit now =>
    split_ifs
    · exact (hs.flushOldValues cfg now (-1)).congr rfl rfl rfl
    · exact hs.congr rfl rfl rfl
  | @take i now random file queue ci _ _ _ hq hci => exact hs.detach cfg i now random hq hci
  | _ => exact hs.congr rfl rfl rfl

/-! ## Queue threads -/

/-- The file a queue thread is busy with, up to its broadcast. -/
def QThread.file : QThread → Option Text
  | .detached file _ => some file
  | .updated file => some file
  | .noted file => some file
  | _ => none

/-- Only the threads that were started are busy. -/
def InRange (cfg : Cfg) (s : St) : Prop :=
  ∀ i file, (s.threads i).file = some file → i < cfg.queueThreads

theorem init_inRange (cfg : Cfg) (now : ℤ) : InRange cfg (St.init cfg now) :=
  fun _ _ h => absurd h (by simp [St.init, QThread.file])

/-- A thread that was busy, or is not busy any more, has moved on. -/
theorem InRange.update {cfg : Cfg} {s : St} (hs : InRange cfg s) {t : St} {i : ℕ} {q : QThread}
    (hq : q.file = none ∨ q.file = (s.threads i).file)
    (ht : t.threads = Function.update s.threads i q) : InRange cfg t := by
  intro j file hj
  rw [ht] at hj
  by_cases hji : j = i
  · subst hji
    rw [Function.update_self] at hj
    rcases hq with hq | hq
    · simp [hq] at hj
    · exact hs j file (hq ▸ hj)
  · rw [Function.update_of_ne hji] at hj
    exact hs j file hj

theorem step_inRange {cfg : Cfg} {s t : St} {a : Act} (hs : InRange cfg s)
    (h : step cfg s a = some t) : InRange cfg t := by
  cases Step.of_step h with
  | flushExit => split_ifs <;> exact hs
  | @take i now random file queue ci _ hlt =>
    intro j f hj
    by_cases hji : j = i
    · rw [hji]
      exact hlt
    · exact hs j f (by simpa [detach, hji] using hj)
  | @write i file vs hi => exact hs.update (q := .updated file) (.inr (by rw [hi]; rfl)) rfl
  | @wrote i file hi => exact hs.update (q := .noted file) (.inr (by rw [hi]; rfl)) rfl
  | broadcast => exact hs.update (q := .idle) (.inl rfl) rfl
  | exit => exact hs.update (q := .exited) (.inl rfl) rfl
  | _ => exact hs

/-- Is a queue thread busy with the file? -/
def busyWith (cfg : Cfg) (s : St) (file : Text) : Bool :=
  (List.range cfg.queueThreads).any fun i => decide ((s.threads i).file = some file)

theorem InRange.not_busy {cfg : Cfg} {s : St} (hs : InRange cfg s) {file : Text}
    (h : busyWith cfg s file = false) (i : ℕ) : (s.threads i).file ≠ some file := by
  intro hi
  have := List.any_eq_false.mp h i (List.mem_range.mpr (hs i file hi))
  simp [hi] at this

end Rrdtool.Daemon
