import Rrdtool.Daemon.Journal

/-!
# Replay of commands executed one at a time

The journal keeps the raw `UPDATE` line, and which of its values are accepted is decided again by
the replay. It depends on `last_update_stamp`, which starts from zero again when `flush_old_values`
has freed the item of the file, while the journal has no line for that.

* `replay_pending` — when every `UPDATE` is judged by the stamps of the values accepted since the
  file was last forgotten, a replay gives every file the values that wait for it;
* `replay_loses_value` — an older value that is accepted after the item has been freed is lost.
-/

namespace Rrdtool.Daemon

open Pipeline

/-! ## Commands -/

/-- What the daemon does, one at a time. -/
inductive Command : Type where
  /-- an `UPDATE` -/
  | update (now : ℤ) (random : ℕ) (file : Text) (values : List Text) : Command
  /-- a `FORGET` -/
  | forget (file : Text) : Command
  /-- a queue thread writes the values of the head of the queue -/
  | write (now : ℤ) (random : ℕ) : Command
  /-- `flush_old_values` -/
  | purge (now maxAge : ℤ) : Command
  deriving DecidableEq

/-- The sections of a command, by connection thread 0 and queue thread 0. -/
def perform (cfg : Cfg) (s : St) : Command → Option St
  | .update now random file vs =>
    run cfg s ([.read 0 1, .update 0 now file vs] ++
      if (s.tree file).isSome then [] else [.insert 0 random])
  | .forget file =>
    run cfg s ([.read 0 1, .forget 0 file] ++
      if (s.tree file).isSome then [.forgetNote 0] else [])
  | .write now random => run cfg s [.take 0 now random, .write 0, .wrote 0, .broadcast 0]
  | .purge now maxAge => some (flushOldValues cfg now maxAge s)

/-- The time stamp an `UPDATE` of a file starts from. -/
def stampOf (tree : Text → Option Item) (file : Text) : Dbl :=
  ((tree file).map Item.lastUpdateStamp).getD (.num 0)

/-- The daemon together with the time stamp of the last value that was accepted for each file
since it was forgotten. -/
structure Session : Type where
  /-- the daemon -/
  st : St
  /-- the stamps; zero where there is none -/
  latest : Text → Dbl

/-- The stamps after a command. -/
def Session.note (s : Session) : Command → Text → Dbl
  | .update _ _ file vs =>
    let r := takeValues (stampOf s.st.tree file) (number s.st.nextNo vs)
    if r.1 = [] then s.latest else Function.update s.latest file r.2.1
  | .forget file =>
    if (s.st.tree file).isSome then Function.update s.latest file (.num 0) else s.latest
  | _ => s.latest

/-- One command. -/
def Session.step (cfg : Cfg) (s : Session) (c : Command) : Option Session :=
  (perform cfg s.st c).map fun t => ⟨t, s.note c⟩

/-- The session at the start of the daemon. -/
def Session.init (cfg : Cfg) (now : ℤ) : Session := ⟨St.init cfg now, fun _ => .num 0⟩

/-- **The first value of an `UPDATE`** is as late compared with the item of its file as it is
compared with the last value accepted for the file. The two differ only when the item has been
freed since. -/
def JudgedAlike (s : Session) : Command → Prop
  | .update _ _ file vs => ∀ v ∈ vs.head?, ∀ stamp, valueStamp v = some stamp →
      stamp.le (stampOf s.st.tree file) = stamp.le (s.latest file)
  | _ => True

/-! ## One command -/

variable {cfg : Cfg} {s t : St}

/-- No command is under way. -/
structure Quiet (s : St) : Prop where
  conn : s.conns 0 = ⟨0, .idle⟩
  thread : s.threads 0 = .idle
  wedged : s.wedged = false
  mode : s.mode = .running
  isOpen : s.journalOpen = true

theorem stamp_newItem (tree : Text → Option Item) (file : Text) (now : ℤ) (random : ℕ) :
    ((tree file).getD (newItem cfg now random)).lastUpdateStamp = stampOf tree file := by
  cases h : tree file <;> simp [stampOf, h, newItem, wipeCiValues]

theorem perform_update {now : ℤ} {random : ℕ} {file : Text} {vs : List Text} (hq : Quiet s)
    (h : perform cfg s (.update now random file vs) = some t) :
    t.tree = Function.update s.tree file
        (some (((s.tree file).getD (newItem cfg now random)).add (number s.nextNo vs))) ∧
      t.journalCur = s.journalCur ++ [.update file (number s.nextNo vs)] ∧ Quiet t := by
  have hready : ∀ s' : St, s'.conns 0 = ⟨1, .idle⟩ → s'.ready 0 = true := by
    intro s' hs'
    simp [St.ready, hs']
  cases hf : s.tree file with
  | none =>
    simp [perform, run, hf, Machine.run_cons, step, hq.mode, hq.conn, stepUpdate, hready,
      hq.wedged, stepInsert, enter] at h
    subst h
    refine ⟨?_, ?_, ?_⟩
    · simp [proceed, enterValues, insertItem, journalWrite]
    · simp [proceed, enterValues, insertItem, journalWrite, hq.isOpen]
    · exact ⟨by simp [proceed, enterValues, insertItem, journalWrite], hq.thread, rfl, rfl,
        hq.isOpen⟩
  | some ci =>
    simp [perform, run, hf, Machine.run_cons, step, hq.mode, hq.conn, stepUpdate, hready,
      hq.wedged, enter] at h
    subst h
    refine ⟨rfl, ?_, ?_⟩
    · simp [enterValues, journalWrite, hq.isOpen]
    · exact ⟨by simp [enterValues, journalWrite], hq.thread, rfl, rfl, hq.isOpen⟩

/-- The handler of an idle connection thread is not woken. -/
theorem wake_idle {files : List Text} {conns : ℕ → Conn} {c n : ℕ} (h : conns c = ⟨n, .idle⟩) :
    wake files conns c = ⟨n, .idle⟩ := by
  simp [wake, h]

theorem perform_forget {file : Text} (hq : Quiet s) (h : perform cfg s (.forget file) = some t) :
    Quiet t ∧ (((s.tree file).isSome = true ∧ t.tree = Function.update s.tree file none ∧
        t.journalCur = s.journalCur ++ [.forget file]) ∨
      ((s.tree file).isSome = false ∧ t.tree = s.tree ∧ t.journalCur = s.journalCur)) := by
  have hready : ∀ s' : St, s'.conns 0 = ⟨1, .idle⟩ → s'.ready 0 = true := by
    intro s' hs'
    simp [St.ready, hs']
  cases hf : s.tree file with
  | none =>
    simp [perform, run, hf, Machine.run_cons, step, hq.mode, hq.conn, stepForget, hready,
      hq.wedged, enter] at h
    subst h
    exact ⟨⟨by simp, hq.thread, rfl, rfl, hq.isOpen⟩, .inr ⟨rfl, rfl, rfl⟩⟩
  | some ci =>
    simp [perform, run, hf, Machine.run_cons, step, hq.mode, hq.conn, stepForget, hready,
      hq.wedged, enter, forgetItem, wake, proceed] at h
    subst h
    refine ⟨⟨by simp [journalWrite, wake], hq.thread, rfl, rfl, hq.isOpen⟩, .inl ⟨rfl, rfl, ?_⟩⟩
    simp [journalWrite, hq.isOpen]

theorem perform_write {now : ℤ} {random : ℕ} (hq : Quiet s)
    (h : perform cfg s (.write now random) = some t) :
    Quiet t ∧ ∃ file ci, s.tree file = some ci ∧
      t.tree = Function.update s.tree file (some (wipeCiValues cfg now random ci)) ∧
      t.journalCur = s.journalCur ++ [.wrote file] := by
  obtain ⟨u, hu, h⟩ := Machine.run_cons_eq_some.mp h
  cases Step.of_step hu with
  | @take _ _ _ file queue ci hi _ hw hqueue hci =>
    simp [Machine.run_cons, step, detach, journalWrite, hq.wedged, hq.isOpen] at h
    subst h
    refine ⟨⟨?_, by simp, rfl, hq.mode, rfl⟩, file, ci, hci, rfl, rfl⟩
    exact wake_idle hq.conn

/-- **The value loop looks at the old stamp once**: judged alike, the same values are taken, and
the stamps agree from there on. -/
theorem takeValues_congr {a b : Dbl} {vs : List Val}
    (h : ∀ v ∈ vs.head?, ∀ stamp, valueStamp v.text = some stamp → stamp.le a = stamp.le b) :
    (takeValues a vs).1 = (takeValues b vs).1 ∧
      (takeValues b vs).2.1 = if (takeValues a vs).1 = [] then b else (takeValues a vs).2.1 := by
  cases vs with
  | nil => simp [takeValues]
  | cons v vs =>
    cases hs : valueStamp v.text with
    | none => simp [takeValues, hs]
    | some stamp =>
      have hle := h v rfl stamp hs
      cases hb : stamp.le b with
      | true => simp [takeValues, hs, hle, hb]
      | false => simp [takeValues, hs, hle, hb]

theorem head?_number {no : ℕ} {vs : List Text} {v : Val} (h : v ∈ (number no vs).head?) :
    v.text ∈ vs.head? := by
  cases vs with
  | nil => exact absurd h (by simp [number])
  | cons t vs =>
    obtain rfl : (⟨no, t⟩ : Val) = v := by simpa [number] using h
    rfl

/-- **A replay of the journal** gives every file the values that wait for it, and judges the next
ones by the latest stamps. -/
structure Faithful (s : Session) (tree : Text → Option Item) : Prop where
  pending : ∀ f, pendingIn tree f = s.st.pending f
  stamp : ∀ f, stampOf tree f = s.latest f

theorem Faithful.update {s : Session} {t : St} {tree : Text → Option Item} {now now' : ℤ}
    {random random' : ℕ} {file : Text} {vs : List Text} (h : Faithful s tree)
    (hj : JudgedAlike s (.update now random file vs))
    (ht : t.tree = Function.update s.st.tree file (some
      (((s.st.tree file).getD (newItem cfg now random)).add (number s.st.nextNo vs)))) :
    Faithful ⟨t, s.note (.update now random file vs)⟩
      (replayLine cfg now' random' tree (.update file (number s.st.nextNo vs))) := by
  obtain ⟨hvals, hlast⟩ := @takeValues_congr (stampOf s.st.tree file) (stampOf tree file)
    (number s.st.nextNo vs) fun v hv stamp hs => by
      rw [h.stamp]
      exact hj v.text (head?_number hv) stamp hs
  constructor
  · intro f
    simp only [replayLine, St.pending, ht, pendingIn_update, Option.map_some, Option.getD_some,
      Item.add, getD_newItem_values, stamp_newItem, hvals]
    by_cases hf : f = file
    · subst hf
      rw [Function.update_self, Function.update_self, h.pending]
    · rw [Function.update_of_ne hf, Function.update_of_ne hf, h.pending]
  · intro f
    by_cases hf : f = file
    · subst hf
      have hnew : stampOf (replayLine cfg now' random' tree (.update f (number s.st.nextNo vs))) f =
          (takeValues (stampOf tree f) (number s.st.nextNo vs)).2.1 := by
        have hitem : ((tree f).getD (newItem cfg now' random')).lastUpdateStamp = stampOf tree f :=
          stamp_newItem tree f now' random'
        rw [← hitem]
        simp [stampOf, replayLine, Item.add]
      rw [hnew, hlast, h.stamp]
      simp only [Session.note]
      split_ifs
      · rfl
      · rw [Function.update_self]
    · have hold : stampOf (replayLine cfg now' random' tree (.update file (number s.st.nextNo vs))) f =
          stampOf tree f := by
        simp [stampOf, replayLine, hf]
      rw [hold, h.stamp]
      simp only [Session.note]
      split_ifs
      · rfl
      · rw [Function.update_of_ne hf]

theorem Faithful.forget {s : Session} {t : St} {tree : Text → Option Item} {now' : ℤ}
    {random' : ℕ} {file : Text} (h : Faithful s tree) (hf : (s.st.tree file).isSome = true)
    (ht : t.tree = Function.update s.st.tree file none) :
    Faithful ⟨t, s.note (.forget file)⟩ (replayLine cfg now' random' tree (.forget file)) := by
  constructor
  · intro f
    simp only [replayLine, St.pending, ht, pendingIn_update]
    by_cases hff : f = file
    · subst hff
      rw [Function.update_self, Function.update_self]
    · rw [Function.update_of_ne hff, Function.update_of_ne hff, h.pending]
  · intro f
    simp only [Session.note, hf, if_true]
    by_cases hff : f = file
    · subst hff
      simp [stampOf, replayLine]
    · rw [Function.update_of_ne hff, ← h.stamp f]
      simp [stampOf, replayLine, hff]

theorem Faithful.write {s : Session} {t : St} {tree : Text → Option Item} {now now' : ℤ}
    {random random' : ℕ} {file : Text} {ci : Item} (h : Faithful s tree)
    (ht : t.tree = Function.update s.st.tree file (some (wipeCiValues cfg now random ci))) :
    Faithful ⟨t, s.latest⟩ (replayLine cfg now' random' tree (.wrote file)) := by
  constructor
  · intro f
    simp only [replayLine, St.pending, ht, pendingIn_update]
    by_cases hff : f = file
    · subst hff
      rw [Function.update_self, Function.update_self]
      cases tree f <;> simp [wipeCiValues]
    · rw [Function.update_of_ne hff, Function.update_of_ne hff, h.pending]
  · intro f
    rw [← h.stamp f]
    by_cases hff : f = file
    · subst hff
      simp only [stampOf, replayLine, Function.update_self, Option.map_map]
      rfl
    · simp [stampOf, replayLine, hff]

theorem Faithful.purge {s : Session} {tree : Text → Option Item} (h : Faithful s tree)
    (now maxAge : ℤ) : Faithful ⟨flushOldValues cfg now maxAge s.st, s.latest⟩ tree :=
  ⟨fun f => (h.pending f).trans (congrFun (flushOldValues_pending now maxAge).symm f), h.stamp⟩

/-- **One command.** -/
theorem step_faithful {s t : Session} {c : Command} (now : ℤ) (random : ℕ → ℕ)
    (hj : JudgedAlike s c)
    (hs : Quiet s.st ∧ Faithful s (replay cfg now random s.st.journalCur))
    (h : s.step cfg c = some t) :
    Quiet t.st ∧ Faithful t (replay cfg now random t.st.journalCur) := by
  obtain ⟨hq, hf⟩ := hs
  obtain ⟨u, hu, rfl⟩ := Option.map_eq_some_iff.mp h
  cases c with
  | update now' random' file vs =>
    obtain ⟨htree, hjournal, hquiet⟩ := perform_update hq hu
    refine ⟨hquiet, ?_⟩
    rw [hjournal, replay_append]
    exact hf.update hj htree
  | forget file =>
    obtain ⟨hquiet, ⟨hsome, htree, hjournal⟩ | ⟨hnone, htree, hjournal⟩⟩ := perform_forget hq hu
    · refine ⟨hquiet, ?_⟩
      rw [hjournal, replay_append]
      exact hf.forget hsome htree
    · refine ⟨hquiet, ?_⟩
      have hnote : s.note (.forget file) = s.latest := by simp [Session.note, hnone]
      rw [hjournal, hnote]
      exact ⟨fun f => by rw [St.pending, htree]; exact hf.pending f, hf.stamp⟩
  | write now' random' =>
    obtain ⟨hquiet, file, ci, -, htree, hjournal⟩ := perform_write hq hu
    refine ⟨hquiet, ?_⟩
    rw [hjournal, replay_append]
    exact hf.write htree
  | purge now' maxAge =>
    obtain rfl := Option.some.inj hu
    exact ⟨⟨wake_idle hq.conn, hq.thread, hq.wedged, hq.mode, hq.isOpen⟩, hf.purge now' maxAge⟩

/-! ## Runs -/

/-- **Replay fidelity**: whatever commands were executed one at a time, with every `UPDATE` judged
alike, a replay of the journal gives every file the values that wait for it in the cache. -/
theorem replay_pending (hjournal : cfg.journal = true) {start : ℤ} {cs : List Command}
    {t : Session} (hg : Machine.Guarded (Session.step cfg) JudgedAlike (.init cfg start) cs)
    (h : Machine.run (Session.step cfg) (.init cfg start) cs = some t) (now : ℤ) (random : ℕ → ℕ)
    (file : Text) :
    pendingIn (replay cfg now random t.st.journalCur) file = t.st.pending file := by
  have hinit : Quiet (Session.init cfg start).st ∧ Faithful (.init cfg start)
      (replay cfg now random (Session.init cfg start).st.journalCur) :=
    ⟨⟨rfl, rfl, rfl, rfl, hjournal⟩, fun _ => rfl, fun _ => rfl⟩
  have hrun := Machine.run_invariant
    (fun s => Quiet s.st ∧ Faithful s (replay cfg now random s.st.journalCur))
    (fun s c t hj hs hstep => step_faithful now random hj hs hstep) hg hinit h
  exact hrun.2.pending file

/-- `JudgedAlike`, evaluated. -/
def judgedCheck (s : Session) : Command → Bool
  | .update _ _ file vs => (vs.head?.bind valueStamp).all fun stamp =>
      stamp.le (stampOf s.st.tree file) == stamp.le (s.latest file)
  | _ => true

theorem judgedCheck_alike {s : Session} {c : Command} (h : judgedCheck s c = true) :
    JudgedAlike s c := by
  cases c with
  | update now random file vs =>
    intro v hv stamp hs
    have hbind : vs.head?.bind valueStamp = some stamp := by
      rw [Option.mem_def.mp hv]
      exact hs
    simpa [judgedCheck, hbind] using h
  | _ => trivial

/-- A value is written, its item is freed, and a later one comes in. -/
def laterAfterPurge : List Command :=
  [.update 0 0 router ["100:1".toList], .purge 1 (-1), .write 2 0, .purge 3602 300,
    .update 3603 0 router ["150:1".toList]]

/-- It is judged alike, so the replay has it. -/
theorem replay_later_value : ∃ t,
    Machine.run (Session.step journaled) (.init journaled 0) laterAfterPurge = some t ∧
      (t.st.pending router).map Val.text = ["150:1".toList] ∧
      pendingIn (replay journaled 4000 (fun _ => 0) t.st.journalCur) router =
        t.st.pending router := by
  have hg : Machine.Guarded (Session.step journaled) JudgedAlike (.init journaled 0)
      laterAfterPurge :=
    Machine.guarded_of_checked judgedCheck (fun _ => True) (fun _ _ _ h => judgedCheck_alike h)
      (fun _ _ _ _ _ => trivial) trivial (by decide +kernel)
  obtain ⟨t, ht, hpend⟩ : ∃ t,
      Machine.run (Session.step journaled) (.init journaled 0) laterAfterPurge = some t ∧
      (t.st.pending router).map Val.text = ["150:1".toList] :=
    Option.map_eq_some_iff.mp (by decide +kernel)
  exact ⟨t, ht, hpend, replay_pending rfl hg ht 4000 (fun _ => 0) router⟩

/-- The same with an earlier value. -/
def earlierAfterPurge : List Command :=
  [.update 0 0 router ["100:1".toList], .purge 1 (-1), .write 2 0, .purge 3602 300,
    .update 3603 0 router ["50:1".toList]]

/-- **A value that the daemon has accepted** is refused by the replay. -/
theorem replay_loses_value : ∃ t,
    Machine.run (Session.step journaled) (.init journaled 0) earlierAfterPurge = some t ∧
      (t.st.pending router).map Val.text = ["50:1".toList] ∧
      pendingIn (replay journaled 4000 (fun _ => 0) t.st.journalCur) router = [] := by
  obtain ⟨t, ht, hrest⟩ : ∃ t,
      Machine.run (Session.step journaled) (.init journaled 0) earlierAfterPurge = some t ∧
      ((t.st.pending router).map Val.text,
        pendingIn (replay journaled 4000 (fun _ => 0) t.st.journalCur) router) =
        (["50:1".toList], []) := Option.map_eq_some_iff.mp (by decide +kernel)
  obtain ⟨hpend, hreplay⟩ := Prod.mk.inj hrest
  exact ⟨t, ht, hpend, hreplay⟩

end Rrdtool.Daemon
