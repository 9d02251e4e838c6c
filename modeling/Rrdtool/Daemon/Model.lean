import Rrdtool.Lib.CStr
import Rrdtool.Lib.Machine
import Rrdtool.Lib.Pipeline
import Mathlib.Data.List.Sort

/-!
# `rrdcached`

The caching daemon as a transition system. An action is one atomic section of one thread:
what it does under `cache_lock` or `journal_lock`, or one call of `rrd_update_r`. The threads
are the connection threads with their handlers, the flush thread and the queue threads.

Times, random numbers and the texts of commands are parameters of the actions. The numbers of
values and the fields `nextNo`, `accepted`, `handed`, `forgotten` and `returned` are there to
state properties; no step depends on them.
-/

namespace Rrdtool.Daemon

open Pipeline

/-! ## State -/

/-- One value of an `UPDATE` command, numbered in the order of arrival. -/
structure Val : Type where
  /-- the number -/
  no : ℕ
  /-- the text -/
  text : Text
  deriving DecidableEq

/-- `cache_item_t`. `CI_FLAGS_IN_QUEUE` is membership in the queue. -/
structure Item : Type where
  /-- `values` -/
  values : List Val
  /-- `last_flush_time` -/
  lastFlushTime : ℤ
  /-- `last_update_stamp` -/
  lastUpdateStamp : Dbl
  deriving DecidableEq

/-- The variable `state`. -/
inductive Mode : Type where
  /-- normal operation -/
  | running : Mode
  /-- flushing remaining values -/
  | flushing : Mode
  /-- shutting down -/
  | shutdown : Mode
  deriving DecidableEq

/-- A line of the journal. -/
inductive Line : Type where
  /-- `update <file> <values>` -/
  | update : Text → List Val → Line
  /-- `wrote <file>` -/
  | wrote : Text → Line
  /-- `forget <file>` -/
  | forget : Text → Line
  deriving DecidableEq

/-- Where a queue thread is. -/
inductive QThread : Type where
  /-- at the head of its loop -/
  | idle : QThread
  /-- before `rrd_update_r`, with the values it has detached -/
  | detached : Text → List Val → QThread
  /-- before `journal_write("wrote", file)` -/
  | updated : Text → QThread
  /-- before the broadcast -/
  | noted : Text → QThread
  /-- at the end of `queue_thread_main` -/
  | exited : QThread
  deriving DecidableEq

/-- Where the flush thread is. -/
inductive FThread : Type where
  /-- at the head of its loop -/
  | loop : FThread
  /-- before `journal_rotate` -/
  | flushed : FThread
  /-- inside `journal_rotate`, the journal is closed -/
  | closed : FThread
  /-- before `journal_set_remove(old_js)` -/
  | swapped : FThread
  /-- at the end of `flush_thread_main` -/
  | done : FThread
  deriving DecidableEq

/-- Where a connection thread is. -/
inductive Handler : Type where
  /-- between two commands -/
  | idle : Handler
  /-- in `handle_request_update` without the lock: the file was not in the tree -/
  | missed : Text → List Text → ℤ → Handler
  /-- in `handle_request_forget`, before the journal line -/
  | forgot : Text → Handler
  /-- in `flush_file`, waiting; the number of values before the call, and the wake-up -/
  | waiting : Text → ℕ → Bool → Handler
  deriving DecidableEq

/-- A connection thread and the number of commands it has read. -/
structure Conn : Type where
  /-- commands in `rbuf` -/
  buffered : ℕ
  /-- the handler -/
  handler : Handler
  deriving DecidableEq

/-- The options. -/
structure Cfg : Type where
  /-- `config_queue_threads` -/
  queueThreads : ℕ
  /-- `config_write_interval` -/
  writeInterval : ℤ
  /-- `config_flush_interval` -/
  flushInterval : ℤ
  /-- `config_write_jitter` -/
  writeJitter : ℕ
  /-- `config_flush_at_shutdown` -/
  flushAtShutdown : Bool
  /-- is there a `journal_dir`? -/
  journal : Bool
  /-- `Invalid thread count: -t %s` -/
  queueThreads_pos : 0 < queueThreads

/-- The daemon. -/
structure St : Type where
  /-- `state` -/
  mode : Mode
  /-- `cache_tree` -/
  tree : Text → Option Item
  /-- the keys of the tree, in its order -/
  keys : List Text
  /-- the queue, head first -/
  queue : List Text
  /-- the queue threads -/
  threads : ℕ → QThread
  /-- the flush thread -/
  flushThread : FThread
  /-- `next_flush` -/
  nextFlush : ℤ
  /-- the connection threads -/
  conns : ℕ → Conn
  /-- a handler has returned without unlocking `cache_lock` -/
  wedged : Bool
  /-- `journal_fh` is not `NULL` -/
  journalOpen : Bool
  /-- the lines of the files of `journal_cur` -/
  journalCur : List Line
  /-- the lines of the files of `journal_old` -/
  journalOld : List Line
  /-- the lines of the files of `old_js`, until they are unlinked -/
  journalDead : List Line
  /-- the number of the next value -/
  nextNo : ℕ
  /-- the values accepted for each file -/
  accepted : Text → List Val
  /-- the values of the calls of `rrd_update_r` that have returned -/
  handed : Text → List Val
  /-- the values removed by `FORGET` -/
  forgotten : Text → List Val
  /-- the calls of `flush_file` that returned zero: file and number of values before it -/
  returned : List (Text × ℕ)

/-- The daemon after its start at time `now`. -/
def St.init (cfg : Cfg) (now : ℤ) : St where
  mode := .running
  tree := fun _ => none
  keys := []
  queue := []
  threads := fun _ => .idle
  flushThread := .loop
  nextFlush := now + cfg.flushInterval
  conns := fun _ => ⟨0, .idle⟩
  wedged := false
  journalOpen := cfg.journal
  journalCur := []
  journalOld := []
  journalDead := []
  nextNo := 0
  accepted := fun _ => []
  handed := fun _ => []
  forgotten := fun _ => []
  returned := []

/-! ## Sections -/

/-- `wipe_ci_values`; `random` is what `rrd_random` returns. -/
def wipeCiValues (cfg : Cfg) (when_ : ℤ) (random : ℕ) (ci : Item) : Item :=
  { ci with
    values := []
    lastFlushTime := when_ + if 0 < cfg.writeJitter then (random % cfg.writeJitter : ℕ) else 0 }

/-- A new `cache_item_t`. -/
def newItem (cfg : Cfg) (now : ℤ) (random : ℕ) : Item :=
  wipeCiValues cfg now random ⟨[], 0, .num 0⟩

/-- The time stamp of a value; `none` if there is none. -/
def valueStamp (value : Text) : Option Dbl :=
  let conv := CStr.strtod value
  if conv.rest = value then none
  else if conv.rest.head? = some ':' then some conv.value else none

/-- The value loop of `handle_request_update`: the values it adds, the last time stamp, and
whether the loop was left without an error. -/
def takeValues (last : Dbl) : List Val → List Val × Dbl × Bool
  | [] => ([], last, true)
  | v :: vs =>
    match valueStamp v.text with
    | none => ([], last, false)
    | some stamp =>
      if stamp.le last then ([], last, false)
      else
        let r := takeValues stamp vs
        (v :: r.1, r.2)

/-- The item after the value loop. -/
def Item.add (ci : Item) (vs : List Val) : Item :=
  let r := takeValues ci.lastUpdateStamp vs
  { ci with values := ci.values ++ r.1, lastUpdateStamp := r.2.1 }

/-- `enqueue_cache_item(ci, HEAD)`. -/
def enqueueHead (file : Text) (queue : List Text) : List Text :=
  if queue.head? = some file then queue else file :: queue.erase file

/-- `journal_write`; nothing is written while the journal is closed. -/
def journalWrite (line : Line) (s : St) : St :=
  { s with journalCur := if s.journalOpen then s.journalCur ++ [line] else s.journalCur }

/-- `pthread_cond_broadcast(&ci->flushed)` on the items of some files. -/
def wake (files : List Text) (conns : ℕ → Conn) : ℕ → Conn := fun c =>
  match (conns c).handler with
  | .waiting file since _ =>
    if file ∈ files then { conns c with handler := .waiting file since true } else conns c
  | _ => conns c

/-- The values of a command, numbered. -/
def number (no : ℕ) : List Text → List Val
  | [] => []
  | t :: ts => ⟨no, t⟩ :: number (no + 1) ts

/-- The end of `handle_request_update`, once the item is known. -/
def enterValues (cfg : Cfg) (now : ℤ) (file : Text) (vs : List Text) (ci : Item) (s : St) : St :=
  let vals := number s.nextNo vs
  let s := journalWrite (.update file vals) s
  let r := takeValues ci.lastUpdateStamp vals
  let ci := ci.add vals
  { s with
    tree := Function.update s.tree file (some ci)
    queue :=
      if r.2.2 ∧ cfg.writeInterval ≤ now - ci.lastFlushTime ∧ file ∉ s.queue ∧ ci.values ≠ []
      then s.queue ++ [file] else s.queue
    nextNo := s.nextNo + vs.length
    accepted := Function.update s.accepted file (s.accepted file ++ r.1) }

/-- `strcmp(a, b) <= 0`. -/
def strcmpLe (a b : Text) : Bool :=
  match a, b with
  | [], _ => true
  | _ :: _, [] => false
  | c :: a, d :: b => c.toNat < d.toNat || (c.toNat = d.toNat && strcmpLe a b)

/-- `tree_callback_flush`: is the file to be put into the queue? -/
def flushes (s : St) (absTimeout : ℤ) (file : Text) : Bool :=
  match s.tree file with
  | none => false
  | some ci => decide (file ∉ s.queue) && decide (ci.values ≠ []) &&
      (decide (ci.lastFlushTime ≤ absTimeout) || decide (s.mode ≠ .running))

/-- `tree_callback_flush`: is the item to be removed? -/
def purges (cfg : Cfg) (s : St) (now : ℤ) (file : Text) : Bool :=
  match s.tree file with
  | none => false
  | some ci => decide (file ∉ s.queue) && decide (ci.values = []) &&
      decide (cfg.flushInterval ≤ now - ci.lastFlushTime)

/-- `flush_old_values`: every node of the tree is looked at, then the items that were not
touched for long are freed. -/
def flushOldValues (cfg : Cfg) (now maxAge : ℤ) (s : St) : St :=
  let absTimeout := if 0 < maxAge then now - maxAge else now + 2 * cfg.writeJitter + 1
  let purged := s.keys.filter (purges cfg s now)
  { s with
    queue := s.queue ++ s.keys.filter (flushes s absTimeout)
    tree := fun f => if f ∈ purged then none else s.tree f
    keys := s.keys.filter fun f => f ∉ purged
    conns := wake purged s.conns }

/-- A connection thread starts on its next command, in a handler. -/
def enter (c : ℕ) (h : Handler) (s : St) : St :=
  { s with conns := Function.update s.conns c ⟨(s.conns c).buffered - 1, h⟩ }

/-- A connection thread goes on in another handler state. -/
def proceed (c : ℕ) (h : Handler) (s : St) : St :=
  { s with conns := Function.update s.conns c { s.conns c with handler := h } }

/-- Has a connection thread a command to start on? -/
def St.ready (s : St) (c : ℕ) : Bool :=
  decide ((s.conns c).handler = .idle) && decide (0 < (s.conns c).buffered)

/-! ## Actions -/

/-- The atomic sections. -/
inductive Act : Type where
  /-- connection thread `c` reads commands -/
  | read (c n : ℕ) : Act
  /-- `handle_request_update`, the first section -/
  | update (c : ℕ) (now : ℤ) (file : Text) (values : List Text) : Act
  /-- `handle_request_update`, the second section, for a file that was not in the tree -/
  | insert (c random : ℕ) : Act
  /-- `handle_request_forget` under the lock -/
  | forget (c : ℕ) (file : Text) : Act
  /-- `journal_write("forget", file)` -/
  | forgetNote (c : ℕ) : Act
  /-- `flush_file` up to the wait -/
  | flush (c : ℕ) (file : Text) : Act
  /-- `flush_file` after the wait -/
  | flushReturn (c : ℕ) : Act
  /-- `handle_request_flushall` -/
  | flushall (c : ℕ) (now : ℤ) : Act
  /-- the flush thread flushes old values -/
  | tick (now : ℤ) : Act
  /-- `journal_rotate`: `journal_close` -/
  | rotateClose : Act
  /-- `journal_rotate`: the sets are rotated and a new file is opened -/
  | rotateSwap : Act
  /-- `journal_rotate`: `journal_set_remove(old_js)` -/
  | rotateUnlink : Act
  /-- a termination signal -/
  | signal : Act
  /-- the end of `flush_thread_main` -/
  | flushExit (now : ℤ) : Act
  /-- queue thread `i` detaches the values of the head of the queue -/
  | take (i : ℕ) (now : ℤ) (random : ℕ) : Act
  /-- `rrd_update_r` in queue thread `i` -/
  | write (i : ℕ) : Act
  /-- `journal_write("wrote", file)` in queue thread `i` -/
  | wrote (i : ℕ) : Act
  /-- the broadcast of queue thread `i` -/
  | broadcast (i : ℕ) : Act
  /-- the end of `queue_thread_main` in queue thread `i` -/
  | exit (i : ℕ) : Act
  deriving DecidableEq

/-- `handle_request_update`, the first section. -/
def stepUpdate (cfg : Cfg) (s : St) (c : ℕ) (now : ℤ) (file : Text) (vs : List Text) :
    Option St :=
  if s.ready c ∧ !s.wedged then
    match s.tree file with
    | none => some (enter c (.missed file vs now) s)
    | some ci => some (enter c .idle (enterValues cfg now file vs ci s))
  else none

/-- `g_tree_replace`: the item is in the tree from now on. -/
def insertItem (file : Text) (ci : Item) (s : St) : St :=
  { s with
    tree := Function.update s.tree file (some ci)
    keys := if (s.tree file).isSome then s.keys
      else s.keys.orderedInsert (fun a b => strcmpLe a b = true) file }

/-- `handle_request_update`, the second section: another `UPDATE` might have added the file in
the meantime, and the state may have changed. -/
def stepInsert (cfg : Cfg) (s : St) (c random : ℕ) : Option St :=
  match (s.conns c).handler with
  | .missed file vs now =>
    if s.wedged then none
    else
      let ci := (s.tree file).getD (newItem cfg now random)
      let t := insertItem file ci s
      -- the connection is closed, but `cache_lock` stays locked
      if s.mode = .shutdown then
        some { t with conns := Function.update t.conns c ⟨0, .idle⟩, wedged := true }
      else some (proceed c .idle (enterValues cfg now file vs ci t))
  | _ => none

/-- The tree, the queue and the waiting threads after a `FORGET`: `free_cache_item` takes the
item out of the queue and wakes whoever waits for it. -/
def forgetItem (s : St) (c : ℕ) (file : Text) (ci : Item) : St :=
  let t := enter c (.forgot file) s
  { t with
    tree := Function.update s.tree file none
    keys := s.keys.erase file
    queue := s.queue.erase file
    forgotten := Function.update s.forgotten file (s.forgotten file ++ ci.values)
    conns := wake [file] t.conns }

/-- `handle_request_forget` under the lock. -/
def stepForget (s : St) (c : ℕ) (file : Text) : Option St :=
  if s.ready c ∧ !s.wedged then
    match s.tree file with
    | none => some (enter c .idle s)
    | some ci => some (forgetItem s c file ci)
  else none

/-- `flush_file` up to the wait. -/
def stepFlush (s : St) (c : ℕ) (file : Text) : Option St :=
  if s.ready c ∧ !s.wedged then
    match s.tree file with
    | none => some (enter c .idle s)
    | some ci =>
      if ci.values = [] then
        some { enter c .idle s with returned := (file, s.nextNo) :: s.returned }
      else
        some { enter c (.waiting file s.nextNo false) s with queue := enqueueHead file s.queue }
  else none

/-- Queue thread `i` has the values of the item, and the item is wiped and off the queue. -/
def detach (cfg : Cfg) (s : St) (i : ℕ) (now : ℤ) (random : ℕ) (file : Text) (queue : List Text)
    (ci : Item) : St :=
  { s with
    tree := Function.update s.tree file (some (wipeCiValues cfg now random ci))
    queue := queue
    threads := Function.update s.threads i (.detached file ci.values) }

/-- A queue thread detaches the values of the head of the queue. A thread that has waited for
the queue does not look at `state` again. -/
def stepTake (cfg : Cfg) (s : St) (i : ℕ) (now : ℤ) (random : ℕ) : Option St :=
  if s.threads i = .idle ∧ i < cfg.queueThreads ∧ !s.wedged then
    match s.queue with
    | [] => none
    | file :: queue =>
      match s.tree file with
      | none => none
      | some ci => some (detach cfg s i now random file queue ci)
  else none

/-- **One atomic section.** -/
def step (cfg : Cfg) (s : St) : Act → Option St
  | .read c n =>
    if s.mode = .running ∧ s.conns c = ⟨0, .idle⟩ then
      some { s with conns := Function.update s.conns c ⟨n, .idle⟩ }
    else none
  | .update c now file vs => stepUpdate cfg s c now file vs
  | .insert c random => stepInsert cfg s c random
  | .forget c file => stepForget s c file
  | .forgetNote c =>
    match (s.conns c).handler with
    | .forgot file => some (proceed c .idle (journalWrite (.forget file) s))
    | _ => none
  | .flush c file => stepFlush s c file
  | .flushReturn c =>
    match (s.conns c).handler with
    | .waiting file since true =>
      if s.wedged then none
      else some { proceed c .idle s with returned := (file, since) :: s.returned }
    | _ => none
  | .flushall c now =>
    if s.ready c ∧ !s.wedged then some (enter c .idle (flushOldValues cfg now (-1) s)) else none
  | .tick now =>
    if s.flushThread = .loop ∧ s.mode = .running ∧ s.nextFlush ≤ now ∧ !s.wedged then
      some { flushOldValues cfg now cfg.writeInterval s with
        nextFlush := now + cfg.flushInterval
        flushThread := if cfg.journal then .flushed else .loop }
    else none
  | .rotateClose =>
    if s.flushThread = .flushed then
      some { s with flushThread := .closed, journalOpen := false } else none
  | .rotateSwap =>
    if s.flushThread = .closed then
      some { s with
        flushThread := .swapped, journalOpen := true
        journalDead := s.journalOld, journalOld := s.journalCur, journalCur := [] }
    else none
  | .rotateUnlink =>
    if s.flushThread = .swapped then
      some { s with flushThread := .loop, journalDead := [] } else none
  | .signal => some { s with mode := .flushing }
  | .flushExit now =>
    if s.flushThread = .loop ∧ s.mode ≠ .running ∧ !s.wedged then
      let t := if cfg.flushAtShutdown then flushOldValues cfg now (-1) s else s
      some { t with mode := .shutdown, flushThread := .done }
    else none
  | .take i now random => stepTake cfg s i now random
  | .write i =>
    match s.threads i with
    | .detached file vs => some { s with
        threads := Function.update s.threads i (.updated file)
        handed := Function.update s.handed file (s.handed file ++ vs) }
    | _ => none
  | .wrote i =>
    match s.threads i with
    | .updated file => some { journalWrite (.wrote file) s with
        threads := Function.update s.threads i (.noted file) }
    | _ => none
  | .broadcast i =>
    match s.threads i with
    | .noted file =>
      if s.wedged then none
      else some { s with
        threads := Function.update s.threads i .idle
        conns := if (s.tree file).isSome then wake [file] s.conns else s.conns }
    | _ => none
  | .exit i =>
    if s.threads i = .idle ∧ s.mode = .shutdown ∧ (s.queue = [] ∨ !cfg.flushAtShutdown) ∧
        !s.wedged then
      some { s with threads := Function.update s.threads i .exited } else none

/-- An interleaving. -/
abbrev run (cfg : Cfg) : St → List Act → Option St := Machine.run (step cfg)

/-- A file name. -/
def router : Text := "router.rrd".toList

/-- `-t n` and the defaults. -/
def queueThreads (n : ℕ) (hn : 0 < n) : Cfg := ⟨n, 300, 3600, 0, false, false, hn⟩

/-! ## Inversion -/

/-- **What a section can do**, with the condition each of its branches is taken under. -/
inductive Step (cfg : Cfg) (s : St) : Act → St → Prop where
  | read {c n : ℕ} : s.mode = .running → s.conns c = ⟨0, .idle⟩ →
      Step cfg s (.read c n) { s with conns := Function.update s.conns c ⟨n, .idle⟩ }
  | updateMiss {c : ℕ} {now : ℤ} {file : Text} {vs : List Text} : s.ready c = true →
      s.wedged = false → s.tree file = none →
      Step cfg s (.update c now file vs) (enter c (.missed file vs now) s)
  | updateHit {c : ℕ} {now : ℤ} {file : Text} {vs : List Text} {ci : Item} : s.ready c = true →
      s.wedged = false → s.tree file = some ci →
      Step cfg s (.update c now file vs) (enter c .idle (enterValues cfg now file vs ci s))
  | insertLate {c random : ℕ} {file : Text} {vs : List Text} {now : ℤ} :
      (s.conns c).handler = .missed file vs now → s.wedged = false → s.mode = .shutdown →
      Step cfg s (.insert c random)
        { insertItem file ((s.tree file).getD (newItem cfg now random)) s with
          conns := Function.update s.conns c ⟨0, .idle⟩, wedged := true }
  | insert {c random : ℕ} {file : Text} {vs : List Text} {now : ℤ} :
      (s.conns c).handler = .missed file vs now → s.wedged = false → s.mode ≠ .shutdown →
      Step cfg s (.insert c random) (proceed c .idle (enterValues cfg now file vs
        ((s.tree file).getD (newItem cfg now random))
        (insertItem file ((s.tree file).getD (newItem cfg now random)) s)))
  | forgetMiss {c : ℕ} {file : Text} : s.ready c = true → s.wedged = false →
      s.tree file = none → Step cfg s (.forget c file) (enter c .idle s)
  | forget {c : ℕ} {file : Text} {ci : Item} : s.ready c = true → s.wedged = false →
      s.tree file = some ci → Step cfg s (.forget c file) (forgetItem s c file ci)
  | forgetNote {c : ℕ} {file : Text} : (s.conns c).handler = .forgot file →
      Step cfg s (.forgetNote c) (proceed c .idle (journalWrite (.forget file) s))
  | flushMiss {c : ℕ} {file : Text} : s.ready c = true → s.wedged = false →
      s.tree file = none → Step cfg s (.flush c file) (enter c .idle s)
  | flushEmpty {c : ℕ} {file : Text} {ci : Item} : s.ready c = true → s.wedged = false →
      s.tree file = some ci → ci.values = [] → Step cfg s (.flush c file)
        { enter c .idle s with returned := (file, s.nextNo) :: s.returned }
  | flushWait {c : ℕ} {file : Text} {ci : Item} : s.ready c = true → s.wedged = false →
      s.tree file = some ci → ci.values ≠ [] → Step cfg s (.flush c file)
        { enter c (.waiting file s.nextNo false) s with queue := enqueueHead file s.queue }
  | flushReturn {c : ℕ} {file : Text} {since : ℕ} :
      (s.conns c).handler = .waiting file since true → s.wedged = false →
      Step cfg s (.flushReturn c)
        { proceed c .idle s with returned := (file, since) :: s.returned }
  | flushall {c : ℕ} {now : ℤ} : s.ready c = true → s.wedged = false →
      Step cfg s (.flushall c now) (enter c .idle (flushOldValues cfg now (-1) s))
  | tick {now : ℤ} : s.flushThread = .loop → s.mode = .running → s.nextFlush ≤ now →
      s.wedged = false → Step cfg s (.tick now)
        { flushOldValues cfg now cfg.writeInterval s with
          nextFlush := now + cfg.flushInterval
          flushThread := if cfg.journal then .flushed else .loop }
  | rotateClose : s.flushThread = .flushed →
      Step cfg s .rotateClose { s with flushThread := .closed, journalOpen := false }
  | rotateSwap : s.flushThread = .closed → Step cfg s .rotateSwap
      { s with
        flushThread := .swapped, journalOpen := true
        journalDead := s.journalOld, journalOld := s.journalCur, journalCur := [] }
  | rotateUnlink : s.flushThread = .swapped →
      Step cfg s .rotateUnlink { s with flushThread := .loop, journalDead := [] }
  | signal : Step cfg s .signal { s with mode := .flushing }
  | flushExit {now : ℤ} : s.flushThread = .loop → s.mode ≠ .running → s.wedged = false →
      Step cfg s (.flushExit now)
        { (if cfg.flushAtShutdown then flushOldValues cfg now (-1) s else s) with
          mode := .shutdown, flushThread := .done }
  | take {i : ℕ} {now : ℤ} {random : ℕ} {file : Text} {queue : List Text} {ci : Item} :
      s.threads i = .idle → i < cfg.queueThreads → s.wedged = false → s.queue = file :: queue →
      s.tree file = some ci →
      Step cfg s (.take i now random) (detach cfg s i now random file queue ci)
  | write {i : ℕ} {file : Text} {vs : List Val} : s.threads i = .detached file vs →
      Step cfg s (.write i)
        { s with
          threads := Function.update s.threads i (.updated file)
          handed := Function.update s.handed file (s.handed file ++ vs) }
  | wrote {i : ℕ} {file : Text} : s.threads i = .updated file → Step cfg s (.wrote i)
      { journalWrite (.wrote file) s with threads := Function.update s.threads i (.noted file) }
  | broadcast {i : ℕ} {file : Text} : s.threads i = .noted file → s.wedged = false →
      Step cfg s (.broadcast i)
        { s with
          threads := Function.update s.threads i .idle
          conns := if (s.tree file).isSome then wake [file] s.conns else s.conns }
  | exit {i : ℕ} : s.threads i = .idle → s.mode = .shutdown →
      (s.queue = [] ∨ cfg.flushAtShutdown = false) → s.wedged = false →
      Step cfg s (.exit i) { s with threads := Function.update s.threads i .exited }

/-- Every section is one of these. -/
theorem Step.of_step {cfg : Cfg} {s t : St} {a : Act} (h : step cfg s a = some t) :
    Step cfg s a t := by
  cases a with
  | read c n =>
    simp only [step, Option.ite_none_right_eq_some, Option.some.injEq] at h
    obtain ⟨⟨hm, hc⟩, rfl⟩ := h
    exact .read hm hc
  | update c now file vs =>
    simp only [step, stepUpdate, Option.ite_none_right_eq_some, Bool.not_eq_true'] at h
    obtain ⟨⟨hr, hw⟩, h⟩ := h
    split at h <;> obtain rfl := Option.some.inj h
    · exact .updateMiss hr hw ‹_›
    · exact .updateHit hr hw ‹_›
  | insert c random =>
    simp only [step, stepInsert] at h
    split at h
    · rename_i file vs now hh
      split_ifs at h with hw hm <;> obtain rfl := Option.some.inj h
      · exact .insertLate hh (by simpa using hw) hm
      · exact .insert hh (by simpa using hw) hm
    · exact absurd h (by simp)
  | forget c file =>
    simp only [step, stepForget, Option.ite_none_right_eq_some, Bool.not_eq_true'] at h
    obtain ⟨⟨hr, hw⟩, h⟩ := h
    split at h <;> obtain rfl := Option.some.inj h
    · exact .forgetMiss hr hw ‹_›
    · exact .forget hr hw ‹_›
  | forgetNote c =>
    simp only [step] at h
    split at h
    · obtain rfl := Option.some.inj h
      exact .forgetNote ‹_›
    · exact absurd h (by simp)
  | flush c file =>
    simp only [step, stepFlush, Option.ite_none_right_eq_some, Bool.not_eq_true'] at h
    obtain ⟨⟨hr, hw⟩, h⟩ := h
    split at h
    · obtain rfl := Option.some.inj h
      exact .flushMiss hr hw ‹_›
    · split_ifs at h with hv <;> obtain rfl := Option.some.inj h
      · exact .flushEmpty hr hw ‹_› hv
      · exact .flushWait hr hw ‹_› hv
  | flushReturn c =>
    simp only [step] at h
    split at h
    · rename_i hh
      split_ifs at h with hw
      obtain rfl := Option.some.inj h
      exact .flushReturn hh (by simpa using hw)
    · exact absurd h (by simp)
  | flushall c now =>
    simp only [step, Option.ite_none_right_eq_some, Bool.not_eq_true', Option.some.injEq] at h
    obtain ⟨⟨hr, hw⟩, rfl⟩ := h
    exact .flushall hr hw
  | tick now =>
    simp only [step, Option.ite_none_right_eq_some, Bool.not_eq_true', Option.some.injEq] at h
    obtain ⟨⟨hl, hm, hn, hw⟩, rfl⟩ := h
    exact .tick hl hm hn hw
  | rotateClose =>
    simp only [step, Option.ite_none_right_eq_some, Option.some.injEq] at h
    obtain ⟨hf, rfl⟩ := h
    exact .rotateClose hf
  | rotateSwap =>
    simp only [step, Option.ite_none_right_eq_some, Option.some.injEq] at h
    obtain ⟨hf, rfl⟩ := h
    exact .rotateSwap hf
  | rotateUnlink =>
    simp only [step, Option.ite_none_right_eq_some, Option.some.injEq] at h
    obtain ⟨hf, rfl⟩ := h
    exact .rotateUnlink hf
  | signal =>
    obtain rfl := Option.some.inj h
    exact .signal
  | flushExit now =>
    simp only [step, Option.ite_none_right_eq_some, Bool.not_eq_true', Option.some.injEq] at h
    obtain ⟨⟨hl, hm, hw⟩, rfl⟩ := h
    exact .flushExit hl hm hw
  | take i now random =>
    simp only [step, stepTake, Option.ite_none_right_eq_some, Bool.not_eq_true'] at h
    obtain ⟨⟨hi, hlt, hw⟩, h⟩ := h
    split at h
    · exact absurd h (by simp)
    · split at h
      · exact absurd h (by simp)
      · obtain rfl := Option.some.inj h
        exact .take hi hlt hw ‹_› ‹_›
  | write i =>
    simp only [step] at h
    split at h
    · obtain rfl := Option.some.inj h
      exact .write ‹_›
    · exact absurd h (by simp)
  | wrote i =>
    simp only [step] at h
    split at h
    · obtain rfl := Option.some.inj h
      exact .wrote ‹_›
    · exact absurd h (by simp)
  | broadcast i =>
    simp only [step] at h
    split at h
    · rename_i hi
      simp only [Option.ite_none_left_eq_some, Bool.not_eq_true, Option.some.injEq] at h
      obtain ⟨hw, rfl⟩ := h
      exact .broadcast hi hw
    · exact absurd h (by simp)
  | exit i =>
    simp only [step, Option.ite_none_right_eq_some, Bool.not_eq_true', Option.some.injEq] at h
    obtain ⟨⟨hi, hm, hq, hw⟩, rfl⟩ := h
    exact .exit hi hm hq hw

end Rrdtool.Daemon
