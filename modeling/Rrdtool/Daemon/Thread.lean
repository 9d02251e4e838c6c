import Rrdtool.Lib.Dll
import Rrdtool.Lib.Wp
import Rrdtool.Daemon.Model
import Rrdtool.Daemon.Request

/-!
# The threads of `rrdcached`, with their locks and pointers

The functions of the daemon as programs of one thread. The cache is kept as the code keeps it:
items in memory, linked into the queue by `prev` and `next`, with a flag and a counter. A program
takes and releases mutexes; when it gets `cache_lock`, other threads may have changed the
cache. A failed assertion, a write through a dangling pointer and a mutex that is locked twice are
faults.

What the system answers (`stat`, `malloc`, the time, random numbers) is a parameter, and may be
another answer each time `cache_lock` has been taken. The counters that only `STATS` reports are
left out, and so are the texts of the journal.
-/

namespace Rrdtool.Daemon

/-! ## State -/

/-- `cache_item_t` without its links. -/
structure CacheItem : Type where
  /-- `file` -/
  file : Text
  /-- `values` and `values_num` -/
  values : List Text
  /-- `last_flush_time` -/
  lastFlushTime : ℤ
  /-- `last_update_stamp` -/
  lastUpdateStamp : Dbl
  /-- `CI_FLAGS_IN_TREE` -/
  inTree : Bool
  /-- `CI_FLAGS_IN_QUEUE` -/
  inQueue : Bool
  deriving DecidableEq

/-- What `cache_lock` protects. -/
structure Cache : Type where
  /-- the items, `cache_queue_head` and `cache_queue_tail` -/
  mem : Dll.Mem ℕ CacheItem
  /-- an address from which on there is no item -/
  brk : ℕ
  /-- `cache_tree` -/
  tree : Text → Option ℕ
  /-- the keys of the tree, in its order -/
  keys : List Text
  /-- `stats_queue_length` -/
  queueLength : ℕ
  /-- `state` -/
  mode : Mode

/-- The mutexes. -/
inductive Lock : Type where
  /-- `cache_lock` -/
  | cache : Lock
  /-- `stats_lock` -/
  | stats : Lock
  /-- `journal_lock` -/
  | journal : Lock
  deriving DecidableEq

/-- What can go wrong. -/
inductive Fault : Type where
  /-- an assertion fails -/
  | assertion : Fault
  /-- a pointer to no item is followed -/
  | dangling : Fault
  /-- a mutex is locked by the thread that holds it -/
  | deadlock : Fault
  /-- a mutex is unlocked by a thread that does not hold it -/
  | notHeld : Fault
  /-- a loop does not end -/
  | hang : Fault
  deriving DecidableEq

/-- What `stat` says about a file. -/
inductive Stat : Type where
  /-- it fails with `ENOENT` -/
  | noEntry : Stat
  /-- it fails with another error -/
  | failed : Stat
  /-- no regular file -/
  | other : Stat
  /-- a regular file -/
  | regular : Stat
  deriving DecidableEq

/-- The answers of the system. -/
structure Sys : Type where
  /-- `stat` -/
  stat : Text → Stat
  /-- `access(file, R_OK|W_OK) == 0` -/
  access : Text → Bool
  /-- does `malloc` succeed? -/
  malloc : Bool
  /-- does `strdup` succeed? -/
  strdup : Bool
  /-- does `rrd_add_strdup` succeed, for each value of a command? -/
  addStrdup : ℕ → Bool
  /-- does `rrd_add_ptr` succeed, for each key? -/
  addPtr : Text → Bool
  /-- `rrd_random` -/
  random : ℕ
  /-- `time(NULL)` -/
  time : ℤ
  /-- `journal_fh` is not `NULL` -/
  journalFh : Bool
  /-- does `fprintf` write to the journal? -/
  fprintf : Bool
  /-- is a response sent? -/
  send : Bool
  /-- does `calloc` succeed, in `journal_init`? -/
  calloc : Bool
  /-- the entries of the journal directory, unless `opendir` fails -/
  opendir : Option (List Text)
  /-- the text of a journal file that may be replayed -/
  journalFile : Text → Option Text
  /-- does `journal_new_file` create a file? -/
  newFile : Bool

/-- The responses. -/
inductive Reply : Type where
  | usage (cmd : Cmd) | unknownCommand (cmd : Text) | permissionDenied | cantUse (cmd : Text)
  | eacces | enoent | noSuchFile (file : Text) | statFailed (file : Text) | notRegular (file : Text)
  | cannotAccess (file : Text) | mallocFailed | strdupFailed | noTimestamp (value : Text)
  | illegalUpdate (stamp last : Dbl) | noValues | enqueued (n : ℕ) | flushed (file : Text)
  | nothingToFlush (file : Text) | startedFlush | pending (values : List Text)
  | queue (files : List (ℕ × Text)) | gone | stats (length nodes : ℕ) | help | alreadyInBatch
  | goAhead | batchErrors
  deriving DecidableEq

/-- A thread and its surroundings. -/
structure World : Type where
  /-- the cache, as the thread sees it -/
  cache : Cache
  /-- the mutexes the thread holds -/
  held : Lock → Bool
  /-- what other threads do to the cache until `cache_lock` is taken for the `n`-th time -/
  others : ℕ → Cache → Cache
  /-- the number of times `cache_lock` was taken -/
  acq : ℕ
  /-- the answers after that -/
  sys : ℕ → Sys
  /-- the responses that were sent -/
  replies : List Reply

/-- A program of one thread. -/
abbrev Thr : Type → Type := StateT World (Except Fault)

/-- The options. -/
structure Opts : Type where
  /-- intervals, jitter and the rest -/
  cfg : Cfg
  /-- `config_base_dir` -/
  baseDir : Option Text
  /-- `config_write_base_only` -/
  writeBaseOnly : Bool
  /-- `journal_dir` -/
  journalDir : Option Text

/-! ## Primitives -/

/-- `pthread_mutex_lock` -/
def lock (l : Lock) : Thr Unit := do
  let w ← get
  if w.held l then throw .deadlock
  else match l with
    | .cache => set { w with
        held := Function.update w.held .cache true
        cache := w.others w.acq w.cache
        acq := w.acq + 1 }
    | l => set { w with held := Function.update w.held l true }

/-- `pthread_mutex_unlock` -/
def unlock (l : Lock) : Thr Unit := do
  let w ← get
  if w.held l then set { w with held := Function.update w.held l false } else throw .notHeld

/-- `assert` -/
def check (c : Prop) [Decidable c] : Thr Unit := if c then pure () else throw .assertion

/-- The answers of the system. -/
def ask : Thr Sys := do
  let w ← get
  pure (w.sys w.acq)

/-- The item at an address. -/
def item (a : ℕ) : Thr CacheItem := do
  let w ← get
  match w.cache.mem.node a with
  | none => throw .dangling
  | some n => pure n.data

/-- Write to items and links. -/
def link (f : Dll.Mem ℕ CacheItem → Option (Dll.Mem ℕ CacheItem)) : Thr Unit := do
  let w ← get
  match f w.cache.mem with
  | none => throw .dangling
  | some m => set { w with cache := { w.cache with mem := m } }

/-- Write to the rest of the cache. -/
def onCache (f : Cache → Cache) : Thr Unit := modify fun w => { w with cache := f w.cache }

/-- `g_tree_lookup` -/
def treeLookup (file : Text) : Thr (Option ℕ) := do
  let w ← get
  pure (w.cache.tree file)

/-- `RESP_OK` and `RESP_ERR`. -/
inductive Resp : Type where
  | ok | err
  deriving DecidableEq

/-- `send_response`; nothing is sent during a replay, and no success during a batch. -/
def sendResponse (sock : Option Sock) (rc : Resp) (reply : Reply) : Thr ℤ := do
  let sys ← ask
  match sock with
  | none => pure (if rc = .ok then 0 else -1)
  | some sock =>
    if sock.batchStart ∧ rc = .ok then pure 0
    else do
      modify fun w => { w with replies := w.replies ++ [reply] }
      pure (if sys.send then 0 else -1)

/-! ## The queue -/

/-- `wipe_ci_values` -/
def wipe (opts : Opts) (when_ : ℤ) (random : ℕ) (ci : CacheItem) : CacheItem :=
  { ci with
    values := []
    lastFlushTime :=
      when_ + if 0 < opts.cfg.writeJitter then (random % opts.cfg.writeJitter : ℕ) else 0 }

/-- What is done while `stats_lock` is held. -/
def underStats (p : Thr Unit) : Thr Unit := do
  lock .stats
  p
  unlock .stats

/-- `assert (stats_queue_length > 0); stats_queue_length--` -/
def decQueueLength : Thr Unit := do
  let w ← get
  check (0 < w.cache.queueLength)
  onCache fun c => { c with queueLength := c.queueLength - 1 }

/-- `remove_from_queue` -/
def removeFromQueue (a : ℕ) : Thr Unit := do
  let ci ← item a
  if ci.inQueue then do
    link (·.unlink a)
    link (·.modifyData a fun ci => { ci with inQueue := false })
    underStats decQueueLength
  else pure ()

/-- `free_cache_item` -/
def freeCacheItem (a : ℕ) : Thr Unit := do
  removeFromQueue a
  onCache fun c => { c with mem := { c.mem with node := Function.update c.mem.node a none } }

/-- The values of an item are given away, and it leaves the queue. -/
def dropValues (opts : Opts) (when_ : ℤ) (random a : ℕ) : Thr Unit := do
  link (·.modifyData a (wipe opts when_ random))
  removeFromQueue a

/-- `queue_side_t` -/
inductive Side : Type where
  | head | tail
  deriving DecidableEq

/-- The end of `enqueue_cache_item`. -/
def markQueued (a : ℕ) : Thr Unit := do
  link (·.modifyData a fun ci => { ci with inQueue := true })
  underStats (onCache fun c => { c with queueLength := c.queueLength + 1 })

/-- `enqueue_cache_item` -/
def enqueueCacheItem (a : ℕ) (side : Side) : Thr Unit := do
  let ci ← item a
  if ci.values = [] then pure ()
  else match side with
    | .head => do
      let w ← get
      if w.cache.mem.head = some a then pure ()
      else do
        removeFromQueue a
        link (·.pushFront a)
        markQueued a
    | .tail =>
      if ci.inQueue then pure ()
      else do
        let w ← get
        check (w.cache.mem.next a = none)
        check (w.cache.mem.prev a = none)
        link (·.pushBack a)
        markQueued a

/-- `g_tree_remove`; the tree frees the item. -/
def treeRemove (file : Text) : Thr Bool := do
  match ← treeLookup file with
  | none => pure false
  | some a => do
    onCache fun c =>
      { c with tree := Function.update c.tree file none, keys := c.keys.erase file }
    freeCacheItem a
    pure true

/-- `tree_callback_flush`; the result are the keys of `cfd`. -/
def treeCallbackFlush (opts : Opts) (now absTimeout : ℤ) (key : Text) (keys : List Text) :
    Thr (List Text) := do
  match ← treeLookup key with
  | none => pure keys
  | some a => do
    let ci ← item a
    let w ← get
    if ci.inQueue then pure keys
    else if ci.values ≠ [] ∧ (ci.lastFlushTime ≤ absTimeout ∨ w.cache.mode ≠ .running) then do
      enqueueCacheItem a .tail
      pure keys
    else if opts.cfg.flushInterval ≤ now - ci.lastFlushTime ∧ ci.values = [] then do
      check (key = ci.file)
      let sys ← ask
      pure (if sys.addPtr key then keys ++ [key] else keys)
    else pure keys

/-- `g_tree_foreach` with `tree_callback_flush`. -/
def treeForeach (opts : Opts) (now absTimeout : ℤ) : List Text → List Text → Thr (List Text)
  | [], keys => pure keys
  | k :: ks, keys => do
    let keys ← treeCallbackFlush opts now absTimeout k keys
    treeForeach opts now absTimeout ks keys

/-- Remove the keys that were found. -/
def removeKeys : List Text → Thr Unit
  | [] => pure ()
  | k :: ks => do
    let status ← treeRemove k
    check (status = true)
    removeKeys ks

/-- `flush_old_values` -/
def flushOldItems (opts : Opts) (maxAge : ℤ) : Thr Unit := do
  let sys ← ask
  let absTimeout :=
    if 0 < maxAge then sys.time - maxAge else sys.time + 2 * opts.cfg.writeJitter + 1
  let w ← get
  let keys ← treeForeach opts sys.time absTimeout w.cache.keys []
  removeKeys keys

end Rrdtool.Daemon
