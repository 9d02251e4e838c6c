import Rrdtool.Daemon.Thread

/-!
# The handlers of `rrdcached`

`handle_request` with the handlers of all commands, `journal_init`, and what the flush thread and
the queue threads do while they hold `cache_lock`.
-/

namespace Rrdtool.Daemon

/-! ## Files -/

/-- Does a string start with these bytes, and where does it go on? -/
def strstr (needle : Text) : Text → Bool
  | [] => needle = []
  | c :: cs => needle.isPrefixOf (c :: cs) || strstr needle cs

/-- `check_file_access`, without its response. -/
def fileAccess (opts : Opts) (sock : Option Sock) (file : Text) : Bool :=
  match sock, opts.baseDir with
  | none, _ => true
  | _, none => true
  | some _, some dir =>
    if !opts.writeBaseOnly then true
    else if strstr "../".toList file then false
    else if file.head? ≠ some '/' then true
    else decide (dir.length + 2 ≤ file.length) && decide (file.take dir.length = dir) &&
      decide (file[dir.length]? = some '/')

/-- `check_file_access` before a handler goes on. -/
def withAccess (opts : Opts) (sock : Option Sock) (file : Text) (k : Thr ℤ) : Thr ℤ :=
  if fileAccess opts sock file then k
  else do
    let _ ← sendResponse sock .err .eacces
    pure 0

/-- `buffer_get_field` and `get_abs_path` at the start of a handler. -/
def withFile (opts : Opts) (sock : Option Sock) (cmd : Cmd) (buffer : Text)
    (k : Text → Text → Thr ℤ) : Thr ℤ :=
  match bufferGetField buffer with
  | none => sendResponse sock .err (.usage cmd)
  | some (file, rest) => k (getAbsPath opts.baseDir (cstr file)) rest

/-- A counter of `STATS`. -/
def countStats : Thr Unit := underStats (pure ())

/-- `journal_write` -/
def journalAppend : Thr Unit := do
  let sys ← ask
  if sys.journalFh then do
    lock .journal
    unlock .journal
    if sys.fprintf then countStats else pure ()
  else pure ()

/-- The journal is not written during a replay. -/
def journalUnlessReplay (sock : Option Sock) : Thr Unit :=
  if sock.isSome then journalAppend else pure ()

/-! ## `UPDATE` -/

/-- The value loop of `handle_request_update`: the response when it is left with an error, and the
number of values. -/
def valueLoop (a : ℕ) : List Text → ℕ → ℕ → Thr (Option Reply × ℕ)
  | [], _, num => pure (none, num)
  | v :: vs, k, num => do
    let ci ← item a
    match valueStamp v with
    | none => pure (some (.noTimestamp v), num)
    | some stamp =>
      if stamp.le ci.lastUpdateStamp then
        pure (some (.illegalUpdate stamp ci.lastUpdateStamp), num)
      else do
        link (·.modifyData a fun ci => { ci with lastUpdateStamp := stamp })
        let sys ← ask
        if sys.addStrdup k then do
          link (·.modifyData a fun ci => { ci with values := ci.values ++ [v] })
          valueLoop a vs (k + 1) (num + 1)
        else valueLoop a vs (k + 1) num

/-- The item is queued when its values are old enough. -/
def enqueueIfDue (opts : Opts) (now : ℤ) (a : ℕ) : Thr Unit := do
  let ci ← item a
  if opts.cfg.writeInterval ≤ now - ci.lastFlushTime ∧ ci.inQueue = false ∧ ci.values ≠ [] then
    enqueueCacheItem a .tail
  else pure ()

/-- The end of `handle_request_update`, from the journal line on. -/
def updateItem (opts : Opts) (sock : Option Sock) (now : ℤ) (a : ℕ) (values : List Text) :
    Thr ℤ := do
  journalUnlessReplay sock
  let r ← valueLoop a values 0 0
  match r.1 with
  | some reply => do
    unlock .cache
    sendResponse sock .err reply
  | none => do
    enqueueIfDue opts now a
    unlock .cache
    if r.2 < 1 then sendResponse sock .err .noValues else sendResponse sock .ok (.enqueued r.2)

/-- `handle_request_update`, the first section: `none` if the file is not in the tree. -/
def updateKnown (opts : Opts) (sock : Option Sock) (now : ℤ) (file : Text) (values : List Text) :
    Thr (Option ℤ) := do
  lock .cache
  match ← treeLookup file with
  | none => do
    unlock .cache
    pure none
  | some a => do
    let status ← updateItem opts sock now a values
    pure (some status)

/-- A new `cache_item_t`. -/
def newCacheItem (opts : Opts) (now : ℤ) (random : ℕ) (file : Text) : CacheItem :=
  { wipe opts now random ⟨file, [], 0, .num 0, false, false⟩ with inTree := true }

/-- The cache with one more item in memory. -/
def Cache.alloc (c : Cache) (ci : CacheItem) : Cache :=
  { c with
    mem := { c.mem with node := Function.update c.mem.node c.brk (some ⟨ci, none, none⟩) }
    brk := c.brk + 1 }

/-- `malloc`; the address is that of no other item. -/
def malloc (ci : CacheItem) : Thr ℕ := do
  let w ← get
  onCache (·.alloc ci)
  pure w.cache.brk

/-- `g_tree_replace` for a key that is not in the tree. -/
def treeInsert (file : Text) (a : ℕ) : Thr Unit :=
  onCache fun c => { c with
    tree := Function.update c.tree file (some a)
    keys := c.keys.orderedInsert (fun a b => strcmpLe a b = true) file }

/-- `handle_request_update`, the second section: the new item goes into the tree, unless another
thread was faster. `cache_lock` is not released when the daemon is shutting down. -/
def updateNew (opts : Opts) (sock : Option Sock) (now : ℤ) (file : Text) (values : List Text) :
    Thr ℤ := do
  let sys ← ask
  lock .cache
  let ci ← malloc (newCacheItem opts now sys.random file)
  match ← treeLookup file with
  | none => do
    treeInsert file ci
    let w ← get
    if w.cache.mode = .shutdown then pure (-1) else updateItem opts sock now ci values
  | some tmp => do
    freeCacheItem ci
    let w ← get
    if w.cache.mode = .shutdown then pure (-1) else updateItem opts sock now tmp values

/-- The file of a new item is looked at without the lock. -/
def updateMissed (opts : Opts) (sock : Option Sock) (now : ℤ) (file : Text) (values : List Text) :
    Thr ℤ := do
  let sys ← ask
  match sys.stat file with
  | .noEntry => sendResponse sock .err (.noSuchFile file)
  | .failed => sendResponse sock .err (.statFailed file)
  | .other => sendResponse sock .err (.notRegular file)
  | .regular =>
    if !sys.access file then sendResponse sock .err (.cannotAccess file)
    else if !sys.malloc then sendResponse sock .err .mallocFailed
    else if !sys.strdup then sendResponse sock .err .strdupFailed
    else updateNew opts sock now file values

/-- `handle_request_update` -/
def handleRequestUpdate (opts : Opts) (sock : Option Sock) (now : ℤ) (buffer : Text) : Thr ℤ :=
  withFile opts sock .update buffer fun file rest => do
    countStats
    withAccess opts sock file do
      match ← updateKnown opts sock now file (allFields rest) with
      | some status => pure status
      | none => updateMissed opts sock now file (allFields rest)

/-! ## The other commands -/

/-- `flush_file` up to the wait; was the file in the tree? -/
def flushStart (file : Text) : Thr (Option Bool) := do
  lock .cache
  match ← treeLookup file with
  | none => do
    unlock .cache
    pure none
  | some a => do
    let ci ← item a
    if ci.values ≠ [] then do
      enqueueCacheItem a .head
      unlock .cache
      pure (some true)
    else do
      unlock .cache
      pure (some false)

/-- `flush_file`: `pthread_cond_wait` releases `cache_lock` and takes it again. -/
def flushFile (file : Text) : Thr Bool := do
  match ← flushStart file with
  | none => pure false
  | some false => pure true
  | some true => do
    lock .cache
    unlock .cache
    pure true

/-- `handle_request_flush` -/
def handleRequestFlush (opts : Opts) (sock : Option Sock) (buffer : Text) : Thr ℤ :=
  withFile opts sock .flush buffer fun file _ => do
    countStats
    withAccess opts sock file do
      if ← flushFile file then sendResponse sock .ok (.flushed file)
      else do
        let sys ← ask
        if sys.stat file = .regular then sendResponse sock .ok (.nothingToFlush file)
        else sendResponse sock .err (.noSuchFile file)

/-- `flush_old_values` under `cache_lock`. -/
def flushSection (opts : Opts) (maxAge : ℤ) : Thr Unit := do
  lock .cache
  flushOldItems opts maxAge
  unlock .cache

/-- `handle_request_flushall` -/
def handleRequestFlushall (opts : Opts) (sock : Option Sock) : Thr ℤ := do
  flushSection opts (-1)
  sendResponse sock .ok .startedFlush

/-- `handle_request_pending` -/
def handleRequestPending (opts : Opts) (sock : Option Sock) (buffer : Text) : Thr ℤ :=
  withFile opts sock .pending buffer fun file _ => do
    lock .cache
    match ← treeLookup file with
    | none => do
      unlock .cache
      sendResponse sock .err .enoent
    | some a => do
      let ci ← item a
      unlock .cache
      sendResponse sock .ok (.pending ci.values)

/-- `handle_request_forget` under the lock. -/
def forgetSection (file : Text) : Thr Bool := do
  lock .cache
  let found ← treeRemove file
  unlock .cache
  pure found

/-- `handle_request_forget` -/
def handleRequestForget (opts : Opts) (sock : Option Sock) (buffer : Text) : Thr ℤ :=
  withFile opts sock .forget buffer fun file _ =>
    withAccess opts sock file do
      if ← forgetSection file then do
        journalUnlessReplay sock
        sendResponse sock .ok .gone
      else sendResponse sock .err .enoent

/-- The loop of `handle_request_queue`. -/
def walkQueue : ℕ → Option ℕ → Thr (List (ℕ × Text))
  | _, none => pure []
  | 0, some _ => throw .hang
  | fuel + 1, some a => do
    let ci ← item a
    let w ← get
    let rest ← walkQueue fuel (w.cache.mem.next a)
    pure ((ci.values.length, ci.file) :: rest)

/-- `handle_request_queue` -/
def handleRequestQueue (sock : Option Sock) : Thr ℤ := do
  lock .cache
  let w ← get
  let files ← walkQueue w.cache.queueLength w.cache.mem.head
  unlock .cache
  sendResponse sock .ok (.queue files)

/-- `handle_request_stats` -/
def handleRequestStats (sock : Option Sock) : Thr ℤ := do
  lock .stats
  let w ← get
  unlock .stats
  lock .cache
  let w' ← get
  unlock .cache
  let _ ← sendResponse sock .ok (.stats w.cache.queueLength w'.cache.keys.length)
  pure 0

/-- `handle_request_wrote`; its argument is the rest of the buffer. -/
def handleRequestWrote (opts : Opts) (now : ℤ) (buffer : Text) : Thr ℤ := do
  lock .cache
  match ← treeLookup (cstr buffer) with
  | none => do
    unlock .cache
    pure 0
  | some a => do
    let sys ← ask
    dropValues opts now sys.random a
    unlock .cache
    pure 0

/-- `batch_start` -/
def handleBatchStart (sock : Option Sock) : Thr ℤ :=
  match sock with
  | some ⟨true, _⟩ => sendResponse sock .err .alreadyInBatch
  | _ => sendResponse sock .ok .goAhead

/-- `batch_done` -/
def handleBatchDone (sock : Option Sock) : Thr ℤ := do
  check (∀ s ∈ sock, s.batchStart = true)
  sendResponse (sock.map fun s => { s with batchStart := false }) .ok .batchErrors

/-- The handler of a command. -/
def handler (opts : Opts) (cmd : Cmd) (sock : Option Sock) (now : ℤ) (buffer : Text) : Thr ℤ :=
  match cmd with
  | .update => handleRequestUpdate opts sock now buffer
  | .wrote => handleRequestWrote opts now buffer
  | .flush => handleRequestFlush opts sock buffer
  | .flushall => handleRequestFlushall opts sock
  | .pending => handleRequestPending opts sock buffer
  | .forget => handleRequestForget opts sock buffer
  | .queue => handleRequestQueue sock
  | .stats => handleRequestStats sock
  | .help => sendResponse sock .ok .help
  | .batch => handleBatchStart sock
  | .dot => handleBatchDone sock
  | .quit => pure (-1)

/-- **`handle_request`** -/
def handleRequest (opts : Opts) (sock : Option Sock) (now : ℤ) (buffer : Text) : Thr ℤ := do
  check (buffer.getLast? = some nul)
  match bufferGetField buffer with
  | none => pure (-1)
  | some (field, rest) =>
    match findCommand (cstr field) with
    | none => sendResponse sock .err (.unknownCommand (cstr field))
    | some cmd =>
      if !socketPermissionCheck sock cmd then sendResponse sock .err .permissionDenied
      else if !commandCheckContext sock cmd then sendResponse sock .err (.cantUse (cstr field))
      else handler opts cmd sock now rest

/-! ## The journal -/

/-- The loop of `journal_replay`; how many entries were replayed? -/
def replayEntries (opts : Opts) (now : ℤ) : List Entry → Thr ℕ
  | [] => pure 0
  | .malformed :: es => replayEntries opts now es
  | .request buffer :: es => do
    let status ← handleRequest opts none now buffer
    let n ← replayEntries opts now es
    pure (if status = 0 then n + 1 else n)

/-- `journal_replay` -/
def journalReplay (opts : Opts) (file : Text) : Thr ℕ := do
  let sys ← ask
  match sys.journalFile file with
  | none => pure 0
  | some text => do
    let n ← replayEntries opts sys.time (allEntries text)
    pure (if 0 < n then 1 else 0)

/-- The files of `journal_cur`, one after the other. -/
def replayFiles (opts : Opts) : List Text → Thr ℕ
  | [] => pure 0
  | f :: fs => do
    let n ← journalReplay opts f
    let m ← replayFiles opts fs
    pure (n + m)

/-- The journal files of a directory, up to the first that `rrd_add_strdup` fails for, in the order
of `journal_sort`. -/
def journalFiles (dir : Text) (sys : Sys) (names : List Text) : List Text :=
  let found := (names.filter ("rrd.journal".toList.isPrefixOf ·)).zipIdx
  ((found.takeWhile fun p => sys.addStrdup p.2).map fun p =>
    (dir ++ '/' :: p.1).take (pathMax - 1)).mergeSort strcmpLe

/-- It must have been a crash: start a flush. Without a new journal file, `config_flush_at_shutdown`
has been set by now. -/
def flushAfterCrash (opts : Opts) (hadJournal : ℕ) : Thr Unit := do
  let sys ← ask
  if 0 < hadJournal ∧ (opts.cfg.flushAtShutdown ∨ !sys.newFile) then flushOldItems opts (-1)
  else pure ()

/-- **`journal_init`** returns early with `journal_lock` held. -/
def journalInit (opts : Opts) : Thr Unit :=
  match opts.journalDir with
  | none => pure ()
  | some dir => do
    lock .journal
    let sys ← ask
    if !sys.calloc then pure ()
    else match sys.opendir with
      | none => pure ()
      | some names => do
        let hadJournal ← replayFiles opts (journalFiles dir sys names)
        flushAfterCrash opts hadJournal
        unlock .journal

/-! ## Queue threads -/

/-- What a queue thread does with the head of the queue. -/
def takeSection (opts : Opts) : Thr Unit := do
  lock .cache
  let w ← get
  match w.cache.mem.head with
  | none => unlock .cache
  | some a => do
    let ci ← item a
    let sys ← ask
    if !sys.strdup then unlock .cache
    else do
      check (ci.values ≠ [])
      dropValues opts sys.time sys.random a
      unlock .cache

end Rrdtool.Daemon
