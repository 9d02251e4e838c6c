import Rrdtool.Lib.CStr

/-!
# Requests of `rrdcached`, byte by byte

A request is a buffer that ends with a NUL. `buffer_get_field` cuts fields off it: they end at a
blank or at a NUL, and a backslash takes the next byte as it is. The lines of the journal are
requests again, read with `fgets` into a buffer of `CMD_MAX` bytes.
-/

namespace Rrdtool.Daemon

/-! ## Fields -/

/-- The byte that ends a string. -/
def nul : Char := '\x00'

/-- What a `char *` to these bytes points to as a string. -/
def cstr (t : Text) : Text := t.takeWhile (· ≠ nul)

@[simp] theorem cstr_nul (t : Text) : cstr (nul :: t) = [] := by simp [cstr]

theorem cstr_cons {c : Char} (h : c ≠ nul) (t : Text) : cstr (c :: t) = c :: cstr t := by
  simp [cstr, h]

/-- `CMD_MAX` -/
def cmdMax : ℕ := 4096

/-- `RBUF_SIZE` -/
def rbufSize : ℕ := cmdMax * 2

/-- `PATH_MAX` -/
def pathMax : ℕ := 4096

/-- `buffer_get_field`: the bytes of the field, and the rest of the buffer. -/
def bufferGetField : Text → Option (Text × Text)
  | [] => none
  | c :: cs =>
    if c = ' ' ∨ c = nul then some ([], cs)
    else if c = '\\' then
      match cs with
      | [] => none
      | d :: ds => (bufferGetField ds).map fun r => (d :: r.1, r.2)
    else (bufferGetField cs).map fun r => (c :: r.1, r.2)

/-- The fields that the loop of `handle_request_update` gets, until the buffer is used up or a
field cannot be read. -/
def valueFields (fuel : ℕ) (buffer : Text) : List Text :=
  match fuel with
  | 0 => []
  | fuel + 1 =>
    match bufferGetField buffer with
    | none => []
    | some (value, rest) => cstr value :: valueFields fuel rest

/-- All fields of a buffer; every field takes a byte at least. -/
def allFields (buffer : Text) : List Text := valueFields buffer.length buffer

/-- `get_abs_path` -/
def getAbsPath (baseDir : Option Text) (filename : Text) : Text :=
  match baseDir with
  | none => filename
  | some dir =>
    if filename.head? = some '/' then filename else (dir ++ '/' :: filename).take (pathMax - 1)

/-! ## Commands -/

/-- `list_of_commands` -/
inductive Cmd : Type where
  | update | wrote | flush | flushall | pending | forget | queue | stats | help | batch | dot | quit
  deriving DecidableEq

/-- The names, in the order of the table. -/
def listOfCommands : List (Cmd × Text) :=
  [(.update, "UPDATE".toList), (.wrote, "WROTE".toList), (.flush, "FLUSH".toList),
    (.flushall, "FLUSHALL".toList), (.pending, "PENDING".toList), (.forget, "FORGET".toList),
    (.queue, "QUEUE".toList), (.stats, "STATS".toList), (.help, "HELP".toList),
    (.batch, "BATCH".toList), (.dot, ".".toList), (.quit, "QUIT".toList)]

/-- `strcasecmp(a, b) == 0` -/
def sameText (a b : Text) : Bool := a.map Char.toLower = b.map Char.toLower

/-- `find_command` -/
def findCommand (cmd : Text) : Option Cmd :=
  (listOfCommands.find? fun c => sameText cmd c.2).map Prod.fst

/-- `CMD_CONTEXT_CLIENT`, `CMD_CONTEXT_BATCH` and `CMD_CONTEXT_JOURNAL`. -/
structure Context : Type where
  /-- may a client send it? -/
  client : Bool
  /-- may it stand in a batch? -/
  batch : Bool
  /-- may it stand in the journal? -/
  journal : Bool

/-- The context of a command. -/
def Cmd.context : Cmd → Context
  | .update | .forget => ⟨true, true, true⟩
  | .wrote => ⟨false, false, true⟩
  | .flush | .quit => ⟨true, true, false⟩
  | .dot => ⟨false, true, false⟩
  | .flushall | .pending | .queue | .stats | .help | .batch => ⟨true, false, false⟩

/-- What matters of a `listen_socket_t`. -/
structure Sock : Type where
  /-- `batch_start` is not zero -/
  batchStart : Bool
  /-- `permissions` -/
  permissions : ℕ

/-- `command_check_context`; no socket is a replay. -/
def commandCheckContext (sock : Option Sock) (cmd : Cmd) : Bool :=
  match sock with
  | none => cmd.context.journal
  | some sock => if sock.batchStart then cmd.context.batch else cmd.context.client

/-- `socket_permission_check` for a command of the table. -/
def socketPermissionCheck (sock : Option Sock) (cmd : Cmd) : Bool :=
  match sock with
  | none => true
  | some sock =>
    match cmd with
    | .quit | .help => true
    | .dot => sock.permissions.testBit 9
    | _ => sock.permissions.testBit ((listOfCommands.map Prod.fst).idxOf cmd)

/-! ## The journal as text -/

/-- `strncpy(orig_buf, buffer, min(CMD_MAX, buffer_size))`; `none` if no NUL got into `orig_buf`, and
`fprintf` would read on behind it. -/
def origBuf (buffer : Text) : Option Text :=
  let copied := buffer.take (min cmdMax buffer.length)
  if nul ∈ copied then some (cstr copied) else none

/-- The line that `journal_write` appends. -/
def journalLine (cmd args : Text) : Text := cmd ++ ' ' :: args ++ ['\n']

/-- `fgets(entry, size, fh)`: what is read, and what is left of the file. -/
def fgets (size : ℕ) (file : Text) : Text × Text :=
  match size, file with
  | 0, file => ([], file)
  | 1, file => ([], file)
  | _, [] => ([], [])
  | size + 2, c :: cs =>
    if c = '\n' then ([c], cs)
    else
      let r := fgets (size + 1) cs
      (c :: r.1, r.2)

/-- What `journal_replay` does with an entry. -/
inductive Entry : Type where
  /-- `Malformed journal entry at line` -/
  | malformed : Entry
  /-- `handle_request(NULL, now, entry, entry_len)` -/
  | request (buffer : Text) : Entry
  deriving DecidableEq

/-- The entries that the loop of `journal_replay` reads. -/
def journalEntries (fuel : ℕ) (file : Text) : List Entry :=
  match fuel with
  | 0 => []
  | fuel + 1 =>
    match fgets cmdMax file with
    | ([], _) => []
    | (c :: cs, rest) =>
      let entry := cstr (c :: cs)
      if entry = [] then journalEntries fuel rest
      else if entry.getLast? = some '\n' then
        .request (entry.dropLast ++ [nul]) :: journalEntries fuel rest
      else .malformed :: journalEntries fuel rest

/-- The entries of a journal file; every entry takes a byte at least. -/
def allEntries (file : Text) : List Entry := journalEntries file.length file

end Rrdtool.Daemon
