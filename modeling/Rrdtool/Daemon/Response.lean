import Mathlib.Data.List.DropRight
import Rrdtool.Daemon.Encoding
import Rrdtool.Daemon.Thread
import Rrdtool.Lib.Decimal
import Rrdtool.Lib.Lines

/-!
# Responses of `rrdcached`, byte by byte

A handler formats lines into the write buffer (`add_response_info`) and then a status line
(`send_response`), whose number says how many lines follow. Both format into a buffer of `CMD_MAX`
bytes, and go on with the length that the text would have had.

* `respond_eq_answer` — texts that fit arrive as they are;
* `respond_framed` — and then every response is a status line and as many lines as it says.
-/

namespace Rrdtool.Daemon

open Decimal Lines

/-! ## The texts -/

/-- The line of a command about its arguments, in `list_of_commands`. -/
def Cmd.usageLine : Cmd → Option Text
  | .update => some "UPDATE <filename> <values> [<values> ...]".toList
  | .wrote => none
  | .flush => some "FLUSH <filename>".toList
  | .flushall => some "FLUSHALL".toList
  | .pending => some "PENDING <filename>".toList
  | .forget => some "FORGET <filename>".toList
  | .queue => some "QUEUE".toList
  | .stats => some "STATS".toList
  | .help => some "HELP [<command>]".toList
  | .batch => some "BATCH".toList
  | .dot => none
  | .quit => some "QUIT".toList

/-- `syntax` -/
def Cmd.syntax_ (cmd : Cmd) : Option Text := cmd.usageLine.map (· ++ ['\n'])

/-- `help` -/
def Cmd.help_ : Cmd → Option Text
  | .update => some <| String.toList <|
    "Adds the given file to the internal cache if it is not yet known and\n" ++
    "appends the given value(s) to the entry. See the rrdcached(1) manpage\n" ++
    "for details.\n" ++
    "\n" ++
    "Each <values> has the following form:\n" ++
    "  <values> = <time>:<value>[:<value>[...]]\n" ++
    "See the rrdupdate(1) manpage for details.\n"
  | .wrote => none
  | .flush => some <| String.toList <|
    "Adds the given filename to the head of the update queue and returns\n" ++
    "after it has been dequeued.\n"
  | .flushall => some "Triggers writing of all pending updates.  Returns immediately.\n".toList
  | .pending => some <| String.toList <|
    "Shows any 'pending' updates for a file, in order.\n" ++
    "The updates shown have not yet been written to the underlying RRD file.\n"
  | .forget => some <| String.toList <|
    "Removes the file completely from the cache.\n" ++
    "Any pending updates for the file will be lost.\n"
  | .queue => some <| String.toList <|
    "Shows all files in the output queue.\n" ++
    "The output is zero or more lines in the following format:\n" ++
    "(where <num_vals> is the number of values to be written)\n" ++
    "\n" ++
    "<num_vals> <filename>\n"
  | .stats => some <| String.toList <|
    "Returns some performance counters, see the rrdcached(1) manpage for\n" ++
    "a description of the values.\n"
  | .help => none
  | .batch => some <| String.toList <|
    "The 'BATCH' command permits the client to initiate a bulk load\n" ++
    "   of commands to rrdcached.\n" ++
    "\n" ++
    "Usage:\n" ++
    "\n" ++
    "    client: BATCH\n" ++
    "    server: 0 Go ahead.  End with dot '.' on its own line.\n" ++
    "    client: command #1\n" ++
    "    client: command #2\n" ++
    "    client: ... and so on\n" ++
    "    client: .\n" ++
    "    server: 2 errors\n" ++
    "    server: 7 message for command #7\n" ++
    "    server: 9 message for command #9\n" ++
    "\n" ++
    "For more information, consult the rrdcached(1) documentation.\n"
  | .dot => none
  | .quit => some "Disconnect from rrdcached.\n".toList

/-- A text without a newline and without a NUL. -/
structure Plain (t : Text) : Prop where
  newline : '\n' ∉ t
  nul : nul ∉ t

/-- What the formats of a response ask for besides the arguments of the reply. -/
structure Fmt : Type where
  /-- `rrd_strerror(EACCES)` -/
  eacces : Text
  /-- `rrd_strerror(ENOENT)` -/
  enoent : Text
  /-- `rrd_strerror(errno)`, after `access` -/
  access : Text
  /-- `errno`, after `stat` -/
  statErrno : ℤ
  /-- `%lf` -/
  lf : Dbl → Text
  /-- the counters of `STATS` that the cache does not have, by their names -/
  counter : Text → ℕ
  eacces_plain : Plain eacces
  enoent_plain : Plain enoent
  access_plain : Plain access
  lf_plain : ∀ v, Plain (lf v)

/-- What is asked for: the command, and the command that `HELP` is asked about. -/
structure Asked : Type where
  /-- the command -/
  cmd : Option Cmd
  /-- the argument of `HELP` -/
  topic : Option Cmd

/-- The command of a request, and the argument that it would have as `HELP`. -/
def asked (buffer : Text) : Asked :=
  match bufferGetField buffer with
  | none => ⟨none, none⟩
  | some (field, rest) =>
    ⟨findCommand (cstr field), (bufferGetField rest).bind fun r => findCommand (cstr r.1)⟩

/-- The name of a command. -/
def Cmd.name (cmd : Cmd) : Text := ((listOfCommands.find? fun c => c.1 = cmd).map Prod.snd).getD []

/-- The command that `HELP` knows something about. -/
def Asked.known (a : Asked) : Option Cmd :=
  a.topic.filter fun cmd => cmd.syntax_.isSome || cmd.help_.isSome

/-- `%d` of a `size_t`. -/
def printSize (n : ℕ) : Text := printInt ((n : ℤ).bmod (2 ^ 32))

/-- `resp_txt`, up to the newline at its end. -/
def helpBody (a : Asked) : Text :=
  match a.known with
  | some cmd => "Help for ".toList ++ cmd.name
  | none => "Command overview".toList

/-- What `handle_request_help` gives to `add_response_info`. -/
def helpInfos (a : Asked) : List Text :=
  match a.known with
  | some cmd =>
    (cmd.syntax_.map fun t => "Usage: ".toList ++ t ++ ['\n']).toList ++
      (cmd.help_.map (· ++ ['\n'])).toList
  | none => (listOfCommands.map Prod.fst).filterMap Cmd.syntax_

/-- The message of a reply, up to the newline at its end. -/
def Reply.body (fmt : Fmt) (a : Asked) : Reply → Text
  | .usage cmd => "Usage: ".toList ++ cmd.usageLine.getD "Syntax error.".toList
  | .unknownCommand cmd => "Unknown command: ".toList ++ cmd
  | .permissionDenied => "Permission denied.".toList
  | .cantUse cmd => "Can't use '".toList ++ cmd ++ "' here.".toList
  | .eacces => fmt.eacces
  | .enoent => fmt.enoent
  | .noSuchFile file =>
    "No such file: ".toList ++ file ++ if a.cmd = some .flush then ".".toList else []
  | .statFailed _ => "stat failed with error ".toList ++ printInt fmt.statErrno ++ ".".toList
  | .notRegular file => "Not a regular file: ".toList ++ file
  | .cannotAccess file => "Cannot read/write ".toList ++ file ++ ": ".toList ++ fmt.access
  | .mallocFailed => "malloc failed.".toList
  | .strdupFailed => "strdup failed.".toList
  | .noTimestamp value => "Cannot find timestamp in '".toList ++ value ++ "'!".toList
  | .illegalUpdate stamp last =>
    "illegal attempt to update using time ".toList ++ fmt.lf stamp ++
      " when last update time is ".toList ++ fmt.lf last ++ " (minimum one second step)".toList
  | .noValues => "No values updated.".toList
  | .enqueued n => "errors, enqueued ".toList ++ printSize n ++ " value(s).".toList
  | .flushed file => "Successfully flushed ".toList ++ file ++ ".".toList
  | .nothingToFlush file => "Nothing to flush: ".toList ++ file ++ ".".toList
  | .startedFlush => "Started flush.".toList
  | .pending _ => "updates pending".toList
  | .queue _ => "in queue.".toList
  | .gone => "Gone!".toList
  | .stats _ _ => "Statistics follow".toList
  | .help => helpBody a
  | .alreadyInBatch => "Already in BATCH".toList
  | .goAhead => "Go ahead.  End with dot '.' on its own line.".toList
  | .batchErrors => "errors".toList

/-- One counter of `STATS`. -/
def statsLine (name : Text) (n : ℕ) : Text := name ++ ": ".toList ++ printNat n ++ ['\n']

/-- The texts that a handler gives to `add_response_info` before its reply. -/
def Reply.infos (fmt : Fmt) (a : Asked) : Reply → List Text
  | .pending values => values.map (· ++ ['\n'])
  | .queue files => files.map fun f => printSize f.1 ++ ' ' :: f.2 ++ ['\n']
  | .stats length nodes =>
    [statsLine "QueueLength".toList length,
      statsLine "UpdatesReceived".toList (fmt.counter "UpdatesReceived".toList),
      statsLine "FlushesReceived".toList (fmt.counter "FlushesReceived".toList),
      statsLine "UpdatesWritten".toList (fmt.counter "UpdatesWritten".toList),
      statsLine "DataSetsWritten".toList (fmt.counter "DataSetsWritten".toList),
      statsLine "TreeNodesNumber".toList nodes,
      statsLine "TreeDepth".toList (fmt.counter "TreeDepth".toList),
      statsLine "JournalBytes".toList (fmt.counter "JournalBytes".toList),
      statsLine "JournalRotate".toList (fmt.counter "JournalRotate".toList)]
  | .help => helpInfos a
  | _ => []

/-- The code of a reply. -/
def Reply.rc : Reply → Resp
  | .enqueued _ | .flushed _ | .nothingToFlush _ | .startedFlush | .pending _ | .queue _ | .gone
  | .stats _ _ | .help | .goAhead | .batchErrors => .ok
  | _ => .err

/-- The message of a reply. -/
def Reply.message (fmt : Fmt) (a : Asked) (reply : Reply) : Text := reply.body fmt a ++ ['\n']

/-! ## Buffers -/

/-- What `vsnprintf` leaves in a buffer of `size` bytes. -/
def vsnprintf (size : ℕ) (text : Text) : Text := text.take (size - 1)

/-- What matters of a `listen_socket_t` for responses. -/
structure Peer : Type where
  /-- `batch_start` is not zero -/
  batchStart : Bool
  /-- `batch_cmd` -/
  batchCmd : ℤ
  /-- `permissions` -/
  permissions : ℕ
  /-- the first `wbuf_len` bytes of `wbuf` -/
  wbuf : Text

/-- `add_to_wbuf`; `strncpy` pads a string that is too short with NULs. -/
def Peer.addToWbuf (p : Peer) (str : Text) (len : ℕ) : Peer :=
  { p with wbuf := p.wbuf ++ (str ++ List.replicate len nul).take len }

/-- `add_response_info` -/
def Peer.addResponseInfo (p : Peer) (text : Text) : Peer :=
  if p.batchStart then p else p.addToWbuf (vsnprintf cmdMax text) text.length

/-- `count_lines` -/
def countLines (str : Text) : ℕ := (cstr str).count '\n'

/-- `write(fd, buffer, len)`: behind the buffer lies the rest of the stack. -/
def writtenFrom (stack : ℕ → Char) (buffer : Text) (len : ℕ) : Text :=
  (buffer ++ nul :: (List.range len).map stack).take len

/-- The number of a response. -/
def Peer.lines (p : Peer) (rc : Resp) : ℤ :=
  if p.batchStart then p.batchCmd
  else if rc = .ok then (countLines p.wbuf : ℤ).bmod (2 ^ 32) else -1

/-- `send_response`, and what it writes. -/
def Peer.sendResponse (stack : ℕ → Char) (rc : Resp) (text : Text) (p : Peer) : Peer × Text :=
  if p.batchStart ∧ rc = .ok then (p, [])
  else
    let number := printInt (p.lines rc) ++ [' ']
    let buffer := number ++ vsnprintf (cmdMax - number.length) text
    let len := number.length + text.length
    if p.batchStart then (p.addToWbuf buffer len, [])
    else ({ p with wbuf := [] }, writtenFrom stack buffer len ++ if rc = .ok then p.wbuf else [])

/-- The lines of a reply, and its message. -/
def Peer.say (stack : ℕ → Char) (fmt : Fmt) (a : Asked) (reply : Reply) (p : Peer) : Peer × Text :=
  ((reply.infos fmt a).foldl Peer.addResponseInfo p).sendResponse stack reply.rc
    (reply.message fmt a)

/-- What `batch_done` does to the socket before its reply. -/
def Reply.enter (reply : Reply) (p : Peer) : Peer :=
  if reply = .batchErrors then { p with batchStart := false, batchCmd := 0 } else p

/-- What `batch_start` does to the socket after its reply. -/
def Reply.leave (reply : Reply) (p : Peer) : Peer :=
  if reply = .goAhead then { p with batchStart := true, batchCmd := 0 } else p

/-- A reply. -/
def Peer.respond (stack : ℕ → Char) (fmt : Fmt) (a : Asked) (reply : Reply) (p : Peer) :
    Peer × Text :=
  let r := (reply.enter p).say stack fmt a reply
  (reply.leave r.1, r.2)

/-! ## Without buffers -/

/-- The number of a response, with the lines that are there. -/
def Peer.number (fmt : Fmt) (a : Asked) (reply : Reply) (p : Peer) : ℤ :=
  if p.batchStart then p.batchCmd
  else if reply.rc = .ok then ((p.wbuf ++ (reply.infos fmt a).flatten).count '\n' : ℤ) else -1

/-- The text of a reply: its number and its message. -/
def Peer.statusLine (fmt : Fmt) (a : Asked) (reply : Reply) (p : Peer) : Text :=
  printInt (p.number fmt a reply) ++ ' ' :: reply.message fmt a

/-- What `say` comes to if no text is cut. -/
def Peer.format (fmt : Fmt) (a : Asked) (reply : Reply) (p : Peer) : Peer × Text :=
  if p.batchStart then
    if reply.rc = .ok then (p, []) else ({ p with wbuf := p.wbuf ++ p.statusLine fmt a reply }, [])
  else
    ({ p with wbuf := [] }, p.statusLine fmt a reply ++
      if reply.rc = .ok then p.wbuf ++ (reply.infos fmt a).flatten else [])

/-- What `respond` comes to if no text is cut. -/
def Peer.answer (fmt : Fmt) (a : Asked) (reply : Reply) (p : Peer) : Peer × Text :=
  let r := (reply.enter p).format fmt a reply
  (reply.leave r.1, r.2)

/-- The texts of a reply fit into the buffers, and its lines can be counted. -/
structure Peer.Fits (fmt : Fmt) (a : Asked) (reply : Reply) (p : Peer) : Prop where
  /-- in `add_response_info` -/
  info : ∀ t ∈ reply.infos fmt a, t.length < cmdMax
  /-- in `send_response` -/
  status : (p.statusLine fmt a reply).length < cmdMax
  /-- in `count_lines` -/
  lines : (p.wbuf ++ (reply.infos fmt a).flatten).count '\n' < 2 ^ 31

/-! ## Texts that fit -/

theorem vsnprintf_of_lt {size : ℕ} {t : Text} (h : t.length < size) : vsnprintf size t = t :=
  List.take_of_length_le (Nat.le_sub_one_of_lt h)

theorem addToWbuf_length (p : Peer) (t : Text) :
    p.addToWbuf t t.length = { p with wbuf := p.wbuf ++ t } := by
  simp [Peer.addToWbuf]

theorem addResponseInfo_of_fits {p : Peer} {t : Text} (hp : p.batchStart = false)
    (h : t.length < cmdMax) : p.addResponseInfo t = { p with wbuf := p.wbuf ++ t } := by
  simp [Peer.addResponseInfo, hp, vsnprintf_of_lt h, addToWbuf_length]

theorem foldl_addResponseInfo_batch {p : Peer} (hp : p.batchStart = true) (infos : List Text) :
    infos.foldl Peer.addResponseInfo p = p := by
  induction infos with
  | nil => rfl
  | cons t infos ih => simpa [Peer.addResponseInfo, hp] using ih

theorem foldl_addResponseInfo {p : Peer} (hp : p.batchStart = false) {infos : List Text}
    (h : ∀ t ∈ infos, t.length < cmdMax) :
    infos.foldl Peer.addResponseInfo p = { p with wbuf := p.wbuf ++ infos.flatten } := by
  induction infos generalizing p with
  | nil => simp
  | cons t infos ih =>
    have ht : p.addResponseInfo t = { p with wbuf := p.wbuf ++ t } :=
      addResponseInfo_of_fits hp (h t List.mem_cons_self)
    rw [List.foldl_cons, ht, @ih { p with wbuf := p.wbuf ++ t } hp fun u hu =>
      h u (List.mem_cons_of_mem t hu)]
    simp

theorem writtenFrom_length (stack : ℕ → Char) (t : Text) : writtenFrom stack t t.length = t := by
  simp [writtenFrom]

theorem countLines_eq {t : Text} (h : nul ∉ t) : countLines t = t.count '\n' := by
  rw [countLines, cstr_of_not_mem h]

theorem bmod_count {n : ℕ} (h : n < 2 ^ 31) : (n : ℤ).bmod (2 ^ 32) = n := by
  apply Int.bmod_eq_of_le <;> omega

/-- **What fits is sent as it is**, outside of a batch. -/
theorem sendResponse_of_fits {stack : ℕ → Char} {rc : Resp} {text : Text} {p : Peer} {number : ℤ}
    (hp : p.batchStart = false) (hnumber : p.lines rc = number)
    (h : (printInt number ++ ' ' :: text).length < cmdMax) :
    p.sendResponse stack rc text = ({ p with wbuf := [] },
      printInt number ++ ' ' :: text ++ if rc = .ok then p.wbuf else []) := by
  have hbuffer : printInt number ++ [' '] ++ vsnprintf (cmdMax - (printInt number ++ [' ']).length) text =
      printInt number ++ ' ' :: text := by
    rw [vsnprintf_of_lt (by simp at h ⊢; omega)]
    simp
  have hlen : (printInt number ++ [' ']).length + text.length =
      (printInt number ++ ' ' :: text).length := by
    simp
    omega
  simp only [Peer.sendResponse, hp, Bool.false_eq_true, false_and, if_false, hnumber, hbuffer, hlen,
    writtenFrom_length]

/-- **What fits goes to the buffer as it is**, in a batch. -/
theorem sendResponse_of_fits_batch {stack : ℕ → Char} {rc : Resp} {text : Text} {p : Peer}
    (hp : p.batchStart = true) (h : (printInt p.batchCmd ++ ' ' :: text).length < cmdMax) :
    p.sendResponse stack rc text = (if rc = .ok then p
      else { p with wbuf := p.wbuf ++ (printInt p.batchCmd ++ ' ' :: text) }, []) := by
  have hbuffer : printInt p.batchCmd ++ [' '] ++
      vsnprintf (cmdMax - (printInt p.batchCmd ++ [' ']).length) text =
      printInt p.batchCmd ++ ' ' :: text := by
    rw [vsnprintf_of_lt (by simp at h ⊢; omega)]
    simp
  have hlen : (printInt p.batchCmd ++ [' ']).length + text.length =
      (printInt p.batchCmd ++ ' ' :: text).length := by
    simp
    omega
  have hlines : p.lines rc = p.batchCmd := by simp [Peer.lines, hp]
  by_cases hrc : rc = .ok
  · simp [Peer.sendResponse, hp, hrc]
  · simp only [Peer.sendResponse, hp, hrc, and_false, if_false, if_true, hlines, hbuffer, hlen,
      addToWbuf_length]

/-- **A reply that fits** comes out as it was formatted. -/
theorem say_eq_format {fmt : Fmt} {a : Asked} {reply : Reply} {p : Peer} (h : p.Fits fmt a reply)
    (hwbuf : nul ∉ p.wbuf) (hinfos : ∀ t ∈ reply.infos fmt a, nul ∉ t) (stack : ℕ → Char) :
    p.say stack fmt a reply = p.format fmt a reply := by
  have hstatus := h.status
  cases hp : p.batchStart with
  | true =>
    have hnumber : p.number fmt a reply = p.batchCmd := by simp [Peer.number, hp]
    rw [Peer.statusLine, hnumber] at hstatus
    rw [Peer.say, foldl_addResponseInfo_batch hp, sendResponse_of_fits_batch hp hstatus]
    by_cases hrc : reply.rc = .ok <;> simp [Peer.format, hp, hrc, Peer.statusLine, hnumber]
  | false =>
    have hnul : nul ∉ p.wbuf ++ (reply.infos fmt a).flatten := by
      simpa [hwbuf] using hinfos
    have hlines : Peer.lines { p with wbuf := p.wbuf ++ (reply.infos fmt a).flatten } reply.rc =
        p.number fmt a reply := by
      by_cases hrc : reply.rc = .ok
      · simp only [Peer.lines, Peer.number, hp, hrc, countLines_eq hnul, bmod_count h.lines]
      · simp [Peer.lines, Peer.number, hp, hrc]
    rw [Peer.say, foldl_addResponseInfo hp h.info,
      @sendResponse_of_fits stack _ _ { p with wbuf := p.wbuf ++ (reply.infos fmt a).flatten } _ hp
        hlines hstatus]
    simp [Peer.format, hp, Peer.statusLine]

theorem respond_eq_answer {fmt : Fmt} {a : Asked} {reply : Reply} {p : Peer}
    (h : (reply.enter p).Fits fmt a reply) (hwbuf : nul ∉ p.wbuf)
    (hinfos : ∀ t ∈ reply.infos fmt a, nul ∉ t) (stack : ℕ → Char) :
    p.respond stack fmt a reply = p.answer fmt a reply := by
  have henter : (reply.enter p).wbuf = p.wbuf := by
    rw [Reply.enter]
    split <;> rfl
  rw [Peer.respond, Peer.answer, say_eq_format h (henter ▸ hwbuf) hinfos]

/-! ## Texts without newlines -/

/-- A literal is looked at as the list that it stands for. -/
theorem forall_mem_literal {P : Char → Bool} {s : String} {l : Text} (h : s = String.ofList l)
    (hl : l.all P = true) : ∀ c ∈ s.toList, P c = true := by
  rw [h, String.toList_ofList]
  exact List.all_eq_true.mp hl

theorem plain_literal {s : String} {l : Text} (h : s = String.ofList l)
    (hl : l.all (fun c => c != '\n' && c != nul) = true) : Plain s.toList := by
  have hall := forall_mem_literal h hl
  exact ⟨fun hc => absurd (hall _ hc) (by decide), fun hc => absurd (hall _ hc) (by decide)⟩

theorem nul_not_mem_literal {s : String} {l : Text} (h : s = String.ofList l)
    (hl : l.all (· != nul) = true) : nul ∉ s.toList :=
  fun hc => absurd (forall_mem_literal h hl _ hc) (by decide)

theorem Plain.nil : Plain [] := ⟨List.not_mem_nil, List.not_mem_nil⟩

theorem Plain.append {s t : Text} (hs : Plain s) (ht : Plain t) : Plain (s ++ t) :=
  ⟨fun h => (List.mem_append.mp h).elim hs.newline ht.newline,
    fun h => (List.mem_append.mp h).elim hs.nul ht.nul⟩

theorem Plain.quote {s t file : Text} (hs : Plain s) (hfile : Plain file) (ht : Plain t) :
    Plain (s ++ file ++ t) := (hs.append hfile).append ht

theorem Plain.subset {s t : Text} (ht : Plain t) (h : s ⊆ t) : Plain s :=
  ⟨fun hmem => ht.newline (h hmem), fun hmem => ht.nul (h hmem)⟩

theorem plain_printNat (n : ℕ) : Plain (printNat n) := by
  constructor <;> intro h <;> exact absurd (allDigits_printNat n _ h) (by decide)

theorem plain_printInt (z : ℤ) : Plain (printInt z) := by
  rw [printInt]
  split
  · exact Plain.append (s := ['-']) ⟨by decide, by decide⟩ (plain_printNat _)
  · exact plain_printNat _

/-- The texts in a reply. -/
def Reply.args : Reply → List Text
  | .unknownCommand t | .cantUse t | .noSuchFile t | .statFailed t | .notRegular t
  | .cannotAccess t | .noTimestamp t | .flushed t | .nothingToFlush t => [t]
  | .pending values => values
  | .queue files => files.map Prod.snd
  | _ => []

/-- No text in a reply has a newline. -/
def Reply.Clean (reply : Reply) : Prop := ∀ t ∈ reply.args, Plain t

theorem plain_usageLine (cmd : Cmd) : Plain (cmd.usageLine.getD "Syntax error.".toList) := by
  cases cmd <;> exact plain_literal rfl (by decide)

theorem plain_name (cmd : Cmd) : Plain cmd.name := by
  cases cmd <;> exact plain_literal rfl (by decide)

theorem plain_helpBody (a : Asked) : Plain (helpBody a) := by
  rw [helpBody]
  cases a.known with
  | some cmd => exact Plain.append (plain_literal rfl (by decide)) (plain_name cmd)
  | none => exact (plain_literal rfl (by decide) : Plain "Command overview".toList)

theorem Reply.body_plain {reply : Reply} (h : reply.Clean) (fmt : Fmt) (a : Asked) :
    Plain (reply.body fmt a) := by
  cases reply with
  | usage cmd => exact Plain.append (plain_literal rfl (by decide)) (plain_usageLine cmd)
  | unknownCommand t | notRegular t => exact Plain.append (plain_literal rfl (by decide)) (h t List.mem_cons_self)
  | cantUse t | noTimestamp t | flushed t | nothingToFlush t =>
    exact Plain.quote (plain_literal rfl (by decide)) (h t List.mem_cons_self) (plain_literal rfl (by decide))
  | noSuchFile t =>
    apply Plain.quote (plain_literal rfl (by decide)) (h t List.mem_cons_self)
    split
    · exact plain_literal rfl (by decide)
    · exact Plain.nil
  | statFailed t => exact Plain.quote (plain_literal rfl (by decide)) (plain_printInt _) (plain_literal rfl (by decide))
  | enqueued n => exact Plain.quote (plain_literal rfl (by decide)) (plain_printInt _) (plain_literal rfl (by decide))
  | cannotAccess t =>
    have hfile := Plain.quote (s := "Cannot read/write ".toList) (plain_literal rfl (by decide))
      (h t List.mem_cons_self) (t := ": ".toList) (plain_literal rfl (by decide))
    exact hfile.append fmt.access_plain
  | illegalUpdate stamp last =>
    have hstamp := Plain.quote (s := "illegal attempt to update using time ".toList)
      (plain_literal rfl (by decide)) (fmt.lf_plain stamp) (t := " when last update time is ".toList)
      (plain_literal rfl (by decide))
    exact hstamp.quote (fmt.lf_plain last) (plain_literal rfl (by decide))
  | eacces => exact fmt.eacces_plain
  | enoent => exact fmt.enoent_plain
  | help => exact plain_helpBody a
  | permissionDenied => exact plain_literal rfl (by decide)
  | mallocFailed => exact plain_literal rfl (by decide)
  | strdupFailed => exact plain_literal rfl (by decide)
  | noValues => exact plain_literal rfl (by decide)
  | startedFlush => exact plain_literal rfl (by decide)
  | pending values => exact plain_literal rfl (by decide)
  | queue files => exact plain_literal rfl (by decide)
  | gone => exact plain_literal rfl (by decide)
  | stats length nodes => exact plain_literal rfl (by decide)
  | alreadyInBatch => exact plain_literal rfl (by decide)
  | goAhead =>
    exact plain_literal rfl (by decide)
  | batchErrors => exact plain_literal rfl (by decide)

/-- A text that ends with a newline, without a NUL. -/
structure Ended (t : Text) : Prop where
  last : t.getLast? = some '\n'
  nul : nul ∉ t

theorem ended_concat {t : Text} (h : nul ∉ t) : Ended (t ++ ['\n']) := by
  refine ⟨by simp, fun hmem => ?_⟩
  rcases List.mem_append.mp hmem with hmem | hmem
  · exact h hmem
  · exact absurd (List.mem_singleton.mp hmem) (by decide)

theorem Plain.ended {t : Text} (h : Plain t) : Ended (t ++ ['\n']) := ended_concat h.nul

theorem ended_statsLine {name : Text} (h : Plain name) (n : ℕ) : Ended (statsLine name n) :=
  ((h.append (t := ": ".toList) (plain_literal rfl (by decide))).append (plain_printNat n)).ended

theorem nul_not_mem_help {cmd : Cmd} {t : Text} (h : cmd.help_ = some t) : nul ∉ t := by
  have hall (s : String) (hs : nul ∉ s.toList) (h : some s.toList = some t) : nul ∉ t := by
    obtain rfl := Option.some.inj h
    exact hs
  cases cmd with
  | wrote | help | dot => exact absurd h (by rw [Cmd.help_]; exact nofun)
  | flushall | quit => exact hall _ (nul_not_mem_literal rfl (by decide)) h
  | update | flush | pending | forget | queue | stats | batch =>
    refine hall _ ?_ h
    simp only [String.toList_append, List.mem_append, not_or, -String.reduceAppend]
    and_intros <;> exact nul_not_mem_literal rfl (by decide)

theorem plain_of_usageLine {cmd : Cmd} {t : Text} (h : cmd.usageLine = some t) : Plain t := by
  have hplain := plain_usageLine cmd
  rw [h] at hplain
  exact hplain

/-- The lines of `HELP` end where they should. -/
theorem ended_helpInfos (a : Asked) : ∀ t ∈ helpInfos a, Ended t := by
  intro t ht
  rw [helpInfos] at ht
  cases hk : a.known with
  | some cmd =>
    rw [hk] at ht
    rcases List.mem_append.mp ht with ht | ht
    · obtain ⟨u, hu, rfl⟩ := Option.map_eq_some_iff.mp (Option.mem_toList.mp ht)
      obtain ⟨line, hline, rfl⟩ := Option.map_eq_some_iff.mp hu
      refine ended_concat fun hmem => ?_
      have husage : Plain "Usage: ".toList := plain_literal rfl (by decide)
      exact ((husage.append (plain_of_usageLine hline)).ended.nul) (by simpa using hmem)
    · obtain ⟨u, hu, rfl⟩ := Option.map_eq_some_iff.mp (Option.mem_toList.mp ht)
      exact ended_concat (nul_not_mem_help hu)
  | none =>
    rw [hk] at ht
    obtain ⟨cmd, -, hcmd⟩ := List.mem_filterMap.mp ht
    obtain ⟨line, hline, rfl⟩ := Option.map_eq_some_iff.mp hcmd
    exact (plain_of_usageLine hline).ended

theorem Reply.infos_ended {reply : Reply} (h : reply.Clean) (fmt : Fmt) (a : Asked) :
    ∀ t ∈ reply.infos fmt a, Ended t := by
  intro t ht
  cases reply with
  | pending values =>
    obtain ⟨v, hv, rfl⟩ := List.mem_map.mp ht
    exact (h v hv).ended
  | queue files =>
    obtain ⟨f, hf, rfl⟩ := List.mem_map.mp ht
    have hfile : Plain f.2 := h f.2 (List.mem_map_of_mem hf)
    have hline := ((plain_printInt ((f.1 : ℤ).bmod (2 ^ 32))).append
      (Plain.append (s := [' ']) ⟨by decide, by decide⟩ hfile)).ended
    simpa [printSize] using hline
  | stats length nodes =>
    have hnames : ∀ name ∈ ["QueueLength".toList, "UpdatesReceived".toList, "FlushesReceived".toList,
        "UpdatesWritten".toList, "DataSetsWritten".toList, "TreeNodesNumber".toList,
        "TreeDepth".toList, "JournalBytes".toList, "JournalRotate".toList], Plain name := by
      simp only [List.forall_mem_cons]
      and_intros
      all_goals first | exact plain_literal rfl (by decide) | exact nofun
    have hlines : ∃ name n, Plain name ∧ t = statsLine name n := by
      simp only [Reply.infos, List.mem_cons, List.not_mem_nil, or_false] at ht
      rcases ht with rfl | rfl | rfl | rfl | rfl | rfl | rfl | rfl | rfl <;>
        exact ⟨_, _, hnames _ (by simp), rfl⟩
    obtain ⟨name, n, hname, rfl⟩ := hlines
    exact ended_statsLine hname n
  | help => exact ended_helpInfos a t ht
  | _ => exact absurd ht List.not_mem_nil

/-! ## Framed texts -/

/-- Lines that `fgets` reads into a buffer of `CMD_MAX` bytes at once. -/
def Lined (t : Text) : Prop :=
  ∃ ls, t = joinLines ls ∧ ∀ l ∈ ls, Plain l ∧ l.length + 2 ≤ cmdMax

theorem Lined.nil : Lined [] := ⟨[], rfl, by simp⟩

theorem Lined.append {s t : Text} (hs : Lined s) (ht : Lined t) : Lined (s ++ t) := by
  obtain ⟨ls, rfl, hls⟩ := hs
  obtain ⟨ms, rfl, hms⟩ := ht
  refine ⟨ls ++ ms, (joinLines_append ls ms).symm, fun l hl => ?_⟩
  exact (List.mem_append.mp hl).elim (hls l) (hms l)

theorem Lined.flatten {ts : List Text} (h : ∀ t ∈ ts, Lined t) : Lined ts.flatten := by
  induction ts with
  | nil => exact Lined.nil
  | cons t ts ih =>
    have hts := ih fun u hu => h u (List.mem_cons_of_mem t hu)
    exact (h t List.mem_cons_self).append hts

theorem Ended.lined {t : Text} (h : Ended t) (hlt : t.length < cmdMax) : Lined t := by
  obtain ⟨ls, rfl, hls⟩ := exists_joinLines (.inr h.last)
  refine ⟨ls, rfl, fun l hl => ?_⟩
  obtain ⟨hn, hsub, hlen⟩ := hls l hl
  have hle : l.length + 2 ≤ (joinLines ls).length + 1 := Nat.succ_le_succ hlen
  exact ⟨⟨hn, fun hmem => h.nul (hsub hmem)⟩, Nat.le_trans hle hlt⟩

theorem Lined.nul_not_mem {t : Text} (h : Lined t) : nul ∉ t := by
  obtain ⟨ls, rfl, hls⟩ := h
  intro hmem
  obtain ⟨l, hl, hmem⟩ := List.mem_flatMap.mp hmem
  rcases List.mem_append.mp hmem with hmem | hmem
  · exact (hls l hl).1.nul hmem
  · exact absurd (List.mem_singleton.mp hmem) (by decide)

/-- **A response**: a status line with a number, and that many lines. -/
structure Response : Type where
  /-- the number -/
  number : ℤ
  /-- what follows the number -/
  message : Text
  /-- the lines, without their newlines -/
  lines : List Text
  count : lines.length = number.toNat
  lo : -1 ≤ number
  hi : number < 2 ^ 31
  message_plain : Plain message
  message_short : (printInt number ++ ' ' :: message).length + 2 ≤ cmdMax
  lines_plain : ∀ l ∈ lines, Plain l
  lines_short : ∀ l ∈ lines, l.length + 2 ≤ cmdMax

/-- The bytes of a response. -/
def Response.text (r : Response) : Text :=
  printInt r.number ++ ' ' :: r.message ++ '\n' :: joinLines r.lines

/-! ## Replies that fit -/

theorem Plain.cons_blank {s t : Text} (hs : Plain s) (ht : Plain t) : Plain (s ++ ' ' :: t) := by
  have hblank : Plain [' '] := ⟨by decide, by decide⟩
  exact hs.append (hblank.append ht)

/-- What is in the write buffer between two requests: the errors of a batch. -/
structure Peer.Ok (p : Peer) : Prop where
  lined : Lined p.wbuf
  empty : p.batchStart = false → p.wbuf = []

/-- A status line with its newline. -/
theorem statusLine_eq (fmt : Fmt) (a : Asked) (reply : Reply) (p : Peer) :
    p.statusLine fmt a reply =
      (printInt (p.number fmt a reply) ++ ' ' :: reply.body fmt a) ++ ['\n'] := by
  simp [Peer.statusLine, Reply.message]

theorem statusLine_short {fmt : Fmt} {a : Asked} {reply : Reply} {p : Peer}
    (h : (p.statusLine fmt a reply).length < cmdMax) :
    (printInt (p.number fmt a reply) ++ ' ' :: reply.body fmt a).length + 2 ≤ cmdMax := by
  rw [statusLine_eq, List.length_append] at h
  exact h

theorem infos_lined {fmt : Fmt} {a : Asked} {reply : Reply} (hclean : reply.Clean)
    (h : ∀ t ∈ reply.infos fmt a, t.length < cmdMax) : Lined (reply.infos fmt a).flatten :=
  Lined.flatten fun t ht => (reply.infos_ended hclean fmt a t ht).lined (h t ht)

/-- **In a batch** nothing is sent, and an error is one more line in the buffer. -/
theorem format_batch {fmt : Fmt} {a : Asked} {reply : Reply} {p : Peer} (hp : p.Ok)
    (hbatch : p.batchStart = true) (hclean : reply.Clean) (h : p.Fits fmt a reply) :
    (p.format fmt a reply).2 = [] ∧ (p.format fmt a reply).1.batchStart = true ∧
      Lined (p.format fmt a reply).1.wbuf := by
  rw [Peer.format, if_pos hbatch]
  split_ifs with hrc
  · exact ⟨rfl, hbatch, hp.lined⟩
  · refine ⟨rfl, hbatch, hp.lined.append (Ended.lined ?_ h.status)⟩
    rw [statusLine_eq]
    exact ((plain_printInt _).cons_blank (reply.body_plain hclean fmt a)).ended

/-- **Outside of a batch** a response is sent, and the buffer is empty. -/
theorem format_response {fmt : Fmt} {a : Asked} {reply : Reply} {p : Peer} (hlined : Lined p.wbuf)
    (hbatch : p.batchStart = false) (hclean : reply.Clean) (h : p.Fits fmt a reply) :
    (p.format fmt a reply).1 = { p with wbuf := [] } ∧
      ∃ r : Response, (p.format fmt a reply).2 = r.text ∧ r.number = p.number fmt a reply ∧
        r.message = reply.body fmt a := by
  have hbody := reply.body_plain hclean fmt a
  have hshort := statusLine_short h.status
  by_cases hrc : reply.rc = .ok
  · obtain ⟨ls, hls, hlines⟩ := hlined.append (infos_lined hclean h.info)
    have hnumber : p.number fmt a reply = ls.length := by
      rw [Peer.number, hbatch, if_neg Bool.false_ne_true, if_pos hrc, hls,
        count_joinLines fun l hl => (hlines l hl).1.newline]
    have hsmall : (ls.length : ℤ) < 2 ^ 31 := by
      have hcount := h.lines
      rw [hls, count_joinLines fun l hl => (hlines l hl).1.newline] at hcount
      exact_mod_cast hcount
    refine ⟨by simp [Peer.format, hbatch], ⟨p.number fmt a reply, reply.body fmt a, ls, ?_, ?_, ?_,
      hbody, hshort, fun l hl => (hlines l hl).1, fun l hl => (hlines l hl).2⟩, ?_, rfl, rfl⟩
    · rw [hnumber, Int.toNat_natCast]
    · rw [hnumber]
      exact le_trans (by decide) (Int.natCast_nonneg _)
    · rw [hnumber]
      exact hsmall
    · simp [Peer.format, hbatch, hrc, hls, statusLine_eq, Response.text]
  · have hnumber : p.number fmt a reply = -1 := by
      rw [Peer.number, hbatch, if_neg Bool.false_ne_true, if_neg hrc]
    refine ⟨by simp [Peer.format, hbatch], ⟨p.number fmt a reply, reply.body fmt a, [], ?_, ?_, ?_,
      hbody, hshort, nofun, nofun⟩, ?_, rfl, rfl⟩
    · rw [hnumber]
      rfl
    · rw [hnumber]
    · rw [hnumber]
      decide
    · simp [Peer.format, hbatch, hrc, statusLine_eq, Response.text]

/-- **A reply that fits** is answered by a response, unless a batch goes on. -/
theorem respond_framed {fmt : Fmt} {a : Asked} {reply : Reply} {p : Peer} (hp : p.Ok)
    (hclean : reply.Clean) (h : (reply.enter p).Fits fmt a reply) (stack : ℕ → Char) :
    (p.respond stack fmt a reply).1.Ok ∧
      (p.batchStart = true ∧ (p.respond stack fmt a reply).1.batchStart = true →
        (p.respond stack fmt a reply).2 = []) ∧
      (¬(p.batchStart = true ∧ (p.respond stack fmt a reply).1.batchStart = true) →
        ∃ r : Response, (p.respond stack fmt a reply).2 = r.text) := by
  have hinfos : ∀ t ∈ reply.infos fmt a, nul ∉ t := fun t ht => (reply.infos_ended hclean fmt a t ht).nul
  rw [respond_eq_answer h hp.lined.nul_not_mem hinfos]
  simp only [Peer.answer]
  by_cases hdone : reply = .batchErrors
  · -- the end of a batch
    subst hdone
    have hlined : Lined (Reply.enter .batchErrors p).wbuf := hp.lined
    obtain ⟨hafter, r, hr, -⟩ := format_response hlined rfl hclean h
    rw [hafter]
    exact ⟨⟨Lined.nil, fun _ => rfl⟩, fun hb => absurd hb.2 Bool.false_ne_true, fun _ => ⟨r, hr⟩⟩
  · have henter : reply.enter p = p := if_neg hdone
    rw [henter] at h ⊢
    cases hbatch : p.batchStart with
    | false =>
      obtain ⟨hafter, r, hr, -⟩ := format_response hp.lined hbatch hclean h
      rw [hafter]
      refine ⟨?_, fun hb => absurd hb.1 Bool.false_ne_true, fun _ => ⟨r, hr⟩⟩
      rw [Reply.leave]
      split
      · exact ⟨Lined.nil, fun _ => rfl⟩
      · exact ⟨Lined.nil, fun _ => rfl⟩
    | true =>
      obtain ⟨hsent, hstays, hlined⟩ := format_batch hp hbatch hclean h
      have hleave : (reply.leave (p.format fmt a reply).1).batchStart = true := by
        rw [Reply.leave]
        split
        · rfl
        · exact hstays
      refine ⟨⟨?_, fun hfalse => absurd (hleave.symm.trans hfalse) (by decide)⟩, fun _ => hsent,
        fun hb => absurd ⟨rfl, hleave⟩ hb⟩
      rw [Reply.leave]
      split
      · exact hlined
      · exact hlined

end Rrdtool.Daemon
