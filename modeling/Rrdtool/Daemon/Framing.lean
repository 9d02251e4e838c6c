import Rrdtool.Daemon.Replies

/-!
# Dialogues with `rrdcached`

A client sends requests on a connection, in and outside of batches, and reads the responses with
`response_read`, which takes a number off a line and then as many lines as it says.

* `responsesRead_text` — the client reads responses one after the other;
* `responses_framed` — every dialogue in which all texts fit into their buffers: each request is answered by
  one response, but for those in a batch;
* `stack_sent` — a response with bytes of the stack in it.
-/

namespace Rrdtool.Daemon

open Decimal Lines Wp

variable {opts : Opts} {stack : ℕ → Char} {fmt : Fmt} {a : Asked} {p q : Peer}

/-! ## The client -/

/-- `\n` or `\r` -/
def isEol (c : Char) : Bool := c = '\n' || c = '\r'

/-- `chomp` -/
def chomp (s : Text) : Text := (cstr s).rdropWhile isEol

/-- `rrdc_response_t` -/
structure Received : Type where
  /-- `status` -/
  status : ℤ
  /-- `message` -/
  message : Text
  /-- `lines` -/
  lines : List Text
  deriving DecidableEq

/-- The loop of `response_read`, and what is left of the stream. -/
def readLines : ℕ → Text → Option (List Text × Text)
  | 0, stream => some ([], stream)
  | n + 1, stream =>
    match fgets cmdMax stream with
    | ([], _) => none
    | (buffer, stream) => (readLines n stream).map fun r => (chomp buffer :: r.1, r.2)

/-- `response_read`, where memory does not run out, and what is left of the stream. -/
def responseRead (stream : Text) : Option (Received × Text) :=
  match fgets cmdMax stream with
  | ([], _) => none
  | (buffer, stream) =>
    match scanInteger (chomp buffer) with
    | none => none
    | some (number, message) =>
      let status := number.bmod (2 ^ 32)
      let message := message.dropWhile fun c => c = ' ' || c = '\t'
      if status ≤ 0 then some (⟨status, message, []⟩, stream)
      else (readLines status.toNat stream).map fun r => (⟨status, message, r.1⟩, r.2)

/-- A client that reads `n` responses. -/
def responsesRead : ℕ → Text → Option (List Received × Text)
  | 0, stream => some ([], stream)
  | n + 1, stream =>
    match responseRead stream with
    | none => none
    | some (received, stream) => (responsesRead n stream).map fun r => (received :: r.1, r.2)

/-- What the client makes of a response. -/
def Response.received (r : Response) : Received :=
  ⟨r.number, (chomp r.message).dropWhile fun c => c = ' ' || c = '\t', r.lines.map chomp⟩

theorem chomp_plain {t : Text} (h : Plain t) : chomp t = t.rdropWhile isEol := by
  rw [chomp, cstr_of_not_mem h.nul]

/-- The newline goes first. -/
theorem chomp_line {t : Text} (h : Plain t) : chomp (t ++ ['\n']) = chomp t := by
  have hnul : nul ∉ t ++ ['\n'] := h.ended.nul
  rw [chomp, cstr_of_not_mem hnul, List.rdropWhile_concat_pos _ _ _ rfl, chomp_plain h]

/-- Nothing is taken off in front of a blank. -/
theorem rdropWhile_blank (s t : Text) :
    (s ++ ' ' :: t).rdropWhile isEol = s ++ ' ' :: t.rdropWhile isEol := by
  induction t using List.reverseRecOn with
  | nil => exact List.rdropWhile_concat_neg _ _ _ (by decide)
  | append_singleton t c ih =>
    have happ : s ++ ' ' :: (t ++ [c]) = (s ++ ' ' :: t) ++ [c] := by simp
    rw [happ]
    by_cases hc : isEol c = true
    · rw [List.rdropWhile_concat_pos _ _ _ hc, List.rdropWhile_concat_pos _ _ _ hc, ih]
    · rw [List.rdropWhile_concat_neg _ _ _ hc, List.rdropWhile_concat_neg _ _ _ hc, happ]

theorem readLines_joinLines {ls : List Text} (hls : ∀ l ∈ ls, Plain l)
    (hshort : ∀ l ∈ ls, l.length + 2 ≤ cmdMax) (rest : Text) :
    readLines ls.length (joinLines ls ++ rest) = some (ls.map chomp, rest) := by
  induction ls with
  | nil => rfl
  | cons l ls ih =>
    have hl := hls l List.mem_cons_self
    have hread : fgets cmdMax (l ++ '\n' :: (joinLines ls ++ rest)) =
        (l ++ ['\n'], joinLines ls ++ rest) := fgets_line hl.newline (hshort l List.mem_cons_self)
    have ih := ih (fun m hm => hls m (List.mem_cons_of_mem l hm))
      fun m hm => hshort m (List.mem_cons_of_mem l hm)
    have htext : joinLines (l :: ls) ++ rest = l ++ '\n' :: (joinLines ls ++ rest) := by simp
    rw [htext, List.length_cons, readLines, hread]
    cases hne : l ++ ['\n'] with
    | nil => exact absurd hne (by simp)
    | cons c cs =>
      dsimp only
      rw [ih, ← hne, chomp_line hl]
      rfl

/-- **`response_read` takes one response off the stream.** -/
theorem responseRead_text (r : Response) (rest : Text) :
    responseRead (r.text ++ rest) = some (r.received, rest) := by
  have hstatus : Plain (printInt r.number ++ ' ' :: r.message) :=
    (plain_printInt _).cons_blank r.message_plain
  have htext : r.text ++ rest =
      (printInt r.number ++ ' ' :: r.message) ++ '\n' :: (joinLines r.lines ++ rest) := by
    simp [Response.text]
  have hread : fgets cmdMax ((printInt r.number ++ ' ' :: r.message) ++ '\n' :: (joinLines r.lines ++ rest)) =
      ((printInt r.number ++ ' ' :: r.message) ++ ['\n'], joinLines r.lines ++ rest) :=
    fgets_line hstatus.newline r.message_short
  have hlo : -2 ^ 63 ≤ r.number := le_trans (by decide) r.lo
  have hhi : r.number < 2 ^ 63 := lt_trans r.hi (by decide)
  have hnumber : r.number.bmod (2 ^ 32) = r.number := by
    apply Int.bmod_eq_of_le
    · exact le_trans (by decide) r.lo
    · exact lt_of_lt_of_le r.hi (by decide)
  have hchomp : chomp ((printInt r.number ++ ' ' :: r.message) ++ ['\n']) =
      printInt r.number ++ ' ' :: chomp r.message := by
    rw [chomp_line hstatus, chomp_plain hstatus, rdropWhile_blank, chomp_plain r.message_plain]
  rw [htext, responseRead, hread]
  cases hne : (printInt r.number ++ ' ' :: r.message) ++ ['\n'] with
  | nil => exact absurd hne (by simp)
  | cons c cs =>
    dsimp only
    rw [← hne, hchomp, scanInteger_printInt hlo hhi]
    dsimp only
    rw [hnumber]
    split_ifs with hpos
    · have hnil : r.lines = [] := by
        rw [← List.length_eq_zero_iff, r.count, Int.toNat_of_nonpos hpos]
      rw [hnil, Response.received, hnil]
      rfl
    · rw [← r.count, readLines_joinLines r.lines_plain r.lines_short]
      rfl

/-- **Responses are read one after the other.** -/
theorem responsesRead_text (rs : List Response) (rest : Text) :
    responsesRead rs.length ((rs.map Response.text).flatten ++ rest) =
      some (rs.map Response.received, rest) := by
  induction rs with
  | nil => rfl
  | cons r rs ih =>
    rw [List.map_cons, List.flatten_cons, List.append_assoc, List.length_cons, responsesRead,
      responseRead_text]
    dsimp only
    rw [ih]
    rfl

/-! ## Dialogues -/

/-- The socket, as the handlers see it. -/
def Peer.sock (p : Peer) : Sock := ⟨p.batchStart, p.permissions⟩

/-- `batch_cmd++`, for a request that has a command. -/
def Peer.counted (p : Peer) (buffer : Text) : Peer :=
  if p.batchStart ∧ (bufferGetField buffer).isSome then
    { p with batchCmd := (p.batchCmd + 1).bmod (2 ^ 32) }
  else p

/-- The replies of a handler, through the buffers. -/
def Peer.respondAll (stack : ℕ → Char) (fmt : Fmt) (a : Asked) : List Reply → Peer → Peer × Text
  | [], p => (p, [])
  | r :: rs, p =>
    let s := p.respond stack fmt a r
    let t := s.1.respondAll stack fmt a rs
    (t.1, s.2 ++ t.2)

/-- The replies of a handler, as they are formatted. -/
def Peer.answerAll (fmt : Fmt) (a : Asked) : List Reply → Peer → Peer × Text
  | [], p => (p, [])
  | r :: rs, p =>
    let s := p.answer fmt a r
    let t := s.1.answerAll fmt a rs
    (t.1, s.2 ++ t.2)

/-- A request and its answer. -/
structure Exchange : Type where
  /-- the request -/
  request : Text
  /-- it stands in a batch, and the batch goes on -/
  inBatch : Bool
  /-- the text that has been formatted for it -/
  formatted : Text
  /-- the bytes that have been sent for it -/
  sent : Text

/-- What happens in a request for the replies of its handler. -/
def Peer.exchange (stack : ℕ → Char) (fmt : Fmt) (line : Text) (replies : List Reply) (p : Peer) :
    Exchange :=
  let buffer := line ++ [nul]
  let q := p.counted buffer
  let r := q.respondAll stack fmt (asked buffer) replies
  ⟨line, p.batchStart && r.1.batchStart, (q.answerAll fmt (asked buffer) replies).2, r.2⟩

/-- The socket after that. -/
def Peer.after (stack : ℕ → Char) (fmt : Fmt) (line : Text) (replies : List Reply) (p : Peer) : Peer :=
  ((p.counted (line ++ [nul])).respondAll stack fmt (asked (line ++ [nul])) replies).1

/-- **The states of a dialogue**, as long as the connection is not closed: every request is one line, every
handler returns zero, and all bytes of a response can be written. What is replied meets `fits`. -/
inductive Dialogue (opts : Opts) (fits : Fmt → Asked → Reply → Peer → Prop) (w₀ : World) :
    Peer → World → List Exchange → Prop where
  | start (permissions : ℕ) : Dialogue opts fits w₀ ⟨false, 0, permissions, []⟩ w₀ []
  | request {p : Peer} {w w' : World} {log : List Exchange} (stack : ℕ → Char) (fmt : Fmt) (now : ℤ)
      (line : Text) (h : Dialogue opts fits w₀ p w log) (hline : '\n' ∉ line)
      (hsend : ∀ n, (w.sys n).send = true)
      (hrun : handleRequest opts (some p.sock) now (line ++ [nul]) { w with replies := [] } =
        .ok (0, w'))
      (hfits : ∀ r ∈ w'.replies, fits fmt (asked (line ++ [nul])) r
        (r.enter (p.counted (line ++ [nul])))) :
      Dialogue opts fits w₀ (p.after stack fmt line w'.replies) w'
        (log ++ [p.exchange stack fmt line w'.replies])

/-- **The exchanges are framed**: the bytes are what was formatted, nothing is sent inside of a batch,
every other request is answered by one response, and the client reads them off the stream in turn. -/
structure Framed (log : List Exchange) (rs : List Response) : Prop where
  exact : ∀ e ∈ log, e.sent = e.formatted
  silent : ∀ e ∈ log, e.inBatch = true → e.sent = []
  answered : (log.filter fun e => !e.inBatch).map Exchange.sent = rs.map Response.text
  read : ∀ rest, responsesRead rs.length ((log.map Exchange.sent).flatten ++ rest) =
    some (rs.map Response.received, rest)

/-- What is sent in all. -/
theorem flatten_sent {log : List Exchange} (h : ∀ e ∈ log, e.inBatch = true → e.sent = []) :
    (log.map Exchange.sent).flatten =
      ((log.filter fun e => !e.inBatch).map Exchange.sent).flatten := by
  induction log with
  | nil => rfl
  | cons e log ih =>
    have ih := ih fun f hf => h f (List.mem_cons_of_mem e hf)
    cases hb : e.inBatch with
    | false => simp [hb, ih]
    | true => simp [hb, ih, h e List.mem_cons_self hb]

theorem Framed.nil : Framed [] [] := ⟨nofun, nofun, rfl, fun _ => rfl⟩

/-- Nothing is read but the responses. -/
theorem framed_of_answered {log : List Exchange} {rs : List Response}
    (hexact : ∀ e ∈ log, e.sent = e.formatted) (hsilent : ∀ e ∈ log, e.inBatch = true → e.sent = [])
    (hanswered : (log.filter fun e => !e.inBatch).map Exchange.sent = rs.map Response.text) :
    Framed log rs :=
  ⟨hexact, hsilent, hanswered, fun rest => by
    rw [flatten_sent hsilent, hanswered, responsesRead_text]⟩

/-- One more request in a batch. -/
theorem Framed.concat_silent {log : List Exchange} {rs : List Response} (h : Framed log rs)
    {e : Exchange} (hexact : e.sent = e.formatted) (hin : e.inBatch = true) (hsent : e.sent = []) :
    Framed (log ++ [e]) rs := by
  apply framed_of_answered
  · intro f hf
    rcases List.mem_append.mp hf with hf | hf
    · exact h.exact f hf
    · obtain rfl := List.mem_singleton.mp hf
      exact hexact
  · intro f hf hb
    rcases List.mem_append.mp hf with hf | hf
    · exact h.silent f hf hb
    · obtain rfl := List.mem_singleton.mp hf
      exact hsent
  · rw [List.filter_append, List.map_append, h.answered]
    simp [hin]

/-- One more response. -/
theorem Framed.concat_response {log : List Exchange} {rs : List Response} (h : Framed log rs)
    {e : Exchange} (hexact : e.sent = e.formatted) (hin : e.inBatch = false) {r : Response}
    (hsent : e.sent = r.text) : Framed (log ++ [e]) (rs ++ [r]) := by
  apply framed_of_answered
  · intro f hf
    rcases List.mem_append.mp hf with hf | hf
    · exact h.exact f hf
    · obtain rfl := List.mem_singleton.mp hf
      exact hexact
  · intro f hf hb
    rcases List.mem_append.mp hf with hf | hf
    · exact h.silent f hf hb
    · obtain rfl := List.mem_singleton.mp hf
      exact absurd (hin.symm.trans hb) Bool.false_ne_true
  · rw [List.filter_append, List.map_append, h.answered]
    simp [hin, hsent]

theorem Peer.Ok.counted (h : p.Ok) (buffer : Text) : (p.counted buffer).Ok := by
  rw [Peer.counted]
  split
  · exact ⟨h.lined, h.empty⟩
  · exact h

theorem counted_batchStart (p : Peer) (buffer : Text) :
    (p.counted buffer).batchStart = p.batchStart := by
  rw [Peer.counted]
  split
  · rfl
  · rfl

/-- **One request**, when all texts fit. -/
theorem exchange_framed {line : Text} (hp : p.Ok) {new : Option Reply} (hclean : ∀ r ∈ new, r.Clean)
    (hnone : new = none → p.batchStart = true)
    (hfits : ∀ r ∈ new, (r.enter (p.counted (line ++ [nul]))).Fits fmt (asked (line ++ [nul])) r)
    {log : List Exchange} {rs : List Response} (h : Framed log rs) (stack : ℕ → Char) :
    (p.after stack fmt line new.toList).Ok ∧
      ∃ rs', Framed (log ++ [p.exchange stack fmt line new.toList]) rs' := by
  have hq := hp.counted (line ++ [nul])
  have hbatch := counted_batchStart p (line ++ [nul])
  cases new with
  | none =>
    have hin : (p.exchange stack fmt line []).inBatch = true := by
      have hb := hnone rfl
      change (p.batchStart && (p.counted (line ++ [nul])).batchStart) = true
      rw [hbatch, hb]
      rfl
    exact ⟨hq, rs, h.concat_silent rfl hin rfl⟩
  | some r =>
    have hinfos : ∀ t ∈ r.infos fmt (asked (line ++ [nul])), nul ∉ t :=
      fun t ht => (r.infos_ended (hclean r rfl) fmt _ t ht).nul
    have hanswer := respond_eq_answer (hfits r rfl) hq.lined.nul_not_mem hinfos stack
    obtain ⟨hafter, hsilent, hresponse⟩ := respond_framed hq (hclean r rfl) (hfits r rfl) stack
    have hsent : (p.exchange stack fmt line [r]).sent =
        ((p.counted (line ++ [nul])).respond stack fmt (asked (line ++ [nul])) r).2 := List.append_nil _
    have hexact : (p.exchange stack fmt line [r]).sent =
        (p.exchange stack fmt line [r]).formatted := by
      rw [hsent, hanswer]
      exact (List.append_nil _).symm
    refine ⟨hafter, ?_⟩
    rw [hbatch] at hsilent hresponse
    cases hin : (p.exchange stack fmt line [r]).inBatch with
    | true =>
      refine ⟨rs, h.concat_silent hexact hin ?_⟩
      rw [Option.toList_some, hsent]
      exact hsilent (Bool.and_eq_true_iff.mp hin)
    | false =>
      have hends : ¬(p.batchStart = true ∧ ((p.counted (line ++ [nul])).respond stack fmt
          (asked (line ++ [nul])) r).1.batchStart = true) := by
        intro hb
        have htrue : (p.exchange stack fmt line [r]).inBatch = true := Bool.and_eq_true_iff.mpr hb
        exact absurd (htrue.symm.trans hin) (by decide)
      obtain ⟨res, hres⟩ := hresponse hends
      exact ⟨rs ++ [res], h.concat_response hexact hin (hsent.trans hres)⟩

/-- **Framing**: in every dialogue in which all texts fit, whatever other threads do. -/
theorem responses_framed (hdir : ∀ dir ∈ opts.baseDir, Plain dir) {ss : List (Section × Sys)}
    (hss : ∀ s ∈ ss, s.1.Plain) {others : ℕ → List (Section × Sys)}
    (hothers : ∀ n, ∀ s ∈ others n, s.1.Plain) {sys : ℕ → Sys} {w : World} {log : List Exchange}
    (h : Dialogue opts (fun fmt a r q => q.Fits fmt a r) (.among opts ss others sys) p w log) :
    ∃ rs, Framed log rs := by
  have hall : p.Ok ∧ Steady w w.replies ∧ ∃ rs, Framed log rs := by
    induction h with
    | start permissions =>
      exact ⟨⟨Lined.nil, fun _ => rfl⟩, among_steady hss hothers sys, [], Framed.nil⟩
    | @request p w w' log stack fmt now line _ hline _ hrun hfits ih =>
      obtain ⟨hp, hw, rs, hrs⟩ := ih
      have hbuffer : OneLine (line ++ [nul]) := by
        intro hmem
        rcases List.mem_append.mp hmem with hmem | hmem
        · exact hline hmem
        · exact absurd (List.mem_singleton.mp hmem) (by decide)
      obtain ⟨new, hw', hclean, hnone⟩ := answers_handleRequest hdir hbuffer []
        { w with replies := [] } ⟨hw.cache, hw.others, rfl⟩ 0 w' hrun
      have hreplies : w'.replies = new.toList := hw'.replies
      have hfits' : ∀ r ∈ new, (r.enter (p.counted (line ++ [nul]))).Fits fmt
          (asked (line ++ [nul])) r := fun r hr => hfits r (by rw [hreplies]; exact Option.mem_toList.mpr hr)
      obtain ⟨hafter, hframed⟩ := exchange_framed hp hclean (fun hn => hnone rfl hn _ rfl) hfits' hrs stack
      rw [hreplies]
      exact ⟨hafter, ⟨hw'.cache, hw'.others, hreplies⟩, hframed⟩
  exact hall.2.2

/-- What the system says in the examples. -/
def plainFmt : Fmt where
  eacces := []
  enoent := []
  access := []
  statErrno := 0
  lf _ := []
  counter _ := 0
  eacces_plain := Plain.nil
  enoent_plain := Plain.nil
  access_plain := Plain.nil
  lf_plain _ := Plain.nil

/-- An empty cache, and no other threads. -/
def quietWorld : World := .among journalOpts [] (fun _ => []) fun _ => kindSys

/-- A client that may send all commands. -/
def newPeer : Peer := ⟨false, 0, 4095, []⟩

/-- A batch without commands. -/
theorem empty_batch_framed :
    let p := newPeer.after (fun _ => 'x') plainFmt "BATCH".toList [.goAhead]
    ∃ rs, Framed [newPeer.exchange (fun _ => 'x') plainFmt "BATCH".toList [.goAhead],
      p.exchange (fun _ => 'x') plainFmt ".".toList [.batchErrors]] rs := by
  intro p
  have hstart : Dialogue journalOpts (fun fmt a r q => q.Fits fmt a r) quietWorld newPeer quietWorld [] :=
    .start 4095
  have hfirst : handleRequest journalOpts (some newPeer.sock) 0 ("BATCH".toList ++ [nul])
      { quietWorld with replies := [] } = .ok (0, { quietWorld with replies := [.goAhead] }) := rfl
  have hsock : p.sock = ⟨true, 4095⟩ := rfl
  have hsecond : handleRequest journalOpts (some p.sock) 0 (".".toList ++ [nul])
      { quietWorld with replies := [] } = .ok (0, { quietWorld with replies := [.batchErrors] }) := by
    rw [hsock]
    rfl
  have hbatch := hstart.request (fun _ => 'x') plainFmt 0 _ (by decide +kernel) (fun _ => rfl) hfirst
    fun r hr => by
      obtain rfl := List.mem_singleton.mp hr
      exact ⟨nofun, by decide +kernel, by decide +kernel⟩
  have hdot := hbatch.request (fun _ => 'x') plainFmt 0 _ (by decide +kernel) (fun _ => rfl) hsecond
    fun r hr => by
      obtain rfl := List.mem_singleton.mp hr
      exact ⟨nofun, by decide +kernel, by decide +kernel⟩
  exact responses_framed (by rintro _ ⟨⟩) (fun _ hs => absurd hs List.not_mem_nil)
    (fun _ _ hs => absurd hs List.not_mem_nil) hdot

/-! ## Texts that do not fit -/

theorem Response.nul_not_mem (r : Response) : nul ∉ r.text := by
  have hstatus : Plain (printInt r.number ++ ' ' :: r.message) :=
    (plain_printInt _).cons_blank r.message_plain
  have hlines : nul ∉ joinLines r.lines :=
    Lined.nul_not_mem ⟨r.lines, rfl, fun l hl => ⟨r.lines_plain l hl, r.lines_short l hl⟩⟩
  have htext : r.text = ((printInt r.number ++ ' ' :: r.message) ++ ['\n']) ++ joinLines r.lines := by
    simp [Response.text]
  rw [htext]
  intro hmem
  rcases List.mem_append.mp hmem with hmem | hmem
  · exact hstatus.ended.nul hmem
  · exact hlines hmem

/-- `write` goes on behind the buffer. -/
theorem nul_mem_writtenFrom (stack : ℕ → Char) {buffer : Text} {len : ℕ} (h : buffer.length < len) :
    nul ∈ writtenFrom stack buffer len := by
  rw [writtenFrom]
  apply List.mem_of_getElem? (i := buffer.length)
  rw [List.getElem?_take_of_lt h, List.getElem?_append_right (Nat.le_refl _), Nat.sub_self]
  rfl

/-- **A text that does not fit** is sent with the NUL that ends it, and with what lies behind it. -/
theorem nul_mem_sendResponse (stack : ℕ → Char) {rc : Resp} {text : Text} (hp : p.batchStart = false)
    (hnumber : (printInt (p.lines rc) ++ [' ']).length < cmdMax)
    (hlong : cmdMax ≤ (printInt (p.lines rc) ++ [' ']).length + text.length) :
    nul ∈ (p.sendResponse stack rc text).2 := by
  have hlen : (printInt (p.lines rc) ++ [' '] ++ vsnprintf (cmdMax -
      (printInt (p.lines rc) ++ [' ']).length) text).length + 1 = cmdMax := by
    rw [List.length_append, vsnprintf, List.length_take]
    omega
  simp only [Peer.sendResponse, hp, Bool.false_eq_true, false_and, if_false]
  exact List.mem_append_left _ (nul_mem_writtenFrom stack (by omega))

/-- A word as the first field of a request. -/
theorem bufferGetField_replicate {c : Char} (hend : ¬(c = ' ' ∨ c = nul)) (hesc : c ≠ '\\') (n : ℕ) :
    bufferGetField (List.replicate n c ++ [nul]) = some (List.replicate n c, []) := by
  induction n with
  | zero => rfl
  | succ n ih =>
    rw [List.replicate_succ, List.cons_append, bufferGetField.eq_def]
    dsimp only
    rw [if_neg hend, if_neg hesc, ih]
    rfl

/-- No command has a name of more than eight bytes. -/
theorem findCommand_long {t : Text} (h : 8 < t.length) : findCommand t = none := by
  have hnames : ∀ c ∈ listOfCommands, c.2.length ≤ 8 := by decide +kernel
  rw [findCommand, Option.map_eq_none_iff, List.find?_eq_none]
  intro c hc hsame
  have hlen := hnames c hc
  have hmap : t.map Char.toLower = c.2.map Char.toLower := by simpa [sameText] using hsame
  have heq := congrArg List.length hmap
  rw [List.length_map, List.length_map] at heq
  omega

/-- A command that nobody knows, as long as a request may be. -/
def longCommand : Text := List.replicate 4090 'A'

theorem longCommand_unknown : handleRequest journalOpts (some newPeer.sock) 0 (longCommand ++ [nul])
    { quietWorld with replies := [] } =
      .ok (0, { quietWorld with replies := [.unknownCommand longCommand] }) := by
  have hnul : (longCommand ++ [nul]).getLast? = some nul := by simp
  have hfield : bufferGetField (longCommand ++ [nul]) = some (longCommand, []) :=
    bufferGetField_replicate (by decide) (by decide) 4090
  have hcstr : cstr longCommand = longCommand :=
    cstr_of_not_mem fun h => absurd (List.eq_of_mem_replicate h) (by decide)
  have hlong : 8 < longCommand.length := by
    rw [longCommand, List.length_replicate]
    decide
  have hnone : findCommand longCommand = none := findCommand_long hlong
  rw [handleRequest, hnul, hfield]
  dsimp only
  rw [hcstr, hnone]
  rfl

theorem exchange_unknownCommand (stack : ℕ → Char) (fmt : Fmt) (line cmd : Text) :
    (newPeer.exchange stack fmt line [.unknownCommand cmd]).sent =
      (newPeer.sendResponse stack .err ("Unknown command: ".toList ++ cmd ++ ['\n'])).2 := by
  have hcounted : newPeer.counted (line ++ [nul]) = newPeer :=
    if_neg fun h => absurd h.1 Bool.false_ne_true
  rw [Peer.exchange, hcounted]
  exact List.append_nil _

/-- **Bytes of the stack**: the answer to an unknown command of 4090 bytes is no response. -/
theorem stack_sent : ¬ ∀ (opts : Opts) (ss : List (Section × Sys)) (others : ℕ → List (Section × Sys))
    (sys : ℕ → Sys) (p : Peer) (w : World) (log : List Exchange), (∀ dir ∈ opts.baseDir, Plain dir) →
    (∀ s ∈ ss, s.1.Plain) → (∀ n, ∀ s ∈ others n, s.1.Plain) →
    Dialogue opts (fun _ _ _ _ => True) (.among opts ss others sys) p w log → ∃ rs, Framed log rs := by
  intro h
  have hstart : Dialogue journalOpts (fun _ _ _ _ => True) quietWorld newPeer quietWorld [] :=
    .start 4095
  have hline : '\n' ∉ longCommand := fun hmem =>
    absurd (List.eq_of_mem_replicate hmem) (by decide)
  obtain ⟨rs, hrs⟩ := h _ _ _ _ _ _ _ (by rintro _ ⟨⟩) (fun _ hs => absurd hs List.not_mem_nil)
    (fun _ _ hs => absurd hs List.not_mem_nil) (hstart.request (fun _ => 'x') plainFmt 0 longCommand hline
      (fun _ => rfl) longCommand_unknown fun _ _ => trivial)
  have hsent : [(newPeer.exchange (fun _ => 'x') plainFmt longCommand
      [.unknownCommand longCommand]).sent] = rs.map Response.text := hrs.answered
  have hmem : (newPeer.exchange (fun _ => 'x') plainFmt longCommand
      [.unknownCommand longCommand]).sent ∈ rs.map Response.text := by
    rw [← hsent]
    exact List.mem_cons_self
  obtain ⟨r, -, hr⟩ := List.mem_map.mp hmem
  refine r.nul_not_mem ?_
  rw [hr, exchange_unknownCommand]
  refine nul_mem_sendResponse _ rfl (by decide +kernel) ?_
  have hlong : longCommand.length = 4090 := List.length_replicate
  have hmessage : ("Unknown command: ".toList ++ longCommand ++ ['\n']).length = 17 + 4090 + 1 := by
    rw [List.length_append, List.length_append, hlong]
    decide +kernel
  rw [List.length_append, hmessage]
  decide +kernel

end Rrdtool.Daemon
