import Rrdtool.Daemon.Request
import Rrdtool.Lib.Slice

/-!
# The connection threads: requests from a stream of bytes

`connection_thread_main` reads into a buffer of `RBUF_SIZE` bytes, and `next_cmd` cuts lines off it.
The buffer is changed in place all the time: the end of a line becomes a NUL, `handle_request` unescapes
its fields where they are, and what is left over moves to the front.

* `connection_splits` — whatever pieces the stream arrives in, `handle_request` gets its lines, without
  one carriage return at the end, as long as it returns zero;
* `quit_closes` — with `QUIT` it does not, and the lines behind it are lost.
-/

namespace Rrdtool.Daemon

open Slice

/-! ## Fields, in place -/

/-- The bytes of a process. -/
abbrev Mem : Type := ℕ → Char

/-- The loop of `buffer_get_field`: `left` bytes are left from `buffer[pos]` on, and `fieldSize` bytes of
the field have been written back. It returns whether a field was found, and the position behind it. -/
def getFieldLoop (buffer : ℕ) : (left pos fieldSize : ℕ) → Mem → Bool × ℕ × Mem
  | 0, pos, _, mem => (false, pos, mem)
  | left + 1, pos, fieldSize, mem =>
    let c := mem (buffer + pos)
    if c = ' ' ∨ c = nul then (true, pos + 1, Function.update mem (buffer + fieldSize) nul)
    else if c = '\\' then
      match left with
      | 0 => (false, pos, mem)
      | left + 1 =>
        getFieldLoop buffer left (pos + 2) (fieldSize + 1)
          (Function.update mem (buffer + fieldSize) (mem (buffer + pos + 1)))
    else
      getFieldLoop buffer left (pos + 1) (fieldSize + 1) (Function.update mem (buffer + fieldSize) c)

/-- `buffer_get_field` in place: found or not, the bytes used, and memory. -/
def getFieldInPlace (mem : Mem) (buffer size : ℕ) : Bool × ℕ × Mem := getFieldLoop buffer size 0 0 mem

/-- Memory after any number of calls of `buffer_get_field`, each behind the field before. -/
inductive Cuts : Mem → ℕ → ℕ → Mem → Prop where
  | stop (mem : Mem) (buffer size : ℕ) : Cuts mem buffer size mem
  | field {mem mem' : Mem} {buffer size : ℕ}
      (h : Cuts (getFieldInPlace mem buffer size).2.2 (buffer + (getFieldInPlace mem buffer size).2.1)
        (size - (getFieldInPlace mem buffer size).2.1) mem') :
      Cuts mem buffer size mem'

/-! ## The connection -/

/-- What a `listen_socket_t` holds for reading. The cursors are never negative; where the code subtracts
them, `next_cmd ≤ next_read`. -/
structure ReadBuf : Type where
  rbuf : Mem
  /-- `next_cmd` -/
  cmd : ℕ
  /-- `next_read` -/
  read : ℕ

/-- `next_cmd`: the address and the length of a command. -/
def nextCmd (c : ReadBuf) : Option (ℕ × ℤ) × ReadBuf :=
  match find '\n' c.rbuf c.cmd (c.read - c.cmd) with
  | none => (none, ⟨move c.rbuf c.cmd (c.read - c.cmd), 0, c.read - c.cmd⟩)
  | some eol =>
    let rbuf := Function.update c.rbuf eol nul
    if 0 < eol ∧ rbuf (eol - 1) = '\r' then
      (some (c.cmd, ((eol - 1 : ℕ) : ℤ) - c.cmd), ⟨Function.update rbuf (eol - 1) nul, eol + 1, c.read⟩)
    else (some (c.cmd, (eol : ℤ) - c.cmd), ⟨rbuf, eol + 1, c.read⟩)

/-- The handlers behind `handle_request`, with what they know. They get at the buffer with
`buffer_get_field` only. -/
structure Handlers (σ : Type) : Type where
  /-- what happens to a command that has been looked up; its status -/
  handle : σ → Option Cmd → Mem → ℕ → ℕ → ℤ × σ × Mem
  cuts : ∀ s cmd mem buffer size, Cuts mem buffer size (handle s cmd mem buffer size).2.2

/-- `handle_request`: the status, and what is left in memory. -/
def handleRequestInPlace {σ : Type} (H : Handlers σ) (s : σ) (mem : Mem) (buffer size : ℕ) : ℤ × σ × Mem :=
  let r := getFieldInPlace mem buffer size
  if r.1 = false then (-1, s, r.2.2)
  else
    match findCommand (cstr (slice r.2.2 buffer size)) with
    | some .quit => (-1, s, r.2.2)
    | cmd => H.handle s cmd r.2.2 (buffer + r.2.1) (size - r.2.1)

/-- Where `connection_thread_main` is. -/
inductive Phase : Type where
  /-- waiting in `poll` and `read` -/
  | reading
  /-- in the loop around `next_cmd` -/
  | draining
  /-- behind `out_close` -/
  | closed
  deriving DecidableEq

/-- A connection thread, the bytes that are still to come, and the commands that `handle_request` got:
the bytes at the pointer, and `cmd_len`. -/
structure Serving (σ : Type) : Type where
  conn : ReadBuf
  rest : Text
  handlers : σ
  phase : Phase
  passed : List (Text × ℤ)

/-- The command at `cmd` with `len` bytes, as `handle_request` gets it. -/
def ReadBuf.command (c : ReadBuf) (cmd : ℕ) (len : ℤ) : Text × ℤ := (slice c.rbuf cmd len.toNat, len)

/-- **The states of a connection thread** on a stream of bytes. -/
inductive Serves {σ : Type} (H : Handlers σ) (stream : Text) : Serving σ → Prop where
  /-- `malloc` has left something in the buffer -/
  | start (junk : Mem) (s : σ) : Serves H stream ⟨⟨junk, 0, 0⟩, stream, s, .reading, []⟩
  /-- `read` returns some bytes, as many as there is room for at most -/
  | read {t : Serving σ} {chunk rest : Text} (h : Serves H stream t) (hp : t.phase = .reading)
      (hne : chunk ≠ []) (hroom : chunk.length ≤ rbufSize - t.conn.read) (hrest : t.rest = chunk ++ rest) :
      Serves H stream { t with
        conn := { t.conn with rbuf := put t.conn.rbuf t.conn.read chunk, read := t.conn.read + chunk.length }
        rest := rest, phase := .draining }
  /-- `next_cmd` finds no line -/
  | wait {t : Serving σ} (h : Serves H stream t) (hp : t.phase = .draining)
      (hcmd : (nextCmd t.conn).1 = none) :
      Serves H stream { t with conn := (nextCmd t.conn).2, phase := .reading }
  /-- `handle_request` gets a line -/
  | command {t : Serving σ} {cmd : ℕ} {len status : ℤ} {s : σ} {mem : Mem} (h : Serves H stream t)
      (hp : t.phase = .draining) (hcmd : (nextCmd t.conn).1 = some (cmd, len))
      (hreq : handleRequestInPlace H t.handlers (nextCmd t.conn).2.rbuf cmd (len + 1).toNat = (status, s, mem)) :
      Serves H stream { t with
        conn := { (nextCmd t.conn).2 with rbuf := mem }, handlers := s
        phase := if status = 0 then .draining else .closed
        passed := t.passed ++ [(nextCmd t.conn).2.command cmd len] }

/-! ## What is expected of it -/

/-- The complete lines of a stream, without their newlines. -/
def completeLines : Text → List Text
  | [] => []
  | c :: cs =>
    if c = '\n' then [] :: completeLines cs
    else
      match completeLines cs with
      | [] => []
      | w :: ws => (c :: w) :: ws

/-- A line without one carriage return at its end. -/
def stripCr (w : Text) : Text := if w.getLast? = some '\r' then w.dropLast else w

/-- The commands of a stream, with their lengths. -/
def requests (stream : Text) : List (Text × ℤ) :=
  (completeLines stream).map fun w => (stripCr w, ((stripCr w).length : ℤ))

/-- Every line of a stream fits into the buffer with its newline. -/
def LinesFit (stream : Text) : Prop :=
  ∀ before w behind, stream = before ++ w ++ behind → '\n' ∉ w → w.length < rbufSize

/-! ## Lines -/

theorem completeLines_line {w : Text} (hw : '\n' ∉ w) (rest : Text) :
    completeLines (w ++ '\n' :: rest) = w :: completeLines rest := by
  induction w with
  | nil => rfl
  | cons c w ih =>
    rw [List.mem_cons, not_or] at hw
    rw [List.cons_append, completeLines, if_neg fun h => hw.1 h.symm, ih hw.2]

theorem completeLines_open {w : Text} (hw : '\n' ∉ w) : completeLines w = [] := by
  induction w with
  | nil => rfl
  | cons c w ih =>
    rw [List.mem_cons, not_or] at hw
    rw [completeLines, if_neg fun h => hw.1 h.symm, ih hw.2]

theorem requests_line {w : Text} (hw : '\n' ∉ w) (rest : Text) :
    requests (w ++ '\n' :: rest) = (stripCr w, ((stripCr w).length : ℤ)) :: requests rest := by
  rw [requests, completeLines_line hw, List.map_cons, requests]

theorem requests_open {w : Text} (hw : '\n' ∉ w) : requests w = [] := by
  rw [requests, completeLines_open hw, List.map_nil]

/-! ## `handle_request` stays in its buffer -/

/-- Memory after something that has worked on a buffer: nothing else has changed, and the NUL at its end is
still there. -/
structure WorksIn (mem : Mem) (buffer size : ℕ) (mem' : Mem) : Prop where
  frame : ∀ k, k < buffer ∨ buffer + size ≤ k → mem' k = mem k
  last : ∀ k, k + 1 = buffer + size → buffer ≤ k → mem k = nul → mem' k = nul

theorem WorksIn.refl (mem : Mem) (buffer size : ℕ) : WorksIn mem buffer size mem :=
  ⟨fun _ _ => rfl, fun _ _ _ h => h⟩

/-- A write into the buffer that does not replace the NUL at its end. -/
theorem WorksIn.update {mem : Mem} {buffer size k : ℕ} {c : Char} (h : buffer ≤ k ∧ k < buffer + size)
    (hc : k + 1 = buffer + size → mem k = nul → c = nul) :
    WorksIn mem buffer size (Function.update mem k c) := by
  refine ⟨fun j hj => Function.update_of_ne (by omega) _ _, fun j hj _ hnul => ?_⟩
  obtain rfl | hne := eq_or_ne j k
  · rw [Function.update_self]
    exact hc hj hnul
  · rw [Function.update_of_ne hne, hnul]

/-- First on the whole buffer, then on what is left of it. -/
theorem WorksIn.trans {mem mem' mem'' : Mem} {buffer size n : ℕ} (h : WorksIn mem buffer size mem')
    (hn : n ≤ size) (h' : WorksIn mem' (buffer + n) (size - n) mem'') : WorksIn mem buffer size mem'' := by
  refine ⟨fun k hk => ?_, fun k hk hle hnul => ?_⟩
  · rw [h'.frame k (by omega), h.frame k hk]
  · have hmid := h.last k hk hle hnul
    obtain hlt | hge := Nat.lt_or_ge k (buffer + n)
    · rw [h'.frame k (.inl hlt), hmid]
    · exact h'.last k (by omega) hge hmid

/-- The loop of `buffer_get_field` never gets behind the buffer, and writes behind what it reads. -/
theorem getFieldLoop_worksIn {buffer left pos fieldSize : ℕ} {mem : Mem} (h : fieldSize ≤ pos) :
    (getFieldLoop buffer left pos fieldSize mem).2.1 ≤ pos + left ∧
      WorksIn mem buffer (pos + left) (getFieldLoop buffer left pos fieldSize mem).2.2 := by
  fun_induction getFieldLoop buffer left pos fieldSize mem with
  | case1 pos fieldSize mem => exact ⟨Nat.le_refl _, WorksIn.refl _ _ _⟩
  | case2 left pos fieldSize mem c hc =>
    refine ⟨?_, WorksIn.update (by omega) fun _ _ => rfl⟩
    change pos + 1 ≤ pos + (left + 1)
    omega
  | case3 pos fieldSize mem c hc he => exact ⟨Nat.le_add_right _ _, WorksIn.refl _ _ _⟩
  | case4 pos fieldSize mem c hc he left ih =>
    obtain ⟨hle, hworks⟩ := ih (by omega)
    have hstep : WorksIn mem buffer (pos + 2 + left)
        (Function.update mem (buffer + fieldSize) (mem (buffer + pos + 1))) :=
      WorksIn.update (by omega) fun hend => by omega
    rw [show pos + (left + 1 + 1) = pos + 2 + left by omega]
    exact ⟨hle, hstep.trans (Nat.zero_le _) hworks⟩
  | case5 left pos fieldSize mem c hc he ih =>
    obtain ⟨hle, hworks⟩ := ih (by omega)
    have hstep : WorksIn mem buffer (pos + 1 + left) (Function.update mem (buffer + fieldSize) c) := by
      refine WorksIn.update (by omega) fun hend hnul => ?_
      obtain rfl : fieldSize = pos := by omega
      exact hnul
    rw [show pos + (left + 1) = pos + 1 + left by omega]
    exact ⟨hle, hstep.trans (Nat.zero_le _) hworks⟩

theorem getFieldInPlace_worksIn (mem : Mem) (buffer size : ℕ) :
    (getFieldInPlace mem buffer size).2.1 ≤ size ∧
      WorksIn mem buffer size (getFieldInPlace mem buffer size).2.2 := by
  have h := @getFieldLoop_worksIn buffer size 0 0 mem (Nat.le_refl 0)
  rw [Nat.zero_add] at h
  exact h

theorem Cuts.worksIn {mem mem' : Mem} {buffer size : ℕ} (h : Cuts mem buffer size mem') :
    WorksIn mem buffer size mem' := by
  induction h with
  | stop => exact WorksIn.refl _ _ _
  | @field mem mem' buffer size _ ih =>
    obtain ⟨hle, hworks⟩ := getFieldInPlace_worksIn mem buffer size
    exact hworks.trans hle ih

/-- **`handle_request` changes nothing but its own command**, and not the NUL at its end. -/
theorem handleRequestInPlace_worksIn {σ : Type} {H : Handlers σ} {s s' : σ} {mem mem' : Mem} {buffer size : ℕ}
    {status : ℤ} (h : handleRequestInPlace H s mem buffer size = (status, s', mem')) :
    WorksIn mem buffer size mem' := by
  obtain ⟨hle, hworks⟩ := getFieldInPlace_worksIn mem buffer size
  simp only [handleRequestInPlace] at h
  split_ifs at h
  · cases h
    exact hworks
  · split at h
    · cases h
      exact hworks
    · have hcuts := H.cuts s (findCommand (cstr (slice (getFieldInPlace mem buffer size).2.2 buffer size)))
        (getFieldInPlace mem buffer size).2.2 (buffer + (getFieldInPlace mem buffer size).2.1)
        (size - (getFieldInPlace mem buffer size).2.1)
      rw [h] at hcuts
      exact hworks.trans hle hcuts.worksIn

/-! ## `next_cmd` -/

/-- The bytes that have been read and not been used. -/
def ReadBuf.pending (c : ReadBuf) : Text := slice c.rbuf c.cmd (c.read - c.cmd)

/-- **No line**: what is left has moved to the front. -/
theorem nextCmd_none {c : ReadBuf} (h : (nextCmd c).1 = none) :
    '\n' ∉ c.pending ∧ (nextCmd c).2.cmd = 0 ∧ (nextCmd c).2.read = c.read - c.cmd ∧
      (nextCmd c).2.pending = c.pending := by
  cases hf : find '\n' c.rbuf c.cmd (c.read - c.cmd) with
  | none =>
    simp only [nextCmd, hf] at h ⊢
    refine ⟨find_eq_none.mp hf, trivial, trivial, ?_⟩
    rw [ReadBuf.pending, Nat.sub_zero, slice_move, ReadBuf.pending]
  | some eol =>
    simp only [nextCmd, hf] at h
    split_ifs at h

/-- A carriage return is looked for in front of the end of a line. -/
theorem stripCr_slice (m : Mem) (a n : ℕ) :
    stripCr (slice m a n) = if 0 < n ∧ m (a + n - 1) = '\r' then slice m a (n - 1) else slice m a n := by
  cases n with
  | zero => rfl
  | succ n =>
    rw [stripCr, slice_concat, List.getLast?_concat, List.dropLast_concat]
    simp [Nat.add_succ_sub_one]

/-- **A line**: the command is its bytes without the carriage return, and a NUL stands where the newline
was. -/
theorem nextCmd_some {c : ReadBuf} {cmd : ℕ} {len : ℤ} (hbehind : c.cmd = 0 ∨ c.rbuf (c.cmd - 1) ≠ '\r')
    (hle : c.cmd ≤ c.read) (h : (nextCmd c).1 = some (cmd, len)) :
    ∃ w, '\n' ∉ w ∧ c.pending = w ++ '\n' :: (nextCmd c).2.pending ∧ cmd = c.cmd ∧
      len = (stripCr w).length ∧ slice (nextCmd c).2.rbuf cmd (stripCr w).length = stripCr w ∧
      cmd + (stripCr w).length < (nextCmd c).2.cmd ∧ (nextCmd c).2.cmd ≤ (nextCmd c).2.read ∧
      (nextCmd c).2.read = c.read ∧ (nextCmd c).2.rbuf ((nextCmd c).2.cmd - 1) = nul := by
  cases hf : find '\n' c.rbuf c.cmd (c.read - c.cmd) with
  | none =>
    simp only [nextCmd, hf] at h
    cases h
  | some eol =>
    obtain ⟨hge, hlt, heol, hnot, hsplit⟩ := find_eq_some hf
    have hstop : c.cmd + (c.read - c.cmd) = c.read := by omega
    rw [hstop] at hlt hsplit
    have hw := stripCr_slice c.rbuf c.cmd (eol - c.cmd)
    rw [show c.cmd + (eol - c.cmd) - 1 = eol - 1 by omega] at hw
    refine ⟨slice c.rbuf c.cmd (eol - c.cmd), hnot, ?_⟩
    -- the byte in front of an empty line is not looked at, or no carriage return
    have hcr : (0 < eol ∧ Function.update c.rbuf eol nul (eol - 1) = '\r') ↔
        0 < eol - c.cmd ∧ c.rbuf (eol - 1) = '\r' := by
      constructor
      · rintro ⟨hpos, hr⟩
        rw [Function.update_of_ne (by omega)] at hr
        refine ⟨?_, hr⟩
        by_contra hempty
        obtain rfl : eol = c.cmd := by omega
        exact hbehind.elim (fun h0 => by omega) fun hne => hne hr
      · rintro ⟨hpos, hr⟩
        refine ⟨by omega, ?_⟩
        rwa [Function.update_of_ne (by omega)]
    have hpending : c.pending = slice c.rbuf c.cmd (eol - c.cmd) ++ '\n' ::
        slice c.rbuf (eol + 1) (c.read - (eol + 1)) := hsplit
    simp only [nextCmd, hf, hcr] at h ⊢
    rw [hpending]
    split_ifs at h hw ⊢ with hcut
    · cases h
      rw [hw, length_slice]
      refine ⟨?_, rfl, by omega, ?_, by change c.cmd + _ < eol + 1; omega, hlt, rfl, ?_⟩
      · change _ = _ ++ '\n' :: slice _ (eol + 1) (c.read - (eol + 1))
        rw [slice_update (.inl (by omega)), slice_update (.inl (by omega))]
      · change slice (Function.update _ _ _) _ _ = _
        rw [slice_update (.inr (by omega)), slice_update (.inr (by omega))]
      · change Function.update (Function.update c.rbuf eol nul) (eol - 1) nul eol = nul
        rw [Function.update_of_ne (by omega), Function.update_self]
    · cases h
      rw [hw, length_slice]
      refine ⟨?_, rfl, by omega, ?_, by change c.cmd + _ < eol + 1; omega, hlt, rfl, ?_⟩
      · change _ = _ ++ '\n' :: slice _ (eol + 1) (c.read - (eol + 1))
        rw [slice_update (.inl (by omega))]
      · change slice (Function.update _ _ _) _ _ = _
        rw [slice_update (.inr (by omega))]
      · change Function.update c.rbuf eol nul eol = nul
        rw [Function.update_self]

/-! ## The invariant -/

section Run

variable {σ : Type} {H : Handlers σ} {stream : Text} {t : Serving σ}

/-- What holds while a connection is served: the cursors are in order, no carriage return stands in
front of the next command, and the lines that have been passed and those that are still to come are the
lines of the stream, however it goes on. -/
structure Split (stream : Text) (t : Serving σ) : Prop where
  cmd_le : t.conn.cmd ≤ t.conn.read
  read_le : t.conn.read ≤ rbufSize
  behind : t.conn.cmd = 0 ∨ t.conn.rbuf (t.conn.cmd - 1) ≠ '\r'
  lines : ∃ used, stream = used ++ t.conn.pending ++ t.rest ∧ ∀ more,
    t.passed ++ requests (t.conn.pending ++ more) = requests (used ++ t.conn.pending ++ more)
  waiting : t.phase = .reading → t.conn.cmd = 0 ∧ '\n' ∉ t.conn.pending

theorem split_start (junk : Mem) (s : σ) :
    Split stream (⟨⟨junk, 0, 0⟩, stream, s, .reading, []⟩ : Serving σ) :=
  ⟨Nat.le_refl 0, Nat.zero_le _, .inl rfl, ⟨[], rfl, fun _ => rfl⟩, fun _ => ⟨rfl, List.not_mem_nil⟩⟩

/-- The bytes of `read` are pending. -/
theorem Split.read {chunk rest : Text} (h : Split stream t)
    (hroom : chunk.length ≤ rbufSize - t.conn.read) (hrest : t.rest = chunk ++ rest) :
    Split stream { t with
      conn := { t.conn with rbuf := put t.conn.rbuf t.conn.read chunk, read := t.conn.read + chunk.length }
      rest := rest, phase := .draining } := by
  have hle := h.cmd_le
  have hroom' := h.read_le
  have hpending : (⟨put t.conn.rbuf t.conn.read chunk, t.conn.cmd, t.conn.read + chunk.length⟩ : ReadBuf).pending =
      t.conn.pending ++ chunk := by
    change slice _ t.conn.cmd (t.conn.read + chunk.length - t.conn.cmd) = _
    rw [Nat.sub_add_comm hle, slice_add, slice_put_before (by omega), Nat.add_sub_cancel' hle, slice_put]
    rfl
  obtain ⟨used, hstream, hlines⟩ := h.lines
  refine ⟨Nat.le_add_right_of_le hle, ?_, ?_, ⟨used, ?_, fun more => ?_⟩, fun h => nomatch h⟩
  · change t.conn.read + chunk.length ≤ rbufSize
    omega
  · obtain h0 | hne := h.behind
    · exact .inl h0
    · obtain h0 | hpos := Nat.eq_zero_or_pos t.conn.cmd
      · exact .inl h0
      · refine .inr ?_
        change put _ _ _ (t.conn.cmd - 1) ≠ '\r'
        rwa [put_of_lt (by omega)]
  · rw [hpending, hstream, hrest]
    simp only [List.append_assoc]
  · have hmore := hlines (chunk ++ more)
    simp only [hpending, List.append_assoc] at hmore ⊢
    exact hmore

/-- What is left over is still pending. -/
theorem Split.wait (h : Split stream t) (hcmd : (nextCmd t.conn).1 = none) :
    Split stream { t with conn := (nextCmd t.conn).2, phase := .reading } := by
  obtain ⟨hnot, hzero, hread, hpending⟩ := nextCmd_none hcmd
  have hle := h.read_le
  refine ⟨?_, ?_, .inl hzero, ?_, fun _ => ⟨hzero, by rw [hpending]; exact hnot⟩⟩
  · change (nextCmd t.conn).2.cmd ≤ _
    rw [hzero]
    exact Nat.zero_le _
  · change (nextCmd t.conn).2.read ≤ rbufSize
    omega
  · rw [hpending]
    exact h.lines

/-- A line has been passed. -/
theorem Split.command {cmd : ℕ} {len status : ℤ} {s : σ} {mem : Mem} (h : Split stream t)
    (hcmd : (nextCmd t.conn).1 = some (cmd, len))
    (hreq : handleRequestInPlace H t.handlers (nextCmd t.conn).2.rbuf cmd (len + 1).toNat = (status, s, mem)) :
    Split stream { t with
      conn := { (nextCmd t.conn).2 with rbuf := mem }, handlers := s
      phase := if status = 0 then .draining else .closed
      passed := t.passed ++ [(nextCmd t.conn).2.command cmd len] } := by
  obtain ⟨w, hnot, hpending, rfl, rfl, hslice, hlt, hle, hread, hnul⟩ :=
    nextCmd_some h.behind h.cmd_le hcmd
  have hsize : (((stripCr w).length : ℤ) + 1).toNat = (stripCr w).length + 1 := by omega
  rw [hsize] at hreq
  have hworks := handleRequestInPlace_worksIn hreq
  -- what is pending is behind the command
  have hkeep : ({ (nextCmd t.conn).2 with rbuf := mem } : ReadBuf).pending = (nextCmd t.conn).2.pending :=
    slice_congr fun k hk _ => hworks.frame k (by change (nextCmd t.conn).2.cmd ≤ k at hk; omega)
  obtain ⟨used, hstream, hlines⟩ := h.lines
  refine ⟨hle, ?_, .inr ?_, ⟨used ++ w ++ ['\n'], ?_, fun more => ?_⟩, fun hphase => ?_⟩
  · change (nextCmd t.conn).2.read ≤ rbufSize
    rw [hread]
    exact h.read_le
  · change mem ((nextCmd t.conn).2.cmd - 1) ≠ '\r'
    have hstill : mem ((nextCmd t.conn).2.cmd - 1) = nul := by
      obtain heq | hne := eq_or_ne ((nextCmd t.conn).2.cmd - 1) (t.conn.cmd + (stripCr w).length)
      · exact hworks.last _ (by omega) (by omega) hnul
      · rw [hworks.frame _ (.inr (by omega)), hnul]
    rw [hstill]
    decide
  · rw [hkeep, hstream, hpending]
    simp only [List.append_assoc, List.cons_append, List.nil_append]
  · have hmore := hlines more
    simp only [hpending, List.append_assoc, List.cons_append, requests_line hnot] at hmore
    rw [hkeep]
    simp only [List.append_assoc, List.cons_append, List.nil_append, ← hmore]
    rw [ReadBuf.command, Int.toNat_natCast, hslice]
  · change (if status = 0 then Phase.draining else .closed) = .reading at hphase
    split_ifs at hphase

theorem Serves.split (h : Serves H stream t) : Split stream t := by
  induction h with
  | start junk s => exact split_start junk s
  | read _ _ _ hroom hrest ih => exact ih.read hroom hrest
  | wait _ _ hcmd ih => exact ih.wait hcmd
  | command _ _ hcmd hreq ih => exact ih.command hcmd hreq

/-- **What has been passed to `handle_request`** by a thread that waits: the lines of what it has read. -/
theorem Serves.passed_eq (h : Serves H stream t) (hp : t.phase = .reading) {seen : Text}
    (hseen : stream = seen ++ t.rest) : t.passed = requests seen := by
  obtain ⟨used, hstream, hlines⟩ := h.split.lines
  obtain rfl : seen = used ++ t.conn.pending := List.append_cancel_right (hseen.symm.trans hstream)
  have hnot := (h.split.waiting hp).2
  have hall := hlines []
  rwa [List.append_nil, List.append_nil, requests_open hnot, List.append_nil] at hall

/-- **Requests do not depend on packet boundaries.** Whatever pieces a stream arrives in, `handle_request`
gets its lines in order and once each, without one carriage return at the end, until it does not return
zero; there is always room to read until a line is complete. -/
theorem connection_splits (hfit : LinesFit stream) (h : Serves H stream t) :
    t.conn.cmd ≤ t.conn.read ∧ t.conn.read ≤ rbufSize ∧ (∀ p ∈ t.passed, 0 ≤ p.2) ∧
      (t.phase = .reading → 0 < rbufSize - t.conn.read) ∧
      (t.phase = .reading → ∀ seen, stream = seen ++ t.rest → t.passed = requests seen) ∧
      t.passed <+: requests stream := by
  have hsplit := h.split
  obtain ⟨used, hstream, hlines⟩ := hsplit.lines
  have hfirst : t.passed <+: requests stream := by
    rw [hstream, ← hlines]
    exact List.prefix_append _ _
  refine ⟨hsplit.cmd_le, hsplit.read_le, fun p hp => ?_, fun hp => ?_, fun hp _ hseen => h.passed_eq hp hseen,
    hfirst⟩
  · obtain ⟨w, -, rfl⟩ := List.mem_map.mp (hfirst.subset hp)
    exact Int.natCast_nonneg _
  · obtain ⟨hzero, hnot⟩ := hsplit.waiting hp
    have hlen := hfit used t.conn.pending t.rest hstream hnot
    rw [ReadBuf.pending, length_slice, hzero] at hlen
    omega

end Run


/-- Handlers that do nothing, with success. -/
def Handlers.idle : Handlers Unit where
  handle := fun _ _ mem _ _ => (0, (), mem)
  cuts := fun _ _ _ _ _ => .stop _ _ _

/-- The buffer of a thread that has read a stream in one piece. -/
def ReadBuf.full (stream : Text) : ReadBuf := ⟨put (fun _ => nul) 0 stream, 0, stream.length⟩

theorem serves_full (stream : Text) (hne : stream ≠ []) (hlen : stream.length ≤ rbufSize) :
    Serves .idle stream ⟨.full stream, [], (), .draining, []⟩ := by
  have hstart : Serves .idle stream ⟨⟨fun _ => nul, 0, 0⟩, stream, (), .reading, []⟩ := .start _ _
  have hread := hstart.read rfl hne hlen (List.append_nil stream).symm
  rwa [Nat.zero_add] at hread

/-- Short streams have short lines. -/
theorem linesFit_of_length {stream : Text} (h : stream.length < rbufSize) : LinesFit stream := by
  rintro before w behind rfl -
  rw [List.length_append, List.length_append] at h
  omega

theorem stats_splits : ∃ t, Serves .idle "STATS\r\n".toList t ∧ t.rest = [] ∧ t.phase = .reading ∧
    0 < rbufSize - t.conn.read ∧ t.passed = requests "STATS\r\n".toList := by
  have hfull := serves_full "STATS\r\n".toList (by decide) (by decide)
  have hnext : (nextCmd (.full "STATS\r\n".toList)).1 = some (0, 5) := by decide +kernel
  have hcmd := hfull.command rfl hnext rfl
  have hwait := hcmd.wait rfl (by decide +kernel)
  obtain ⟨-, -, -, hroom, hpassed, -⟩ := connection_splits (linesFit_of_length (by decide)) hwait
  exact ⟨_, hwait, rfl, rfl, hroom rfl, hpassed rfl _ (List.append_nil _).symm⟩

/-- **`QUIT`**: `handle_request` does not return zero, and the line behind it is not passed. -/
theorem quit_closes : ∃ t, Serves .idle "QUIT\nSTATS\n".toList t ∧ t.rest = [] ∧ t.phase = .closed ∧
    t.passed = [("QUIT".toList, 4)] ∧
    requests "QUIT\nSTATS\n".toList = [("QUIT".toList, 4), ("STATS".toList, 5)] := by
  have hfull := serves_full "QUIT\nSTATS\n".toList (by decide) (by decide)
  have hnext : (nextCmd (.full "QUIT\nSTATS\n".toList)).1 = some (0, 4) := by decide +kernel
  have hcmd := hfull.command rfl hnext rfl
  exact ⟨_, hcmd, rfl, rfl, by decide +kernel, by decide +kernel⟩

end Rrdtool.Daemon
