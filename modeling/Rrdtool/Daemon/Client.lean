import Rrdtool.Daemon.Connection
import Rrdtool.Daemon.Encoding

/-!
# Updates sent to the daemon

`rrdc_update` puts the word `update`, the file and the values into a buffer of 4096 bytes, each followed
by a blank, with blanks and backslashes escaped. The last blank becomes a newline. The daemon cuts lines
off the stream and takes the fields apart again.

* `client_framing_iff` — the daemon gets what was sent, unless there is a newline in it or it ends with a
  carriage return;
* `newline_sent` — which are not escaped.
-/

namespace Rrdtool.Daemon

open Slice

/-! ## The client -/

/-- The size of the buffers in `rrdc_update` and `buffer_add_value`. -/
def clientBuf : ℕ := 4096

/-- `buffer_add_string`: the bytes that it adds, if they fit into the bytes that are left. -/
def bufferAddString : (str : Text) → (bufferSize : ℕ) → Option Text
  | _, 0 => none
  | [], _ + 1 => some [' ']
  | c :: str, size + 1 =>
    if c = ' ' ∨ c = '\\' then
      match size with
      | 0 => none
      | size + 1 => (bufferAddString str size).map fun out => '\\' :: c :: out
    else (bufferAddString str size).map fun out => c :: out

/-- `buffer_add_value`; `now` is the time in seconds. -/
def bufferAddValue (now : ℕ) (value : Text) (bufferSize : ℕ) : Option Text :=
  let temp :=
    if value.take 2 = "N:".toList then ((toString now).toList ++ ':' :: value.drop 2).take (clientBuf - 1)
    else value.take (clientBuf - 1)
  bufferAddString temp bufferSize

/-- The errors of `rrdc_update` before anything is sent. -/
inductive ClientError : Type where
  /-- `ENOBUFS` -/
  | noBufs
  /-- `get_path` has failed -/
  | path
  deriving DecidableEq

/-- `get_path`: the path for a daemon at `sdPath`. -/
def getPath (realpath : Text → Option Text) (sdPath : Option Text) (path : Text) : Option Text :=
  match sdPath with
  | none => none
  | some sd =>
    if sd.head? = some '/' ∨ sd.take 5 = "unix:".toList then realpath path
    else if path.head? = some '/' then none
    else some path

/-- The values, behind what is already in the buffer. -/
def addValues (now : ℕ) : List Text → Text → Option Text
  | [], buffer => some buffer
  | value :: values, buffer =>
    (bufferAddValue now value (clientBuf - buffer.length)).bind fun out => addValues now values (buffer ++ out)

/-- **`rrdc_update`**: the request that is sent. -/
def rrdcUpdate (realpath : Text → Option Text) (sdPath : Option Text) (now : ℕ) (filename : Text)
    (values : List Text) : Except ClientError Text :=
  match bufferAddString "update".toList clientBuf with
  | none => .error .noBufs
  | some buffer =>
    match getPath realpath sdPath filename with
    | none => .error .path
    | some file =>
      match bufferAddString file (clientBuf - buffer.length) with
      | none => .error .noBufs
      | some out =>
        match addValues now values (buffer ++ out) with
        | none => .error .noBufs
        | some buffer => .ok (buffer.dropLast ++ ['\n'])

/-! ## The daemon -/

/-- What `handle_request` and `handle_request_update` read from a buffer: the file and the values, if
the command is `UPDATE`. -/
def decodeUpdate (buffer : Text) : Option (Text × List Text) :=
  (bufferGetField buffer).bind fun (cmd, rest) =>
    if findCommand (cstr cmd) = some .update then
      (bufferGetField rest).map fun (file, rest) => (cstr file, allFields rest)
    else none

/-! ## Fields, in place -/

/-- The loop of `buffer_get_field` moves the field to the front of the buffer, and leaves what is behind
it. -/
theorem getFieldLoop_field {buffer left pos fieldSize : ℕ} {mem : Mem} (h : fieldSize ≤ pos) {rest : Text} :
    ∀ field, bufferGetField (slice mem (buffer + pos) left) = some (field, rest) →
    (getFieldLoop buffer left pos fieldSize mem).1 = true ∧
      (getFieldLoop buffer left pos fieldSize mem).2.1 + rest.length = pos + left ∧
      slice (getFieldLoop buffer left pos fieldSize mem).2.2
        (buffer + (getFieldLoop buffer left pos fieldSize mem).2.1) rest.length = rest ∧
      slice (getFieldLoop buffer left pos fieldSize mem).2.2 buffer (fieldSize + field.length + 1) =
        slice mem buffer fieldSize ++ field ++ [nul] := by
  fun_induction getFieldLoop buffer left pos fieldSize mem with
  | case1 pos fieldSize mem =>
    intro field ht
    rw [slice_zero] at ht
    cases ht
  | case2 left pos fieldSize mem c hc =>
    intro field ht
    rw [slice_succ, getField_stop hc] at ht
    obtain ⟨rfl, rfl⟩ := Prod.mk.inj (Option.some.inj ht)
    refine ⟨rfl, ?_, ?_, ?_⟩
    · rw [length_slice]
      change pos + 1 + left = pos + (left + 1)
      omega
    · rw [length_slice]
      change slice (Function.update mem (buffer + fieldSize) nul) (buffer + (pos + 1)) left = _
      exact slice_update (.inl (by omega)) nul
    · change slice (Function.update mem (buffer + fieldSize) nul) buffer (fieldSize + 0 + 1) = _
      rw [Nat.add_zero, slice_update_concat, List.append_nil]
  | case3 pos fieldSize mem c hc he =>
    intro field ht
    have hc' : mem (buffer + pos) = '\\' := he
    rw [slice_succ, slice_zero, hc'] at ht
    cases ht
  | case4 pos fieldSize mem c hc he left ih =>
    intro field ht
    rw [slice_succ, slice_succ] at ht
    have hc' : mem (buffer + pos) = '\\' := he
    rw [hc', getField_escape] at ht
    obtain ⟨r, hr, heq⟩ := Option.map_eq_some_iff.mp ht
    obtain ⟨rfl, rfl⟩ := Prod.mk.inj heq
    have hsame : slice (Function.update mem (buffer + fieldSize) (mem (buffer + pos + 1)))
        (buffer + (pos + 2)) left = slice mem (buffer + pos + 1 + 1) left := slice_update (.inl (by omega)) _
    obtain ⟨hok, hpos, hrest, hfield⟩ := ih (by omega) r.1 (by rw [hsame, hr])
    refine ⟨hok, by omega, hrest, ?_⟩
    rw [slice_update_concat] at hfield
    rw [List.length_cons, show fieldSize + (r.1.length + 1) + 1 = fieldSize + 1 + r.1.length + 1 by omega,
      hfield]
    simp
  | case5 left pos fieldSize mem c hc he ih =>
    intro field ht
    rw [slice_succ] at ht
    rw [getField_cons hc he] at ht
    obtain ⟨r, hr, heq⟩ := Option.map_eq_some_iff.mp ht
    obtain ⟨rfl, rfl⟩ := Prod.mk.inj heq
    have hsame : slice (Function.update mem (buffer + fieldSize) (mem (buffer + pos)))
        (buffer + (pos + 1)) left = slice mem (buffer + pos + 1) left := slice_update (.inl (by omega)) _
    obtain ⟨hok, hpos, hrest, hfield⟩ := ih (by omega) r.1 (by rw [hsame, hr])
    refine ⟨hok, by omega, hrest, ?_⟩
    rw [slice_update_concat] at hfield
    rw [List.length_cons, show fieldSize + (r.1.length + 1) + 1 = fieldSize + 1 + r.1.length + 1 by omega,
      hfield]
    simp

/-- **`buffer_get_field` in place** finds the field that `bufferGetField` takes off the text: it is a
string at the start of the buffer, and the rest of the buffer is as it was. -/
theorem getFieldInPlace_field {mem : Mem} {buffer size : ℕ} {field rest : Text}
    (h : bufferGetField (slice mem buffer size) = some (field, rest)) :
    (getFieldInPlace mem buffer size).1 = true ∧
      (getFieldInPlace mem buffer size).2.1 + rest.length = size ∧
      slice (getFieldInPlace mem buffer size).2.2 (buffer + (getFieldInPlace mem buffer size).2.1)
        rest.length = rest ∧
      slice (getFieldInPlace mem buffer size).2.2 buffer (field.length + 1) = field ++ [nul] := by
  obtain ⟨hok, hpos, hrest, hfield⟩ := getFieldLoop_field (Nat.le_refl 0) field h
  rw [Nat.zero_add] at hpos hfield
  exact ⟨hok, hpos, hrest, hfield⟩

/-! ## Escaping -/

/-- A string with its blanks and backslashes escaped. -/
def escape : Text → Text
  | [] => []
  | c :: t => if c = ' ' ∨ c = '\\' then '\\' :: c :: escape t else c :: escape t

theorem bufferAddString_some {str out : Text} {size : ℕ} (h : bufferAddString str size = some out) :
    out = escape str ++ [' '] ∧ out.length ≤ size := by
  fun_induction bufferAddString str size generalizing out with
  | case1 => cases h
  | case2 =>
    cases h
    exact ⟨rfl, Nat.le_add_left 1 _⟩
  | case3 => cases h
  | case4 c str hc size ih =>
    obtain ⟨out', hout, rfl⟩ := Option.map_eq_some_iff.mp h
    obtain ⟨heq, hlen⟩ := ih hout
    refine ⟨by rw [escape, if_pos hc, heq]; rfl, ?_⟩
    simp only [List.length_cons]
    omega
  | case5 c str size hc ih =>
    obtain ⟨out', hout, rfl⟩ := Option.map_eq_some_iff.mp h
    obtain ⟨heq, hlen⟩ := ih hout
    refine ⟨by rw [escape, if_neg hc, heq]; rfl, ?_⟩
    simp only [List.length_cons]
    omega

theorem length_le_escape (t : Text) : t.length ≤ (escape t).length := by
  induction t with
  | nil => exact Nat.le_refl 0
  | cons c t ih =>
    rw [escape]
    split_ifs
    · simp only [List.length_cons]
      omega
    · simp only [List.length_cons]
      omega

/-- Escaping adds nothing but backslashes. -/
theorem mem_escape {c : Char} (hc : c ≠ '\\') (t : Text) : c ∈ escape t ↔ c ∈ t := by
  induction t with
  | nil => exact Iff.rfl
  | cons d t ih =>
    rw [escape]
    split_ifs
    · simp [hc, ih]
    · simp [ih]

/-- Escaping keeps the end of a string. -/
theorem getLast?_escape (t : Text) : (escape t).getLast? = t.getLast? := by
  induction t with
  | nil => rfl
  | cons c t ih =>
    rw [escape]
    cases t with
    | nil => split_ifs <;> rfl
    | cons d t =>
      have hne : escape (d :: t) ≠ [] := by
        have := length_le_escape (d :: t)
        intro h
        rw [h] at this
        simp at this
      split_ifs
      · rw [List.getLast?_cons_cons, List.getLast?_cons_of_ne_nil hne, ih, List.getLast?_cons_cons]
      · rw [List.getLast?_cons_of_ne_nil hne, ih, List.getLast?_cons_cons]

/-- **A field reads back.** -/
theorem getField_escaped {t : Text} (h0 : nul ∉ t) {c : Char} (hc : c = ' ' ∨ c = nul) (rest : Text) :
    bufferGetField (escape t ++ c :: rest) = some (t, rest) := by
  induction t with
  | nil => exact getField_stop hc rest
  | cons d t ih =>
    rw [List.mem_cons, not_or] at h0
    rw [escape]
    split_ifs with hd
    · rw [List.cons_append, List.cons_append, getField_escape, ih h0.2]
      rfl
    · rw [not_or] at hd
      have hplain : ¬(d = ' ' ∨ d = nul) := fun h => h.elim hd.1 fun h => h0.1 h.symm
      rw [List.cons_append, getField_cons hplain hd.2, ih h0.2]
      rfl

theorem escape_append (s t : Text) : escape (s ++ t) = escape s ++ escape t := by
  induction s with
  | nil => rfl
  | cons c s ih =>
    rw [List.cons_append, escape, escape, ih]
    split_ifs <;> rfl

/-! ## Fields -/

/-- Escaped fields with blanks between them. -/
def joinFields : List Text → Text
  | [] => []
  | [f] => escape f
  | f :: g :: fs => escape f ++ ' ' :: joinFields (g :: fs)

theorem joinFields_concat {fs : List Text} (h : fs ≠ []) (last : Text) :
    joinFields (fs ++ [last]) = joinFields fs ++ ' ' :: escape last := by
  induction fs with
  | nil => exact absurd rfl h
  | cons f fs ih =>
    cases fs with
    | nil => rfl
    | cons g fs =>
      have hih := ih (List.cons_ne_nil g fs)
      simp only [List.cons_append] at hih
      simp only [List.cons_append, joinFields, hih, List.append_assoc]

/-- A newline that is sent comes from one of the fields. -/
theorem mem_joinFields {c : Char} (hc : c ≠ '\\') (hb : c ≠ ' ') (fs : List Text) :
    c ∈ joinFields fs ↔ ∃ f ∈ fs, c ∈ f := by
  induction fs with
  | nil => simp [joinFields]
  | cons f fs ih =>
    cases fs with
    | nil => simp [joinFields, mem_escape hc]
    | cons g fs =>
      rw [joinFields, List.mem_append, List.mem_cons, ih, mem_escape hc]
      simp [hb]

/-- What `buffer_get_field` leaves of a request behind its first field. -/
def fieldsLeft (fs : List Text) : Text := if fs = [] then [] else joinFields fs ++ [nul]

theorem getField_join {f : Text} (h0 : nul ∉ f) (fs : List Text) :
    bufferGetField (joinFields (f :: fs) ++ [nul]) = some (f, fieldsLeft fs) := by
  cases fs with
  | nil => exact getField_escaped h0 (.inr rfl) []
  | cons g fs =>
    rw [joinFields, List.append_assoc, List.cons_append, getField_escaped h0 (.inl rfl)]
    rfl

theorem allFields_left {fs : List Text} (h0 : ∀ f ∈ fs, nul ∉ f) : allFields (fieldsLeft fs) = fs := by
  induction fs with
  | nil => rfl
  | cons f fs ih =>
    have hf : nul ∉ f := h0 f List.mem_cons_self
    rw [fieldsLeft, if_neg (List.cons_ne_nil f fs), allFields_eq, getField_join hf, Option.map_some,
      Option.getD_some, cstr_of_not_mem hf, ih fun g hg => h0 g (List.mem_cons_of_mem f hg)]

/-- **A request reads back.** -/
theorem decodeUpdate_join {file : Text} {values : List Text} (h0 : nul ∉ file)
    (hv : ∀ v ∈ values, nul ∉ v) :
    decodeUpdate (joinFields ("update".toList :: file :: values) ++ [nul]) = some (file, values) := by
  have hcmd : nul ∉ "update".toList := by decide
  have hfind : findCommand (cstr "update".toList) = some .update := by decide
  have hleft : fieldsLeft (file :: values) = joinFields (file :: values) ++ [nul] := rfl
  rw [decodeUpdate, getField_join hcmd]
  simp only [Option.bind_some, hfind, if_true, hleft, getField_join h0, Option.map_some,
    cstr_of_not_mem h0, allFields_left hv]

/-! ## What is sent -/

/-- A value that fits into the buffer has not been cut. -/
theorem bufferAddValue_some {now : ℕ} {value out : Text} {size : ℕ} (hN : value.take 2 ≠ "N:".toList)
    (hsize : size < clientBuf) (h : bufferAddValue now value size = some out) :
    out = escape value ++ [' '] ∧ out.length ≤ size := by
  simp only [bufferAddValue, if_neg hN] at h
  obtain ⟨rfl, hlen⟩ := bufferAddString_some h
  have hle := length_le_escape (value.take (clientBuf - 1))
  rw [List.length_append, List.length_singleton] at hlen
  rw [List.length_take] at hle
  have hwhole : value.take (clientBuf - 1) = value := List.take_of_length_le (by omega)
  rw [hwhole] at hlen ⊢
  refine ⟨rfl, ?_⟩
  rw [List.length_append]
  exact hlen

theorem addValues_some {now : ℕ} {values : List Text} {fs : List Text} {out : Text}
    (hN : ∀ v ∈ values, v.take 2 ≠ "N:".toList) (hfs : fs ≠ [])
    (h : addValues now values (joinFields fs ++ [' ']) = some out) :
    out = joinFields (fs ++ values) ++ [' '] := by
  induction values generalizing fs with
  | nil =>
    cases h
    rw [List.append_nil]
  | cons v values ih =>
    obtain ⟨o, ho, h⟩ := Option.bind_eq_some_iff.mp h
    have hroom : clientBuf - (joinFields fs ++ [' ']).length < clientBuf := by
      rw [List.length_append, List.length_singleton]
      have : 0 < clientBuf := by decide
      omega
    obtain ⟨rfl, -⟩ := bufferAddValue_some (hN v List.mem_cons_self) hroom ho
    have hjoin : joinFields fs ++ [' '] ++ (escape v ++ [' ']) = joinFields (fs ++ [v]) ++ [' '] := by
      rw [joinFields_concat hfs]
      simp
    rw [hjoin] at h
    have hout := ih (fun u hu => hN u (List.mem_cons_of_mem v hu)) (by simp) h
    rw [hout, List.append_assoc]
    rfl

/-- **What `rrdc_update` sends.** -/
theorem rrdcUpdate_ok {realpath : Text → Option Text} {sdPath : Option Text} {now : ℕ}
    {filename file bytes : Text} {values : List Text} (hpath : getPath realpath sdPath filename = some file)
    (hN : ∀ v ∈ values, v.take 2 ≠ "N:".toList)
    (h : rrdcUpdate realpath sdPath now filename values = .ok bytes) :
    bytes = joinFields ("update".toList :: file :: values) ++ ['\n'] := by
  have hcmd : bufferAddString "update".toList clientBuf = some "update ".toList := by decide +kernel
  simp only [rrdcUpdate, hcmd, hpath] at h
  cases hfile : bufferAddString file (clientBuf - "update ".toList.length) with
  | none =>
    rw [hfile] at h
    cases h
  | some out =>
    obtain ⟨rfl, -⟩ := bufferAddString_some hfile
    have hjoin : "update ".toList ++ (escape file ++ [' ']) =
        joinFields ["update".toList, file] ++ [' '] := rfl
    rw [hfile] at h
    simp only [hjoin] at h
    cases hvals : addValues now values (joinFields ["update".toList, file] ++ [' ']) with
    | none =>
      rw [hvals] at h
      cases h
    | some buffer =>
      rw [hvals] at h
      obtain rfl := addValues_some hN (by simp) hvals
      obtain rfl := Except.ok.inj h
      rw [List.dropLast_concat]
      rfl

/-! ## One request -/

theorem length_completeLines (s : Text) : (completeLines s).length = s.count '\n' := by
  induction s with
  | nil => rfl
  | cons c s ih =>
    rw [completeLines]
    split_ifs with hc
    · rw [hc, List.length_cons, ih, List.count_cons_self]
    · rw [List.count_cons_of_ne hc, ← ih]
      cases completeLines s <;> rfl

/-- A request with a newline in one of its fields is more than one line. -/
theorem requests_of_newline {w : Text} (h : '\n' ∈ w) : 1 < (requests (w ++ ['\n'])).length := by
  have hcount := List.count_pos_iff.mpr h
  rw [requests, List.length_map, length_completeLines, List.count_append, List.count_singleton_self]
  omega

/-- The last field decides about the carriage return. -/
theorem getLast?_joinFields {fs : List Text} (h : fs ≠ []) (last : Text) :
    (joinFields (fs ++ [last])).getLast? = some '\r' ↔ last.getLast? = some '\r' := by
  rw [joinFields_concat h, List.getLast?_append_cons]
  cases last with
  | nil => simp [escape]
  | cons c last =>
    have hne : escape (c :: last) ≠ [] := fun he => by
      have := length_le_escape (c :: last)
      rw [he] at this
      simp at this
    rw [List.getLast?_cons_of_ne_nil hne, getLast?_escape]

/-- The daemon takes one carriage return off the last field. -/
theorem decodeUpdate_stripCr {file : Text} {values : List Text} (h0 : ∀ f ∈ file :: values, nul ∉ f) :
    decodeUpdate (stripCr (joinFields ("update".toList :: file :: values)) ++ [nul]) = some (file, values) ↔
      ((file :: values).getLast (List.cons_ne_nil file values)).getLast? ≠ some '\r' := by
  have hfs := List.dropLast_append_getLast (List.cons_ne_nil file values)
  generalize (file :: values).getLast (List.cons_ne_nil file values) = last at hfs ⊢
  generalize (file :: values).dropLast = init at hfs
  have hcons : "update".toList :: (file :: values) = ("update".toList :: init) ++ [last] := by
    rw [← hfs, List.cons_append]
  have hdecode := decodeUpdate_join (h0 file List.mem_cons_self)
    fun v hv => h0 v (List.mem_cons_of_mem file hv)
  have hlast := getLast?_joinFields (List.cons_ne_nil "update".toList init) last
  rw [← hcons] at hlast
  rw [stripCr]
  split_ifs with hcr
  · -- the same request with a shorter last field
    refine ⟨fun h => ?_, fun hn => absurd (hlast.mp hcr) hn⟩
    obtain ⟨g, rfl⟩ : ∃ g, last = g ++ ['\r'] := by
      obtain ⟨l, hl⟩ := List.getLast?_eq_some_iff.mp (hlast.mp hcr)
      exact ⟨l, hl⟩
    have hdrop : (joinFields ("update".toList :: file :: values)).dropLast =
        joinFields ("update".toList :: (init ++ [g])) := by
      rw [hcons, joinFields_concat (List.cons_ne_nil _ _), escape_append]
      change (_ ++ ' ' :: (escape g ++ ['\r'])).dropLast = _
      rw [← List.cons_append, ← List.append_assoc, List.dropLast_concat, ← List.cons_append,
        joinFields_concat (List.cons_ne_nil _ _)]
    rw [hdrop] at h
    have hg0 : ∀ f ∈ init ++ [g], nul ∉ f := by
      intro f hf
      obtain hf | hf := List.mem_append.mp hf
      · exact h0 f (by rw [← hfs]; exact List.mem_append_left _ hf)
      · obtain rfl := List.mem_singleton.mp hf
        have hlast0 := h0 (f ++ ['\r']) (by rw [← hfs]; simp)
        exact fun hn => hlast0 (List.mem_append_left _ hn)
    cases hshort : init ++ [g] with
    | nil => simp at hshort
    | cons file' values' =>
      rw [hshort] at h hg0
      rw [decodeUpdate_join (hg0 file' List.mem_cons_self)
        fun v hv => hg0 v (List.mem_cons_of_mem file' hv)] at h
      obtain ⟨rfl, rfl⟩ := Prod.mk.inj (Option.some.inj h)
      have hlen := congrArg List.getLast? (hshort.trans hfs.symm)
      rw [List.getLast?_concat, List.getLast?_concat] at hlen
      have := congrArg List.length (Option.some.inj hlen)
      simp at this
  · exact ⟨fun _ h => hcr (hlast.mpr h), fun _ => hdecode⟩

/-- **Requests of a client.** The daemon reads exactly the request that `rrdc_update` was called with, if
and only if there is no newline in it and it does not end with a carriage return. -/
theorem client_framing_iff {σ : Type} {H : Handlers σ} {realpath : Text → Option Text}
    {sdPath : Option Text} {now : ℕ} {file bytes : Text} {values : List Text} {t : Serving σ}
    (hpath : getPath realpath sdPath file = some file) (h0 : nul ∉ file) (hv0 : ∀ v ∈ values, nul ∉ v)
    (hN : ∀ v ∈ values, v.take 2 ≠ "N:".toList)
    (hsend : rrdcUpdate realpath sdPath now file values = .ok bytes) (hserve : Serves H bytes t)
    (hread : t.rest = []) (hp : t.phase = .reading) :
    t.passed.map (fun p => decodeUpdate (p.1 ++ [nul])) = [some (file, values)] ↔
      ('\n' ∉ file ∧ ∀ v ∈ values, '\n' ∉ v) ∧
        ((file :: values).getLast (List.cons_ne_nil file values)).getLast? ≠ some '\r' := by
  obtain rfl := rrdcUpdate_ok hpath hN hsend
  rw [hserve.passed_eq hp (by rw [hread, List.append_nil])]
  have hcmd : '\n' ∉ "update".toList := by decide
  have hmem := mem_joinFields (by decide : '\n' ≠ '\\') (by decide) ("update".toList :: file :: values)
  by_cases hn : '\n' ∈ joinFields ("update".toList :: file :: values)
  · have hlines := requests_of_newline hn
    refine ⟨fun h => ?_, fun ⟨⟨hf, hvs⟩, _⟩ => ?_⟩
    · rw [← List.length_map (fun p => decodeUpdate (p.1 ++ [nul])), h] at hlines
      simp at hlines
    · obtain ⟨f, hfs, hin⟩ := hmem.mp hn
      obtain rfl | hfs := List.mem_cons.mp hfs
      · exact absurd hin hcmd
      · obtain rfl | hfs := List.mem_cons.mp hfs
        · exact absurd hin hf
        · exact absurd hin (hvs f hfs)
  · have hclean : '\n' ∉ file ∧ ∀ v ∈ values, '\n' ∉ v := by
      refine ⟨fun hf => hn (hmem.mpr ⟨file, by simp, hf⟩), fun v hv hin => hn (hmem.mpr ⟨v, by simp [hv], hin⟩)⟩
    have h0s : ∀ f ∈ file :: values, nul ∉ f := by
      intro f hf
      obtain rfl | hf := List.mem_cons.mp hf
      · exact h0
      · exact hv0 f hf
    rw [requests_line hn, requests_open List.not_mem_nil, List.map_cons, List.map_nil, List.singleton_inj,
      decodeUpdate_stripCr h0s]
    exact ⟨fun h => ⟨hclean, h⟩, And.right⟩

theorem blank_sent : ∃ t, Serves .idle "update a\\ b.rrd 1:2\n".toList t ∧ t.rest = [] ∧ t.phase = .reading ∧
    t.passed.map (fun p => decodeUpdate (p.1 ++ [nul])) = [some ("a b.rrd".toList, ["1:2".toList])] := by
  have hfull := serves_full "update a\\ b.rrd 1:2\n".toList (by decide) (by decide)
  have hnext : (nextCmd (.full "update a\\ b.rrd 1:2\n".toList)).1 = some (0, 19) := by decide +kernel
  have hwait := (hfull.command rfl hnext rfl).wait rfl (by decide +kernel)
  have hpath : getPath (fun _ => none) (some "host".toList) "a b.rrd".toList = some "a b.rrd".toList := by
    decide +kernel
  have hsend : rrdcUpdate (fun _ => none) (some "host".toList) 0 "a b.rrd".toList ["1:2".toList] =
      .ok "update a\\ b.rrd 1:2\n".toList := by decide +kernel
  exact ⟨_, hwait, rfl, rfl, (client_framing_iff hpath (by decide) (by decide) (by decide) hsend hwait rfl
    rfl).mpr ⟨by decide, by decide⟩⟩

/-- **A newline in the name of a file**: two requests arrive. -/
theorem newline_sent :
    getPath (fun _ => none) (some "host".toList) "a\nb".toList = some "a\nb".toList ∧
    rrdcUpdate (fun _ => none) (some "host".toList) 0 "a\nb".toList ["1:2".toList] =
      .ok "update a\nb 1:2\n".toList ∧
    ∃ t, Serves .idle "update a\nb 1:2\n".toList t ∧ t.rest = [] ∧ t.phase = .reading ∧
      t.passed = [("update a".toList, 8), ("b 1:2".toList, 5)] ∧
      t.passed.map (fun p => decodeUpdate (p.1 ++ [nul])) = [some ("a".toList, []), none] := by
  have hfull := serves_full "update a\nb 1:2\n".toList (by decide) (by decide)
  have hnext : (nextCmd (.full "update a\nb 1:2\n".toList)).1 = some (0, 8) := by decide +kernel
  have hfirst := hfull.command rfl hnext rfl
  have hnext' : (nextCmd { (nextCmd (.full "update a\nb 1:2\n".toList)).2 with
      rbuf := (getFieldInPlace (nextCmd (.full "update a\nb 1:2\n".toList)).2.rbuf 0 (8 + 1 : ℤ).toNat).2.2
      }).1 = some (9, 5) := by decide +kernel
  have hsecond := hfirst.command rfl hnext' rfl
  have hwait := hsecond.wait rfl (by decide +kernel)
  exact ⟨by decide +kernel, by decide +kernel, _, hwait, rfl, rfl, by decide +kernel, by decide +kernel⟩

end Rrdtool.Daemon
