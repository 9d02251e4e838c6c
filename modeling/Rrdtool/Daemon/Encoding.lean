import Rrdtool.Daemon.Request

/-!
# The encoding of the journal

`handle_request_update` writes the raw request to the journal, as far as it fits into `CMD_MAX`
bytes and up to its first NUL; `handle_request_forget` and the queue threads write the name of the
file as it is in the tree. `journal_replay` reads lines of `CMD_MAX - 1` bytes at most and hands
them to `handle_request`, where `FORGET` unescapes its argument and `WROTE` does not.

* `journal_reads_back_iff` — when a line is read back as the command it was written for;
* `forget_reads_back_other_file` — a name with a blank comes back as another one.
-/

namespace Rrdtool.Daemon

/-! ## Commands -/

/-- A command that changes the cache: the key of the item, and the values. -/
inductive Action : Type where
  /-- `UPDATE` -/
  | update (key : Text) (values : List Text) : Action
  /-- `FORGET` -/
  | forget (key : Text) : Action
  /-- `WROTE` -/
  | wrote (key : Text) : Action
  deriving DecidableEq

/-- The arguments of an `UPDATE`. -/
def parseUpdate (baseDir : Option Text) (buffer : Text) : Option Action :=
  (bufferGetField buffer).map fun (file, rest) =>
    .update (getAbsPath baseDir (cstr file)) (allFields rest)

/-- The argument of a `FORGET`. -/
def parseForget (baseDir : Option Text) (buffer : Text) : Option Action :=
  (bufferGetField buffer).map fun (file, _) => .forget (getAbsPath baseDir (cstr file))

/-- What `handle_request` does to the cache with a buffer. -/
def request (baseDir : Option Text) (buffer : Text) : Option Action :=
  (bufferGetField buffer).bind fun (cmd, rest) =>
    match findCommand (cstr cmd) with
    | some .update => parseUpdate baseDir rest
    | some .forget => parseForget baseDir rest
    | some .wrote => some (.wrote (cstr rest))
    | _ => none

/-- What the journal is written for. -/
inductive Occasion : Type where
  /-- the request of a client, behind the word `UPDATE` -/
  | update (args : Text) : Occasion
  /-- the request of a client, behind the word `FORGET` -/
  | forget (args : Text) : Occasion
  /-- a queue thread has written a file -/
  | wrote (key : Text) : Occasion
  deriving DecidableEq

/-- The command. -/
def Occasion.action (baseDir : Option Text) : Occasion → Option Action
  | .update args => parseUpdate baseDir args
  | .forget args => parseForget baseDir args
  | .wrote key => some (.wrote key)

/-- The line that is written; `none` if `fprintf` reads behind `orig_buf`. -/
def Occasion.line (baseDir : Option Text) : Occasion → Option Text
  | .update args => (origBuf args).map (journalLine "update".toList)
  | .forget args => (bufferGetField args).map fun (file, _) =>
      journalLine "forget".toList (getAbsPath baseDir (cstr file))
  | .wrote key => some (journalLine "wrote".toList key)

/-- Where the bytes come from: a request of a client is a line that ends with a NUL, the name of
a file is a string. -/
def Occasion.Given : Occasion → Prop
  | .update args | .forget args => '\n' ∉ args ∧ args.getLast? = some nul
  | .wrote key => nul ∉ key

/-- **The line is read back** as the command it was written for, whatever follows it. -/
def ReadsBack (baseDir : Option Text) (o : Occasion) : Prop :=
  ∃ line, o.line baseDir = some line ∧ ∀ rest, ∃ buffer,
    allEntries (line ++ rest) = .request buffer :: allEntries rest ∧
      request baseDir buffer = o.action baseDir

/-- **The line fits.** Of the arguments of an `UPDATE`, the bytes in front of the first NUL are
at most 4087, and no field can be read behind it. The name of a file to be forgotten has no blank,
no backslash and no newline, that of a file that was written no newline, and both are short. -/
def Occasion.Fits (baseDir : Option Text) : Occasion → Prop
  | .update args => (cstr args).length + 9 ≤ cmdMax ∧
      bufferGetField (args.drop ((cstr args).length + 1)) = none
  | .forget args => ∀ file rest, bufferGetField args = some (file, rest) →
      let key := getAbsPath baseDir (cstr file)
      key.length + 9 ≤ cmdMax ∧ ' ' ∉ key ∧ '\\' ∉ key ∧ '\n' ∉ key
  | .wrote key => key.length + 8 ≤ cmdMax ∧ '\n' ∉ key

/-! ## Lines -/

theorem fgets_line {w rest : Text} {size : ℕ} (hw : '\n' ∉ w) (hlen : w.length + 2 ≤ size) :
    fgets size (w ++ '\n' :: rest) = (w ++ ['\n'], rest) := by
  induction w generalizing size with
  | nil =>
    obtain ⟨size, rfl⟩ : ∃ n, size = n + 2 := ⟨size - 2, by simp at hlen; omega⟩
    simp [fgets]
  | cons c w ih =>
    obtain ⟨size, rfl⟩ : ∃ n, size = n + 2 := ⟨size - 2, by omega⟩
    have hc : c ≠ '\n' := fun h => hw (by simp [h])
    have hrest := @ih (size + 1) (fun h => hw (List.mem_cons_of_mem c h)) (by simp at hlen; omega)
    simp [fgets, hc, hrest]

/-- A line that is too long is cut. -/
theorem fgets_long {w rest : Text} {size : ℕ} (hw : '\n' ∉ w) (hlen : size ≤ w.length) :
    fgets (size + 1) (w ++ rest) = (w.take size, w.drop size ++ rest) := by
  induction w generalizing size with
  | nil =>
    obtain rfl : size = 0 := Nat.le_zero.mp hlen
    cases rest <;> rfl
  | cons c w ih =>
    cases size with
    | zero => rfl
    | succ size =>
      have hc : c ≠ '\n' := fun h => hw (by simp [h])
      have hrest := @ih size (fun h => hw (List.mem_cons_of_mem c h)) (by simpa using hlen)
      simp [fgets, hc, hrest]

/-- `fgets` reads something. -/
theorem fgets_rest_lt {size : ℕ} {file : Text} (hf : file ≠ []) :
    (fgets (size + 2) file).2.length < file.length := by
  induction file generalizing size with
  | nil => exact absurd rfl hf
  | cons c cs ih =>
    simp only [fgets]
    split_ifs
    · simp
    · cases size with
      | zero => cases cs <;> simp [fgets]
      | succ size =>
        cases cs with
        | nil => simp [fgets]
        | cons d ds =>
          have hlt := @ih size (by simp)
          exact hlt.trans (Nat.lt_succ_self _)

/-- What is read is not empty. -/
theorem fgets_ne_nil {size : ℕ} {file : Text} (hf : file ≠ []) : (fgets (size + 2) file).1 ≠ [] := by
  cases file with
  | nil => exact absurd rfl hf
  | cons c cs =>
    simp only [fgets]
    split_ifs <;> simp

theorem journalEntries_nil (fuel : ℕ) : journalEntries fuel [] = [] := by
  cases fuel <;> rfl

/-- The entry that is read first, and the others. -/
def entryOf (read : Text) (others : List Entry) : List Entry :=
  if cstr read = [] then others
  else if (cstr read).getLast? = some '\n' then .request ((cstr read).dropLast ++ [nul]) :: others
  else .malformed :: others

theorem journalEntries_succ {file : Text} (hf : file ≠ []) (fuel : ℕ) :
    journalEntries (fuel + 1) file =
      entryOf (fgets cmdMax file).1 (journalEntries fuel (fgets cmdMax file).2) := by
  have hne : (fgets cmdMax file).1 ≠ [] := fgets_ne_nil hf
  rw [journalEntries]
  generalize fgets cmdMax file = r at hne ⊢
  obtain ⟨_ | ⟨c, cs⟩, rest⟩ := r
  · exact absurd rfl hne
  · simp only [entryOf]

/-- More fuel than bytes makes no difference. -/
theorem journalEntries_fuel {file : Text} {fuel : ℕ} (h : file.length ≤ fuel) :
    journalEntries fuel file = allEntries file := by
  induction fuel using Nat.strong_induction_on generalizing file with
  | _ fuel ih =>
    by_cases hf : file = []
    · rw [hf, journalEntries_nil]
      rfl
    · have hpos : 0 < file.length := List.length_pos_of_ne_nil hf
      have hlt : (fgets cmdMax file).2.length < file.length := fgets_rest_lt hf
      obtain ⟨k, rfl⟩ : ∃ k, fuel = k + 1 := ⟨fuel - 1, by omega⟩
      obtain ⟨n, hn⟩ : ∃ n, file.length = n + 1 := ⟨file.length - 1, by omega⟩
      rw [allEntries, hn, journalEntries_succ hf, journalEntries_succ hf,
        ih k (Nat.lt_succ_self k) (by omega)]
      rcases Nat.lt_or_ge n (k + 1) with hnk | hnk
      · rw [ih n hnk (by omega)]
      · exact absurd hnk (by omega)

theorem allEntries_eq {file : Text} (hf : file ≠ []) :
    allEntries file = entryOf (fgets cmdMax file).1 (allEntries (fgets cmdMax file).2) := by
  have hpos : 0 < file.length := List.length_pos_of_ne_nil hf
  have hlt : (fgets cmdMax file).2.length < file.length := fgets_rest_lt hf
  obtain ⟨n, hn⟩ : ∃ n, file.length = n + 1 := ⟨file.length - 1, by omega⟩
  rw [allEntries, hn, journalEntries_succ hf, journalEntries_fuel (by omega)]

/-- A string ends at its first NUL. -/
theorem cstr_append {t : Text} (h : nul ∉ t) (rest : Text) : cstr (t ++ nul :: rest) = t := by
  induction t with
  | nil => exact cstr_nul rest
  | cons c t ih =>
    have hc : c ≠ nul := fun hc => h (by simp [hc])
    rw [List.cons_append, cstr_cons hc, ih fun hm => h (List.mem_cons_of_mem c hm)]

theorem cstr_of_not_mem {t : Text} (h : nul ∉ t) : cstr t = t := by
  induction t with
  | nil => rfl
  | cons c t ih =>
    have hc : c ≠ nul := fun hc => h (by simp [hc])
    rw [cstr_cons hc, ih fun hm => h (List.mem_cons_of_mem c hm)]

theorem nul_not_mem_cstr (t : Text) : nul ∉ cstr t := by
  induction t with
  | nil => exact List.not_mem_nil
  | cons c t ih =>
    by_cases hc : c = nul
    · rw [hc, cstr_nul]
      exact List.not_mem_nil
    · rw [cstr_cons hc, List.mem_cons, not_or]
      exact ⟨Ne.symm hc, ih⟩

/-- A buffer with a NUL, cut there. -/
theorem eq_append_nul {t : Text} (h : nul ∈ t) :
    t = cstr t ++ nul :: t.drop ((cstr t).length + 1) := by
  induction t with
  | nil => exact absurd h List.not_mem_nil
  | cons c t ih =>
    by_cases hc : c = nul
    · rw [hc, cstr_nul]
      rfl
    · have ht := ih ((List.mem_cons.mp h).resolve_left (Ne.symm hc))
      rw [cstr_cons hc, List.cons_append, List.length_cons, List.drop_succ_cons, ← ht]

/-- **A line that fits** is one request. -/
theorem allEntries_line {w : Text} (hn : '\n' ∉ w) (h0 : nul ∉ w) (hlen : w.length + 2 ≤ cmdMax)
    (rest : Text) :
    allEntries (w ++ '\n' :: rest) = .request (w ++ [nul]) :: allEntries rest := by
  have h0' : nul ∉ w ++ ['\n'] := by
    rw [List.mem_append, not_or]
    exact ⟨h0, by decide⟩
  rw [allEntries_eq (by simp), fgets_line hn hlen, entryOf, cstr_of_not_mem h0']
  simp

/-- **A line that is too long** starts with a malformed entry. -/
theorem allEntries_long {w : Text} (hn : '\n' ∉ w) (h0 : nul ∉ w) (hlen : cmdMax < w.length + 2)
    (rest : Text) : ∃ more, allEntries (w ++ rest) = .malformed :: more := by
  have hw : w ≠ [] := by
    rintro rfl
    exact absurd hlen (by decide)
  have hread : fgets cmdMax (w ++ rest) = (w.take 4095, w.drop 4095 ++ rest) :=
    fgets_long hn (by simp only [cmdMax] at hlen; omega)
  have h0' : nul ∉ w.take 4095 := fun h => h0 (List.mem_of_mem_take h)
  have hne : w.take 4095 ≠ [] := by simp [hw]
  have hlast : (w.take 4095).getLast? ≠ some '\n' := fun h =>
    hn (List.mem_of_mem_take (List.mem_of_getLast? h))
  refine ⟨allEntries (w.drop 4095 ++ rest), ?_⟩
  rw [allEntries_eq (by simp [hw]), hread, entryOf, cstr_of_not_mem h0', if_neg hne, if_neg hlast]

/-- Bytes without a NUL give an entry. -/
theorem allEntries_ne_nil {file : Text} (hf : file ≠ []) (h0 : nul ∉ file) :
    allEntries file ≠ [] := by
  cases file with
  | nil => exact absurd rfl hf
  | cons c cs =>
    have hc : c ≠ nul := fun h => h0 (by simp [h])
    have hread : ∃ more, (fgets cmdMax (c :: cs)).1 = c :: more := by
      simp only [cmdMax, fgets]
      split_ifs
      · exact ⟨[], rfl⟩
      · exact ⟨_, rfl⟩
    obtain ⟨more, hmore⟩ := hread
    rw [allEntries_eq hf, entryOf, hmore, cstr_cons hc, if_neg (by simp)]
    split_ifs <;> simp

/-- **When a line is read as one request**, whatever follows it. -/
theorem line_iff {w : Text} (h0 : nul ∉ w) (P : Text → Prop) :
    (∀ rest, ∃ b, allEntries (w ++ '\n' :: rest) = .request b :: allEntries rest ∧ P b) ↔
      '\n' ∉ w ∧ w.length + 2 ≤ cmdMax ∧ P (w ++ [nul]) := by
  constructor
  · intro h
    obtain ⟨b, hb, hP⟩ := h []
    by_cases hn : '\n' ∈ w
    · -- the line is cut at its first newline, and what is behind it is read as well
      obtain ⟨k, k', rfl, hk⟩ := List.eq_append_cons_of_mem hn
      rw [List.mem_append, not_or] at h0
      have hcat : k ++ '\n' :: k' ++ '\n' :: [] = k ++ '\n' :: (k' ++ '\n' :: []) := by simp
      rw [hcat] at hb
      rcases Nat.lt_or_ge cmdMax (k.length + 2) with hlong | hshort
      · obtain ⟨more, hmore⟩ := allEntries_long hk h0.1 hlong ('\n' :: (k' ++ '\n' :: []))
        rw [hmore] at hb
        exact absurd hb (by simp)
      · rw [allEntries_line hk h0.1 hshort] at hb
        have h0' : nul ∉ k' ++ '\n' :: [] := by
          rw [List.mem_append, not_or]
          exact ⟨fun hm => h0.2 (List.mem_cons_of_mem _ hm), by decide⟩
        exact absurd (List.cons.inj hb).2 (allEntries_ne_nil (by simp) h0')
    · rcases Nat.lt_or_ge cmdMax (w.length + 2) with hlong | hshort
      · obtain ⟨more, hmore⟩ := allEntries_long hn h0 hlong ('\n' :: [])
        rw [hmore] at hb
        exact absurd hb (by simp)
      · rw [allEntries_line hn h0 hshort] at hb
        obtain rfl := Entry.request.inj (List.cons.inj hb).1
        exact ⟨hn, hshort, hP⟩
  · rintro ⟨hn, hshort, hP⟩ rest
    exact ⟨w ++ [nul], allEntries_line hn h0 hshort rest, hP⟩

/-! ## Fields -/

theorem getField_stop {c : Char} (h : c = ' ' ∨ c = nul) (cs : Text) :
    bufferGetField (c :: cs) = some ([], cs) := by
  rw [bufferGetField.eq_def]
  exact if_pos h

theorem getField_escape (d : Char) (ds : Text) :
    bufferGetField ('\\' :: d :: ds) = (bufferGetField ds).map fun r => (d :: r.1, r.2) := by
  rw [bufferGetField.eq_def]
  rfl

theorem getField_cons {c : Char} (h : ¬(c = ' ' ∨ c = nul)) (he : c ≠ '\\') (cs : Text) :
    bufferGetField (c :: cs) = (bufferGetField cs).map fun r => (c :: r.1, r.2) := by
  rw [bufferGetField.eq_def]
  exact (if_neg h).trans (if_neg he)

/-- A field takes a byte at least, and is shorter than what it takes. -/
theorem getField_length {buffer field rest : Text} (h : bufferGetField buffer = some (field, rest)) :
    field.length + 1 + rest.length ≤ buffer.length := by
  induction buffer using bufferGetField.induct generalizing field rest with
  | case1 => exact absurd h (by simp [bufferGetField])
  | case2 c cs hc =>
    rw [getField_stop hc] at h
    obtain ⟨rfl, rfl⟩ := Prod.mk.inj (Option.some.inj h)
    simp [Nat.add_comm]
  | case3 => exact absurd h (by simp [bufferGetField, nul])
  | case4 d ds hc ih =>
    rw [getField_escape] at h
    obtain ⟨r, hr, heq⟩ := Option.map_eq_some_iff.mp h
    obtain ⟨rfl, rfl⟩ := Prod.mk.inj heq
    have := ih hr
    simp only [List.length_cons]
    omega
  | case5 c cs hc he ih =>
    rw [getField_cons hc he] at h
    obtain ⟨r, hr, heq⟩ := Option.map_eq_some_iff.mp h
    obtain ⟨rfl, rfl⟩ := Prod.mk.inj heq
    have := ih hr
    simp only [List.length_cons]
    omega

theorem valueFields_fuel {buffer : Text} {fuel : ℕ} (h : buffer.length ≤ fuel) :
    valueFields fuel buffer = allFields buffer := by
  induction fuel using Nat.strong_induction_on generalizing buffer with
  | _ fuel ih =>
    cases hf : bufferGetField buffer with
    | none => cases fuel <;> cases hn : buffer.length <;> simp [allFields, valueFields, hf, hn]
    | some r =>
      have hlen := getField_length hf
      obtain ⟨k, rfl⟩ : ∃ k, fuel = k + 1 := ⟨fuel - 1, by omega⟩
      obtain ⟨n, hn⟩ : ∃ n, buffer.length = n + 1 := ⟨buffer.length - 1, by omega⟩
      have hk := ih k (Nat.lt_succ_self k) (show r.2.length ≤ k by omega)
      have hn' := ih n (by omega) (show r.2.length ≤ n by omega)
      simp only [allFields, hn, valueFields, hf]
      rw [hk, hn']

/-- The fields, one by one. -/
theorem allFields_eq (buffer : Text) : allFields buffer =
    ((bufferGetField buffer).map fun r => cstr r.1 :: allFields r.2).getD [] := by
  cases hf : bufferGetField buffer with
  | none => cases hn : buffer.length <;> simp [allFields, valueFields, hf, hn]
  | some r =>
    have hlen := getField_length hf
    obtain ⟨n, hn⟩ : ∃ n, buffer.length = n + 1 := ⟨buffer.length - 1, by omega⟩
    rw [allFields, hn, valueFields, hf]
    exact congrArg (cstr r.1 :: ·) (valueFields_fuel (by omega))

/-- **What a NUL in the middle does to a field** that starts in front of it: the field ends at a
blank, it ends at the NUL, or the NUL is escaped and the field goes on behind it. -/
theorem getField_nul (a : Text) (h0 : nul ∉ a) :
    (∃ field a', a'.length < a.length ∧ nul ∉ a' ∧
      ∀ more, bufferGetField (a ++ nul :: more) = some (field, a' ++ nul :: more)) ∨
    (∃ field, ∀ more, bufferGetField (a ++ nul :: more) = some (field, more)) ∨
    ∃ x, ∀ more, bufferGetField (a ++ nul :: more) =
      (bufferGetField more).map fun r => (x ++ nul :: r.1, r.2) := by
  induction a using bufferGetField.induct with
  | case1 => exact .inr (.inl ⟨[], fun more => getField_stop (.inr rfl) more⟩)
  | case2 c cs hc =>
    refine .inl ⟨[], cs, by simp, fun h => h0 (List.mem_cons_of_mem c h), fun more => ?_⟩
    exact getField_stop hc _
  | case3 => exact .inr (.inr ⟨[], fun more => getField_escape nul more⟩)
  | case4 d ds hc ih =>
    have hd : nul ∉ ds := fun h => h0 (by simp [h])
    rcases ih hd with ⟨field, a', hlen, ha', hf⟩ | ⟨field, hf⟩ | ⟨x, hf⟩
    · refine .inl ⟨d :: field, a', ?_, ha', fun more => ?_⟩
      · simp only [List.length_cons]
        omega
      · rw [List.cons_append, List.cons_append, getField_escape, hf]
        rfl
    · refine .inr (.inl ⟨d :: field, fun more => ?_⟩)
      rw [List.cons_append, List.cons_append, getField_escape, hf]
      rfl
    · refine .inr (.inr ⟨d :: x, fun more => ?_⟩)
      rw [List.cons_append, List.cons_append, getField_escape, hf, Option.map_map]
      rfl
  | case5 c cs hc he ih =>
    rcases ih fun h => h0 (List.mem_cons_of_mem c h) with ⟨field, a', hlen, ha', hf⟩ | ⟨field, hf⟩ | ⟨x, hf⟩
    · refine .inl ⟨c :: field, a', by simp only [List.length_cons]; omega, ha', fun more => ?_⟩
      rw [List.cons_append, getField_cons hc he, hf]
      rfl
    · refine .inr (.inl ⟨c :: field, fun more => ?_⟩)
      rw [List.cons_append, getField_cons hc he, hf]
      rfl
    · refine .inr (.inr ⟨c :: x, fun more => ?_⟩)
      rw [List.cons_append, getField_cons hc he, hf, Option.map_map]
      rfl

/-- Nothing is lost behind a NUL where no field can be read. -/
theorem allFields_of_none {a more : Text} (h0 : nul ∉ a) (hm : bufferGetField more = none) :
    allFields (a ++ nul :: more) = allFields (a ++ [nul]) := by
  have hmore : allFields more = [] := by rw [allFields_eq, hm]; rfl
  induction hn : a.length using Nat.strong_induction_on generalizing a with
  | _ n ih =>
    rw [allFields_eq, allFields_eq (a ++ [nul])]
    rcases getField_nul a h0 with ⟨field, a', hlen, ha', hf⟩ | ⟨field, hf⟩ | ⟨x, hf⟩
    · rw [hf, hf]
      exact congrArg (cstr field :: ·) (ih a'.length (hn ▸ hlen) ha' rfl)
    · rw [hf, hf]
      exact congrArg (cstr field :: ·) hmore
    · rw [hf, hf, hm]
      rfl

/-- A field that can be read behind it is lost. -/
theorem allFields_of_some {a more : Text} (h0 : nul ∉ a) {r : Text × Text}
    (hm : bufferGetField more = some r) :
    (allFields (a ++ [nul])).length < (allFields (a ++ nul :: more)).length := by
  have hmore : 0 < (allFields more).length := by rw [allFields_eq, hm]; exact Nat.succ_pos _
  induction hn : a.length using Nat.strong_induction_on generalizing a with
  | _ n ih =>
    rw [allFields_eq, allFields_eq (a ++ nul :: more)]
    rcases getField_nul a h0 with ⟨field, a', hlen, ha', hf⟩ | ⟨field, hf⟩ | ⟨x, hf⟩
    · rw [hf, hf]
      exact Nat.succ_lt_succ (ih a'.length (hn ▸ hlen) ha' rfl)
    · rw [hf, hf]
      exact Nat.succ_lt_succ hmore
    · rw [hf, hf, hm]
      exact Nat.succ_pos _

/-- **The raw arguments of an `UPDATE`**, cut at the first NUL. -/
theorem parseUpdate_cut_iff {baseDir : Option Text} {a more : Text} (h0 : nul ∉ a)
    (hact : (parseUpdate baseDir (a ++ nul :: more)).isSome = true) :
    parseUpdate baseDir (a ++ [nul]) = parseUpdate baseDir (a ++ nul :: more) ↔
      bufferGetField more = none := by
  rcases getField_nul a h0 with ⟨field, a', -, ha', hf⟩ | ⟨field, hf⟩ | ⟨x, hf⟩
  · simp only [parseUpdate, hf, Option.map_some, Option.some.injEq, Action.update.injEq, true_and]
    cases hm : bufferGetField more with
    | none => exact iff_of_true (allFields_of_none ha' hm).symm rfl
    | some r =>
      have hlt := allFields_of_some ha' hm
      exact iff_of_false (fun heq => absurd (heq ▸ hlt) (Nat.lt_irrefl _)) (by simp)
  · simp only [parseUpdate, hf, Option.map_some, Option.some.injEq, Action.update.injEq, true_and]
    rw [allFields_eq more]
    cases bufferGetField more with
    | none => exact iff_of_true rfl rfl
    | some r => exact iff_of_false (by simp [allFields, valueFields]) (by simp)
  · simp only [parseUpdate, hf] at hact ⊢
    cases hm : bufferGetField more with
    | none => exact absurd hact (by simp [hm])
    | some r => exact iff_of_false (by simp [bufferGetField]) (by simp)

/-- A field without blanks and backslashes is read as it is. -/
theorem getField_plain {t : Text} (h0 : nul ∉ t) (hb : ' ' ∉ t) (he : '\\' ∉ t) {c : Char}
    (hc : c = ' ' ∨ c = nul) (more : Text) : bufferGetField (t ++ c :: more) = some (t, more) := by
  induction t with
  | nil => exact getField_stop hc more
  | cons c t ih =>
    rw [List.mem_cons, not_or] at h0 hb he
    rw [List.cons_append, getField_cons (by simp [Ne.symm hb.1, Ne.symm h0.1]) (Ne.symm he.1),
      ih h0.2 hb.2 he.2]
    rfl

/-- A name with a blank or a backslash comes back shorter. -/
theorem getField_special {t field rest : Text} (h0 : nul ∉ t) (hs : ' ' ∈ t ∨ '\\' ∈ t)
    (h : bufferGetField (t ++ [nul]) = some (field, rest)) : field.length < t.length := by
  induction t using bufferGetField.induct generalizing field rest with
  | case1 => exact absurd hs (by simp)
  | case2 c cs hc =>
    rw [List.cons_append, getField_stop hc] at h
    obtain ⟨rfl, -⟩ := Prod.mk.inj (Option.some.inj h)
    simp
  | case3 => exact absurd h (by rw [List.cons_append, List.nil_append, getField_escape]; simp [bufferGetField])
  | case4 d ds hc ih =>
    rw [List.cons_append, List.cons_append, getField_escape] at h
    obtain ⟨r, hr, heq⟩ := Option.map_eq_some_iff.mp h
    obtain ⟨rfl, -⟩ := Prod.mk.inj heq
    have hlen := getField_length hr
    simp only [List.length_append, List.length_cons, List.length_nil] at hlen ⊢
    omega
  | case5 c cs hc he ih =>
    rw [List.cons_append, getField_cons hc he] at h
    obtain ⟨r, hr, heq⟩ := Option.map_eq_some_iff.mp h
    obtain ⟨rfl, -⟩ := Prod.mk.inj heq
    have hcs : ' ' ∈ cs ∨ '\\' ∈ cs := by
      rcases hs with hs | hs
      · exact .inl ((List.mem_cons.mp hs).resolve_left fun heq => hc (.inl heq.symm))
      · exact .inr ((List.mem_cons.mp hs).resolve_left fun heq => he heq.symm)
    exact Nat.succ_lt_succ (ih (fun hm => h0 (List.mem_cons_of_mem c hm)) hcs hr)

/-! ## Names of files -/

/-- `config_base_dir`: `realpath` has returned it. -/
def BaseDir (baseDir : Option Text) : Prop := ∀ dir ∈ baseDir, dir.head? = some '/' ∧ nul ∉ dir

variable {baseDir : Option Text}

theorem getAbsPath_head {dir file : Text} (h : dir.head? = some '/') :
    (getAbsPath (some dir) file).head? = some '/' := by
  simp only [getAbsPath]
  split_ifs with hf
  · exact hf
  · cases dir with
    | nil => exact absurd h (by simp)
    | cons c dir => simpa [pathMax] using h

theorem getAbsPath_idem (hb : BaseDir baseDir) (file : Text) :
    getAbsPath baseDir (getAbsPath baseDir file) = getAbsPath baseDir file := by
  cases baseDir with
  | none => rfl
  | some dir =>
    have hhead := @getAbsPath_head dir file (hb dir rfl).1
    rw [getAbsPath.eq_def (some dir) (getAbsPath (some dir) file)]
    exact if_pos hhead

theorem nul_not_mem_getAbsPath (hb : BaseDir baseDir) {file : Text} (h0 : nul ∉ file) :
    nul ∉ getAbsPath baseDir file := by
  cases baseDir with
  | none => exact h0
  | some dir =>
    simp only [getAbsPath]
    split_ifs
    · exact h0
    · intro hm
      have hm' := List.mem_of_mem_take hm
      rw [List.mem_append, List.mem_cons] at hm'
      rcases hm' with hm' | hm' | hm'
      · exact (hb dir rfl).2 hm'
      · exact absurd hm' (by decide)
      · exact h0 hm'

/-- **The name of a file to be forgotten**, unescaped once more. -/
theorem parseForget_key_iff (hb : BaseDir baseDir) {file : Text} (h0 : nul ∉ file) :
    parseForget baseDir (getAbsPath baseDir file ++ [nul]) =
        some (.forget (getAbsPath baseDir file)) ↔
      ' ' ∉ getAbsPath baseDir file ∧ '\\' ∉ getAbsPath baseDir file := by
  have hk0 := nul_not_mem_getAbsPath hb h0
  constructor
  · intro h
    by_contra hs
    have hs' : ' ' ∈ getAbsPath baseDir file ∨ '\\' ∈ getAbsPath baseDir file := by
      by_contra hn
      exact hs (not_or.mp hn)
    obtain ⟨⟨f, r⟩, hf, heq⟩ := Option.map_eq_some_iff.mp h
    have hlt := getField_special hk0 hs' hf
    have hkey : getAbsPath baseDir (cstr f) = getAbsPath baseDir file := Action.forget.inj heq
    have hcut : (cstr f).length ≤ f.length := (List.takeWhile_prefix _).length_le
    -- what comes back is absolute where there is a base directory
    have hsame : getAbsPath baseDir (cstr f) = cstr f := by
      cases baseDir with
      | none => rfl
      | some dir =>
        have hhead := @getAbsPath_head dir file (hb dir rfl).1
        cases hk : getAbsPath (some dir) file with
        | nil => exact absurd hhead (by simp [hk])
        | cons c cs =>
          obtain rfl : c = '/' := by simpa [hk] using hhead
          rw [hk, List.cons_append, getField_cons (by decide) (by decide)] at hf
          obtain ⟨r', -, heq'⟩ := Option.map_eq_some_iff.mp hf
          obtain ⟨rfl, -⟩ := Prod.mk.inj heq'
          have hstart : (cstr ('/' :: r'.1)).head? = some '/' := by
            rw [cstr_cons (by decide)]
            rfl
          rw [getAbsPath, if_pos hstart]
    rw [← hkey, hsame] at hlt
    omega
  · rintro ⟨hblank, hesc⟩
    rw [parseForget, getField_plain hk0 hblank hesc (.inr rfl)]
    simp only [Option.map_some, cstr_of_not_mem hk0, getAbsPath_idem hb]

/-! ## The journal -/

theorem request_update (t : Text) :
    request baseDir ("update".toList ++ ' ' :: t) = parseUpdate baseDir t := by
  rw [request, getField_plain (by decide) (by decide) (by decide) (.inl rfl)]
  rfl

theorem request_forget (t : Text) :
    request baseDir ("forget".toList ++ ' ' :: t) = parseForget baseDir t := by
  rw [request, getField_plain (by decide) (by decide) (by decide) (.inl rfl)]
  rfl

theorem request_wrote (t : Text) :
    request baseDir ("wrote".toList ++ ' ' :: t) = some (.wrote (cstr t)) := by
  rw [request, getField_plain (by decide) (by decide) (by decide) (.inl rfl)]
  rfl

/-- `orig_buf` holds the bytes in front of the first NUL, if it holds a NUL. -/
theorem origBuf_append {a : Text} (h0 : nul ∉ a) (more : Text) :
    origBuf (a ++ nul :: more) = if a.length < cmdMax then some a else none := by
  generalize hn : min cmdMax (a ++ nul :: more).length = n
  have hlen : (a ++ nul :: more).length = a.length + 1 + more.length := by
    simp only [List.length_append, List.length_cons]
    omega
  simp only [origBuf, hn, List.take_append]
  split_ifs with hmem hshort hshort
  · obtain ⟨k, hk⟩ : ∃ k, n - a.length = k + 1 := ⟨n - a.length - 1, by omega⟩
    rw [List.take_of_length_le (by omega), hk, List.take_succ_cons, cstr_append h0]
  · -- the copy ends in front of the NUL
    have hz : n - a.length = 0 := by omega
    rw [hz, List.take_zero, List.append_nil] at hmem
    exact absurd (List.mem_of_mem_take hmem) h0
  · obtain ⟨k, hk⟩ : ∃ k, n - a.length = k + 1 := ⟨n - a.length - 1, by omega⟩
    rw [hk, List.take_succ_cons] at hmem
    exact absurd (List.mem_append_right _ List.mem_cons_self) hmem
  · rfl

theorem journalLine_append (cmd args rest : Text) :
    journalLine cmd args ++ rest = (cmd ++ ' ' :: args) ++ '\n' :: rest := by
  simp [journalLine]

/-- A line of the journal, with the word it starts with. -/
theorem journalLine_iff (baseDir : Option Text) (cmd : Text) {args : Text}
    (hcmd : '\n' ∉ cmd ∧ nul ∉ cmd) (h0 : nul ∉ args) (act : Option Action) :
    (∀ rest, ∃ buffer, allEntries (journalLine cmd args ++ rest) = .request buffer :: allEntries rest ∧
        request baseDir buffer = act) ↔
      args.length + (cmd.length + 3) ≤ cmdMax ∧ '\n' ∉ args ∧
        request baseDir (cmd ++ ' ' :: (args ++ [nul])) = act := by
  have hw0 : nul ∉ cmd ++ ' ' :: args := by
    rw [List.mem_append, List.mem_cons]
    rintro (h | h | h)
    · exact hcmd.2 h
    · exact absurd h (by decide)
    · exact h0 h
  have hwn : '\n' ∉ cmd ++ ' ' :: args ↔ '\n' ∉ args := by
    rw [List.mem_append, List.mem_cons]
    simp [hcmd.1]
  have hlen : (cmd ++ ' ' :: args).length = args.length + (cmd.length + 1) := by
    simp only [List.length_append, List.length_cons]
    omega
  simp only [journalLine_append]
  rw [line_iff hw0 (fun buffer => request baseDir buffer = act), hwn, hlen, List.append_assoc,
    List.cons_append]
  constructor
  · rintro ⟨h₁, h₂, h₃⟩
    exact ⟨by omega, h₁, h₃⟩
  · rintro ⟨h₁, h₂, h₃⟩
    exact ⟨h₂, by omega, h₃⟩

/-- **Reading the journal back**: a line is read as exactly one command, of the same kind, for the
same file and with the same values, if and only if it fits. -/
theorem journal_reads_back_iff (hb : BaseDir baseDir) {o : Occasion} (hgiven : o.Given)
    (hact : (o.action baseDir).isSome = true) : ReadsBack baseDir o ↔ o.Fits baseDir := by
  cases o with
  | update args =>
    obtain ⟨hn, hlast⟩ := hgiven
    have hnul : nul ∈ args := List.mem_of_getLast? hlast
    obtain ⟨a, more, h0, rfl⟩ : ∃ a more, nul ∉ a ∧ args = a ++ nul :: more :=
      ⟨_, _, nul_not_mem_cstr args, eq_append_nul hnul⟩
    have hna : '\n' ∉ a := fun h => hn (List.mem_append_left _ h)
    have hdrop : (a ++ nul :: more).drop (a.length + 1) = more := by simp
    simp only [ReadsBack, Occasion.line, Occasion.Fits, origBuf_append h0, cstr_append h0, hdrop,
      Occasion.action] at hact ⊢
    have hline := journalLine_iff baseDir "update".toList (by decide) h0
      (parseUpdate baseDir (a ++ nul :: more))
    rw [request_update, parseUpdate_cut_iff h0 hact] at hline
    constructor
    · rintro ⟨line, hl, hrest⟩
      obtain ⟨saved, hsaved, rfl⟩ := Option.map_eq_some_iff.mp hl
      obtain rfl := Option.some.inj (Option.ite_none_right_eq_some.mp hsaved).2
      obtain ⟨hlen, -, hmore⟩ := hline.mp hrest
      exact ⟨hlen, hmore⟩
    · rintro ⟨hlen, hmore⟩
      refine ⟨_, by rw [if_pos (by omega)]; rfl, hline.mpr ⟨hlen, hna, hmore⟩⟩
  | forget args =>
    obtain ⟨⟨file, rest⟩, hf⟩ : ∃ r, bufferGetField args = some r := by
      simpa [Occasion.action, parseForget, Option.isSome_iff_exists] using hact
    have h0 := nul_not_mem_cstr file
    have hline := journalLine_iff baseDir "forget".toList (by decide) (nul_not_mem_getAbsPath hb h0)
      (some (.forget (getAbsPath baseDir (cstr file))))
    rw [request_forget, parseForget_key_iff hb h0] at hline
    simp only [ReadsBack, Occasion.line, Occasion.Fits, Occasion.action, parseForget, hf,
      Option.map_some, Option.some.injEq, exists_eq_left', hline]
    constructor
    · rintro ⟨hlen, hn, hblank, hesc⟩ _ _ heq
      obtain ⟨rfl, -⟩ := Prod.mk.inj heq
      exact ⟨hlen, hblank, hesc, hn⟩
    · intro h
      obtain ⟨hlen, hblank, hesc, hn⟩ := h file rest rfl
      exact ⟨hlen, hn, hblank, hesc⟩
  | wrote key =>
    have hline := journalLine_iff baseDir "wrote".toList (by decide) hgiven (some (.wrote key))
    rw [request_wrote, cstr_append hgiven] at hline
    simp only [ReadsBack, Occasion.line, Occasion.Fits, Occasion.action, Option.some.injEq,
      exists_eq_left', hline, and_true]
    exact Iff.rfl

/-- A name with an escaped blank, in an `UPDATE` with two values. -/
theorem update_reads_back :
    let o : Occasion := .update ("my\\ file.rrd 1:2 3:4".toList ++ [nul])
    o.action none = some (.update "my file.rrd".toList ["1:2".toList, "3:4".toList]) ∧
      ReadsBack none o := by
  intro o
  have hact : o.action none =
      some (.update "my file.rrd".toList ["1:2".toList, "3:4".toList]) := by decide +kernel
  have hgiven : o.Given := ⟨by decide +kernel, by decide +kernel⟩
  have hfits : o.Fits none := ⟨by decide +kernel, by decide +kernel⟩
  refine ⟨hact, (journal_reads_back_iff ?_ hgiven ?_).mpr hfits⟩
  · exact fun _ h => absurd h (by simp)
  · rw [hact]
    rfl

/-- **A name with a blank**: `FORGET my\ file.rrd` comes back as `FORGET my`. -/
theorem forget_reads_back_other_file :
    let args : Text := "my\\ file.rrd".toList ++ [nul]
    (Occasion.forget args).Given ∧
      (Occasion.forget args).action none = some (.forget "my file.rrd".toList) ∧
      (Occasion.forget args).line none = some "forget my file.rrd\n".toList ∧
      allEntries "forget my file.rrd\n".toList = [.request ("forget my file.rrd".toList ++ [nul])] ∧
      request none ("forget my file.rrd".toList ++ [nul]) = some (.forget "my".toList) ∧
      ¬ReadsBack none (.forget args) := by
  intro args
  have hline : (Occasion.forget args).line none = some "forget my file.rrd\n".toList := by
    decide +kernel
  have hreq : request none ("forget my file.rrd".toList ++ [nul]) = some (.forget "my".toList) := by
    decide +kernel
  have hentries : allEntries "forget my file.rrd\n".toList =
      [.request ("forget my file.rrd".toList ++ [nul])] := by decide +kernel
  refine ⟨⟨by decide +kernel, by decide +kernel⟩, by decide +kernel, hline, hentries, hreq, ?_⟩
  rintro ⟨line, hl, hrest⟩
  obtain rfl := Option.some.inj (hline.symm.trans hl)
  obtain ⟨buffer, hbuffer, hback⟩ := hrest []
  rw [List.append_nil, hentries] at hbuffer
  obtain rfl := Entry.request.inj (List.cons.inj hbuffer).1
  rw [hreq] at hback
  exact absurd hback (by decide +kernel)

end Rrdtool.Daemon
