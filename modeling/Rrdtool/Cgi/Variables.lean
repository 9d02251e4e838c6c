import Rrdtool.Cgi.Decode
import Mathlib.Data.List.Induction
import Mathlib.Data.List.Nodup

/-!
# `rrdcgiReadVariables`

The query string is copied into a buffer of its length and two, of which the last byte is not set. The fields of
the copy are stored one after the other, each under its name and decoded; the value of a name that is there already
is put behind the stored one, and both are decoded, the stored one again. Behind a field the loop goes on with the
next byte, also where the field ended with the terminator.

A pointer into the copy is what is left of the buffer from there on.

* `readVariables` — the variables of a request, with the byte that is not set;
* `fieldLoop_fields` — the loop over fields, one after the other;
* `readVariables_inside_iff` — when all accesses stay inside of what has been set;
* `collects_iff` — when every value is decoded once.
-/

namespace Rrdtool.Cgi

open CStr
open Daemon (nul cstr cstr_of_not_mem nul_not_mem_cstr)

/-! ## The fields -/

/-- `s_var` -/
structure SVar : Type where
  name : Text
  value : Text
  deriving DecidableEq

/-- `!strncmp(result[k]->name, cp, n) && strlen(result[k]->name) == n` -/
def SVar.hasName (r : SVar) (cp : Text) (n : ℕ) : Bool := decide (r.name.take n = cp.take n) && decide (r.name.length = n)

/-- Stores a field into `result`, behind the variables or into the first one of this name. -/
def storeField (name value : Text) : List SVar → Option (List SVar)
  | [] => (decodeValue value).map fun v => [⟨name, v⟩]
  | r :: vars =>
    if r.hasName name name.length then
      (decodeValue (r.value ++ '\n' :: value)).map fun v => { r with value := v } :: vars
    else (storeField name value vars).map (r :: ·)

/-- One field. Without a `=` it is passed over. -/
def stepField (numargs : ℕ) (vars : List SVar) (field : Text) : Option (List SVar) :=
  match cutAt '=' field with
  | none => some vars
  | some (name, value) => if vars.length < numargs then storeField name value vars else some vars

/-- The text up to the next `&` or to the terminator, and what is behind that. -/
def cutField : List Char → Option (Text × List Char)
  | [] => none
  | c :: s => if c = '&' ∨ c = nul then some ([], s) else (cutField s).map fun p => (c :: p.1, p.2)

theorem cutField_length {s t r : List Char} (h : cutField s = some (t, r)) : r.length < s.length := by
  induction s generalizing t with
  | nil => cases h
  | cons c s ih =>
    rw [cutField] at h
    split_ifs at h with hc
    · obtain ⟨rfl, rfl⟩ := Prod.mk.inj (Option.some.inj h)
      exact Nat.lt_succ_self _
    · obtain ⟨⟨t', r'⟩, hcut, heq⟩ := Option.map_eq_some_iff.mp h
      obtain ⟨-, rfl⟩ := Prod.mk.inj heq
      exact (ih hcut).trans (Nat.lt_succ_self _)

/-- `while (*cp)`. There is no result when a byte behind the buffer is read. -/
def fieldLoop (numargs : ℕ) (rest : List Char) (vars : List SVar) : Option (List SVar) :=
  match rest with
  | [] => none
  | c :: s =>
    if c = nul then some vars
    else
      match _h : cutField (c :: s) with
      | none => none
      | some (field, rest') => (stepField numargs vars field).bind (fieldLoop numargs rest')
termination_by rest.length
decreasing_by exact cutField_length _h

/-- The loop that replaces `+`. -/
def plusToSpace (s : Text) : Text := s.map fun c => if c = '+' then ' ' else c

/-- `rrdcgiReadVariables` of a `GET`, with the byte behind the terminator of the copy. An empty query string has no
variables. -/
def readVariables (query : Text) (junk : Char) : Option (Option (List SVar)) :=
  if query = [] then some none
  else
    let line := plusToSpace query
    (fieldLoop (line.count '&' + 1) (line ++ [nul, junk]) []).map some

/-- `rrdcgiGetValue` -/
def rrdcgiGetValue (parms : Option (List SVar)) (name : Text) : Option Text :=
  parms.bind fun vars => (vars.find? fun r => r.name = name).map SVar.value

/-! ## One field -/

variable {vars vars' : List SVar} {name value : Text} {numargs : ℕ}

theorem hasName_iff {r : SVar} : r.hasName name name.length = true ↔ r.name = name := by
  rw [SVar.hasName, Bool.and_eq_true, decide_eq_true_iff, decide_eq_true_iff, List.take_length]
  constructor
  · rintro ⟨htake, hlen⟩
    rwa [List.take_of_length_le hlen.le] at htake
  · rintro rfl
    exact ⟨List.take_length, rfl⟩

/-- A value that is put behind another one. -/
theorem decodeValue_line {w : Text} (hw : nul ∉ w) (v : Text) :
    decodeValue (w ++ '\n' :: v) = (unescape (v ++ [nul])).map fun d => cstr (decodeLine w ++ '\n' :: d) := by
  rw [decodeValue_eq, List.append_assoc, List.cons_append, unescape_line hw, Option.map_map]
  rfl

/-- **A field is stored** unless its value ends within an escape, whatever is there already. -/
theorem storeField_eq_none_iff (hvars : ∀ r ∈ vars, nul ∉ r.value) (hv : nul ∉ value) :
    storeField name value vars = none ↔ StrayEnd value := by
  induction vars with
  | nil => rw [storeField, Option.map_eq_none_iff, decodeValue_eq_none_iff hv]
  | cons r vars ih =>
    rw [List.forall_mem_cons] at hvars
    rw [storeField]
    split_ifs
    · rw [Option.map_eq_none_iff, decodeValue_line hvars.1, Option.map_eq_none_iff, unescape_eq_none_iff hv]
    · rw [Option.map_eq_none_iff, ih hvars.2]

theorem nul_not_mem_decodeValue {s v : Text} (h : decodeValue s = some v) : nul ∉ v := by
  rw [decodeValue, Option.map_eq_some_iff] at h
  obtain ⟨t, -, rfl⟩ := h
  exact nul_not_mem_cstr t

/-- The stored values are strings, and there is at most one more. -/
theorem storeField_spec (hvars : ∀ r ∈ vars, nul ∉ r.value) (h : storeField name value vars = some vars') :
    (∀ r ∈ vars', nul ∉ r.value) ∧ vars'.length ≤ vars.length + 1 := by
  induction vars generalizing vars' with
  | nil =>
    obtain ⟨v, hv, rfl⟩ := Option.map_eq_some_iff.mp h
    exact ⟨List.forall_mem_singleton.mpr (nul_not_mem_decodeValue hv), le_rfl⟩
  | cons r vars ih =>
    rw [List.forall_mem_cons] at hvars
    rw [storeField] at h
    split_ifs at h
    · obtain ⟨v, hv, rfl⟩ := Option.map_eq_some_iff.mp h
      exact ⟨List.forall_mem_cons.mpr ⟨nul_not_mem_decodeValue hv, hvars.2⟩, Nat.le_succ _⟩
    · obtain ⟨vars₁, hstore, rfl⟩ := Option.map_eq_some_iff.mp h
      obtain ⟨hnul, hlen⟩ := ih hvars.2 hstore
      exact ⟨List.forall_mem_cons.mpr ⟨hvars.1, hnul⟩, Nat.succ_le_succ hlen⟩

/-! ## The loop -/

theorem cutField_eq {f : Text} (hamp : '&' ∉ f) (hnul : nul ∉ f) {c : Char} (hc : c = '&' ∨ c = nul) (r : List Char) :
    cutField (f ++ c :: r) = some (f, r) := by
  induction f with
  | nil => exact if_pos hc
  | cons a f ih =>
    rw [List.mem_cons, not_or] at hamp hnul
    rw [List.cons_append, cutField, if_neg fun h => h.elim (Ne.symm hamp.1) (Ne.symm hnul.1), ih hamp.2 hnul.2,
      Option.map_some]

theorem cutField_eq_none {s : List Char} (hamp : '&' ∉ s) (hnul : nul ∉ s) : cutField s = none := by
  induction s with
  | nil => rfl
  | cons c s ih =>
    rw [List.mem_cons, not_or] at hamp hnul
    rw [cutField, if_neg fun h => h.elim (Ne.symm hamp.1) (Ne.symm hnul.1), ih hamp.2 hnul.2, Option.map_none]

/-- One pass of the loop. -/
theorem fieldLoop_step {c : Char} {s r : List Char} {f : Text} (hc : c ≠ nul) (hcut : cutField (c :: s) = some (f, r)) :
    fieldLoop numargs (c :: s) vars = (stepField numargs vars f).bind (fieldLoop numargs r) := by
  rw [fieldLoop, if_neg hc]
  split
  · rename_i hnone
    rw [hcut] at hnone
    cases hnone
  · rename_i f' r' hsome
    rw [hcut] at hsome
    obtain ⟨rfl, rfl⟩ := Prod.mk.inj (Option.some.inj hsome)
    rfl

theorem fieldLoop_nul (s : List Char) : fieldLoop numargs (nul :: s) vars = some vars := by
  rw [fieldLoop, if_pos rfl]

/-- The fields that a `&` is behind. -/
theorem fieldLoop_fields {fs : List Text} (hfs : ∀ f ∈ fs, '&' ∉ f ∧ nul ∉ f) (r : List Char) :
    fieldLoop numargs (fs.flatMap (· ++ ['&']) ++ r) vars =
      (fs.foldlM (stepField numargs) vars).bind (fieldLoop numargs r) := by
  induction fs generalizing vars with
  | nil => rfl
  | cons f fs ih =>
    rw [List.forall_mem_cons] at hfs
    obtain ⟨⟨hamp, hnul⟩, hfs⟩ := hfs
    have htext : (f :: fs).flatMap (· ++ ['&']) ++ r = f ++ '&' :: (fs.flatMap (· ++ ['&']) ++ r) := by simp
    have hcut := cutField_eq hamp hnul (.inl rfl) (fs.flatMap (· ++ ['&']) ++ r)
    have hstep : fieldLoop numargs (f ++ '&' :: (fs.flatMap (· ++ ['&']) ++ r)) vars =
        (stepField numargs vars f).bind (fieldLoop numargs (fs.flatMap (· ++ ['&']) ++ r)) := by
      cases f with
      | nil => exact fieldLoop_step (by decide) hcut
      | cons c f => exact fieldLoop_step (fun hc => hnul (by simp [hc])) hcut
    rw [htext, hstep, List.foldlM_cons]
    cases stepField numargs vars f with
    | none => rfl
    | some vars' => exact ih hfs

/-- The field that the terminator is behind. The loop goes on with the byte that is not set. -/
theorem fieldLoop_last {f : Text} (hne : f ≠ []) (hamp : '&' ∉ f) (hnul : nul ∉ f) (junk : Char) :
    fieldLoop numargs (f ++ [nul, junk]) vars = (stepField numargs vars f).bind (fieldLoop numargs [junk]) := by
  have hcut := cutField_eq hamp hnul (.inr rfl) [junk]
  cases f with
  | nil => exact absurd rfl hne
  | cons c f => exact fieldLoop_step (fun hc => hnul (by simp [hc])) hcut

/-- That byte stops the loop only if it happens to be zero. -/
theorem fieldLoop_junk (junk : Char) : fieldLoop numargs [junk] vars = if junk = nul then some vars else none := by
  split_ifs with hjunk
  · rw [hjunk]
    exact fieldLoop_nul []
  · by_cases hamp : junk = '&'
    · subst hamp
      rw [fieldLoop_step (f := []) (r := []) hjunk rfl, stepField, cutAt]
      dsimp only
      rw [Option.bind_some, fieldLoop]
    · rw [fieldLoop, if_neg hjunk]
      split
      · rfl
      · rename_i h
        rw [cutField_eq_none (by simp [Ne.symm hamp]) (by simp [Ne.symm hjunk])] at h
        cases h

/-! ## The fields of a request -/

theorem intercalate_append_singleton (sep : Char) (fs : List Text) (last : Text) :
    [sep].intercalate (fs ++ [last]) = fs.flatMap (· ++ [sep]) ++ last := by
  induction fs with
  | nil => exact List.intercalate_singleton
  | cons f fs ih =>
    rw [List.cons_append, List.intercalate_cons_of_ne_nil (List.append_ne_nil_of_right_ne_nil fs (List.cons_ne_nil last [])),
      ih]
    simp

/-- A text is its fields, with a `&` behind all but the last. -/
theorem exists_fields (t : Text) :
    ∃ fs last, splitOn '&' t = fs ++ [last] ∧ t = fs.flatMap (· ++ ['&']) ++ last ∧ ∀ f ∈ fs ++ [last], '&' ∉ f := by
  have hsplit := List.dropLast_append_getLast (splitOn_ne_nil '&' t)
  refine ⟨_, _, hsplit.symm, ?_, ?_⟩
  · rw [← intercalate_append_singleton, hsplit, splitOn_eq, List.intercalate_splitOn]
  · rw [hsplit]
    exact fun f hf hmem => (mem_splitOn hf _ hmem).1 rfl

/-- One field, without the check of the number of fields. -/
def addField (vars : List SVar) (field : Text) : Option (List SVar) :=
  match cutAt '=' field with
  | none => some vars
  | some (name, value) => storeField name value vars

theorem addField_spec (hvars : ∀ r ∈ vars, nul ∉ r.value) {f : Text} (h : addField vars f = some vars') :
    (∀ r ∈ vars', nul ∉ r.value) ∧ vars'.length ≤ vars.length + 1 := by
  rw [addField] at h
  cases hcut : cutAt '=' f with
  | none =>
    simp only [hcut] at h
    obtain rfl := Option.some.inj h
    exact ⟨hvars, Nat.le_succ _⟩
  | some p =>
    simp only [hcut] at h
    exact storeField_spec hvars h

/-- The check of the number of fields passes. -/
theorem foldlM_stepField {fs : List Text} (hvars : ∀ r ∈ vars, nul ∉ r.value)
    (hlen : vars.length + fs.length ≤ numargs) : fs.foldlM (stepField numargs) vars = fs.foldlM addField vars := by
  induction fs generalizing vars with
  | nil => rfl
  | cons f fs ih =>
    rw [List.length_cons] at hlen
    have hstep : stepField numargs vars f = addField vars f := by
      rw [stepField, addField]
      cases cutAt '=' f with
      | none => rfl
      | some p => exact if_pos (by omega)
    rw [List.foldlM_cons, List.foldlM_cons, hstep]
    cases hadd : addField vars f with
    | none => rfl
    | some vars' =>
      obtain ⟨hnul, hlen'⟩ := addField_spec hvars hadd
      exact ih hnul (by omega)

/-- **The fields are stored** unless one of them has a value that ends within an escape. -/
theorem foldlM_addField_eq_none_iff {fs : List Text} (hvars : ∀ r ∈ vars, nul ∉ r.value) (hfs : ∀ f ∈ fs, nul ∉ f) :
    fs.foldlM addField vars = none ↔ ∃ f ∈ fs, ∃ name value, cutAt '=' f = some (name, value) ∧ StrayEnd value := by
  induction fs generalizing vars with
  | nil => simp
  | cons f fs ih =>
    rw [List.forall_mem_cons] at hfs
    have hfirst : addField vars f = none ↔ ∃ name value, cutAt '=' f = some (name, value) ∧ StrayEnd value := by
      rw [addField]
      cases hcut : cutAt '=' f with
      | none => simp
      | some p =>
        obtain ⟨name, value⟩ := p
        have hvalue : nul ∉ value := fun hmem => hfs.1 (by
          rw [(cutAt_eq_some.mp hcut).1]
          exact List.mem_append_right _ (List.mem_cons_of_mem _ hmem))
        dsimp only
        rw [storeField_eq_none_iff hvars hvalue]
        simp
    rw [List.foldlM_cons, List.exists_mem_cons_iff, ← hfirst]
    cases hadd : addField vars f with
    | none => simp
    | some vars' =>
      have hrest := ih (addField_spec hvars hadd).1 hfs.2
      simpa using hrest

/-! ## Accesses -/

theorem plusToSpace_eq_iff {c : Char} (hplus : c ≠ '+') (hspace : c ≠ ' ') (a : Char) :
    (if a = '+' then ' ' else a) = c ↔ a = c := by
  split_ifs with ha
  · rw [ha]
    exact iff_of_false (Ne.symm hspace) (Ne.symm hplus)
  · rfl

theorem mem_plusToSpace {c : Char} (hplus : c ≠ '+') (hspace : c ≠ ' ') {s : Text} : c ∈ plusToSpace s ↔ c ∈ s := by
  rw [plusToSpace, List.mem_map]
  simp only [plusToSpace_eq_iff hplus hspace, exists_eq_right]

/-- The fields of a request, up to the last `&` and behind it. -/
theorem plusToSpace_fields {q : Text} (hnul : nul ∉ q) {fs : List Text} {last : Text}
    (hsplit : splitOn '&' (plusToSpace q) = fs ++ [last]) :
    plusToSpace q = fs.flatMap (· ++ ['&']) ++ last ∧ (plusToSpace q).count '&' = fs.length ∧
      ∀ f ∈ fs ++ [last], '&' ∉ f ∧ nul ∉ f := by
  obtain ⟨fs', last', hsplit', htext, hamp⟩ := exists_fields (plusToSpace q)
  obtain ⟨rfl, hlast⟩ := List.append_inj' (hsplit'.symm.trans hsplit) rfl
  obtain rfl := List.singleton_inj.mp hlast
  have hfields : ∀ f ∈ fs' ++ [last'], '&' ∉ f ∧ nul ∉ f := by
    refine fun f hf => ⟨hamp f hf, fun hmem => ?_⟩
    rw [← hsplit'] at hf
    exact hnul ((mem_plusToSpace (by decide) (by decide)).mp (mem_splitOn hf _ hmem).2)
  have hcount : ∀ fs : List Text, (∀ f ∈ fs, '&' ∉ f) → (fs.flatMap (· ++ ['&'])).count '&' = fs.length := by
    intro fs hfs
    induction fs with
    | nil => rfl
    | cons f fs ih =>
      rw [List.forall_mem_cons] at hfs
      rw [List.flatMap_cons, List.count_append, List.count_append, ih hfs.2, List.count_eq_zero_of_not_mem hfs.1,
        List.count_singleton_self, List.length_cons]
      omega
  refine ⟨htext, ?_, hfields⟩
  rw [htext, List.count_append, hcount fs' fun f hf => hamp f (List.mem_append_left _ hf),
    List.count_eq_zero_of_not_mem (hamp last' (by simp)), Nat.add_zero]

/-- **The variables of a request** that is not empty, by what is behind its last `&`. -/
theorem readVariables_eq {q : Text} (hq : q ≠ []) (hnul : nul ∉ q) (junk : Char) {fs : List Text} {last : Text}
    (hsplit : splitOn '&' (plusToSpace q) = fs ++ [last]) :
    readVariables q junk =
      if last = [] then (fs.foldlM addField []).map some
      else if junk = nul then ((fs ++ [last]).foldlM addField []).map some else none := by
  obtain ⟨htext, hcount, hfields⟩ := plusToSpace_fields hnul hsplit
  have hnone : ∀ r ∈ ([] : List SVar), nul ∉ r.value := fun r hr => absurd hr List.not_mem_nil
  have hlen : ([] : List SVar).length + (fs ++ [last]).length ≤ fs.length + 1 := by simp
  rw [readVariables, if_neg hq]
  dsimp only
  rw [hcount, htext, List.append_assoc, fieldLoop_fields fun f hf => hfields f (List.mem_append_left _ hf)]
  split_ifs with hlast hjunk
  · rw [hlast, List.nil_append, foldlM_stepField hnone (by simp)]
    cases fs.foldlM addField [] with
    | none => rfl
    | some vars => rw [Option.bind_some, fieldLoop_nul]
  · rw [← foldlM_stepField hnone hlen, List.foldlM_append]
    cases fs.foldlM (stepField (fs.length + 1)) [] with
    | none => rfl
    | some vars =>
      obtain ⟨hamp, hnul'⟩ := hfields last (by simp)
      rw [Option.bind_some, fieldLoop_last hlast hamp hnul', hjunk]
      cases hstep : stepField (fs.length + 1) vars last with
      | none => simp [hstep]
      | some vars' => simp [hstep, fieldLoop_nul]
  · cases fs.foldlM (stepField (fs.length + 1)) [] with
    | none => rfl
    | some vars =>
      obtain ⟨hamp, hnul'⟩ := hfields last (by simp)
      rw [Option.bind_some, fieldLoop_last hlast hamp hnul']
      cases stepField (fs.length + 1) vars last with
      | none => rfl
      | some vars' => rw [Option.bind_some, fieldLoop_junk, if_neg hjunk, Option.map_none]

/-- A request ends with a `&` if nothing is behind its last one. -/
theorem getLast?_eq_amp_iff {q : Text} (hq : q ≠ []) (hnul : nul ∉ q) {fs : List Text} {last : Text}
    (hsplit : splitOn '&' (plusToSpace q) = fs ++ [last]) : q.getLast? = some '&' ↔ last = [] := by
  obtain ⟨htext, -, hfields⟩ := plusToSpace_fields hnul hsplit
  have hplus : q.getLast? = some '&' ↔ (plusToSpace q).getLast? = some '&' := by
    rw [plusToSpace, List.getLast?_map, Option.map_eq_some_iff]
    simp only [plusToSpace_eq_iff (c := '&') (by decide) (by decide), exists_eq_right]
  rw [hplus, htext]
  constructor
  · intro h
    by_contra hlast
    rw [List.getLast?_append_of_ne_nil _ hlast] at h
    exact (hfields last (by simp)).1 (List.mem_of_getLast? h)
  · rintro rfl
    have hfs : fs ≠ [] := by
      rintro rfl
      exact hq (List.map_eq_nil_iff.mp htext)
    rw [← List.dropLast_append_getLast hfs]
    simp

/-- **All accesses are inside of what has been set**, and the result depends on nothing else, exactly for an empty
request and for those that end with a `&` and have no value that ends within an escape. -/
theorem readVariables_inside_iff {q : Text} (hnul : nul ∉ q) :
    (∃ r, ∀ junk, readVariables q junk = some r) ↔
      q = [] ∨ q.getLast? = some '&' ∧ ∀ f ∈ splitOn '&' (plusToSpace q), ∀ name value,
        cutAt '=' f = some (name, value) → ¬ StrayEnd value := by
  by_cases hq : q = []
  · exact iff_of_true ⟨none, fun junk => if_pos hq⟩ (.inl hq)
  obtain ⟨fs, last, hsplit, -, -⟩ := exists_fields (plusToSpace q)
  have hfields := (plusToSpace_fields hnul hsplit).2.2
  simp only [readVariables_eq hq hnul _ hsplit, or_iff_right hq, getLast?_eq_amp_iff hq hnul hsplit, hsplit]
  have hnone := @foldlM_addField_eq_none_iff [] fs (fun r hr => absurd hr List.not_mem_nil)
    fun f hf => (hfields f (List.mem_append_left _ hf)).2
  by_cases hlast : last = []
  · subst hlast
    have hempty : ∀ name value, cutAt '=' ([] : Text) = some (name, value) → ¬ StrayEnd value := nofun
    simp only [if_true, true_and, List.forall_mem_append, List.forall_mem_singleton]
    cases hfold : fs.foldlM addField [] with
    | none =>
      obtain ⟨f, hf, name, value, hcut, hstray⟩ := hnone.mp hfold
      refine iff_of_false ?_ fun h => h.1 f hf name value hcut hstray
      rintro ⟨r, hr⟩
      cases hr nul
    | some vars =>
      refine iff_of_true ⟨some vars, fun _ => rfl⟩ ⟨fun f hf name value hcut hstray => ?_, hempty⟩
      rw [hnone.mpr ⟨f, hf, name, value, hcut, hstray⟩] at hfold
      cases hfold
  · simp only [hlast, if_false, false_and, iff_false]
    rintro ⟨r, hr⟩
    have hother := hr 'x'
    rw [if_neg (by decide)] at hother
    cases hother

/-- `a=1&`: inside. -/
theorem readVariables_inside_amp : ∃ r, ∀ junk, readVariables "a=1&".toList junk = some r := by
  refine (readVariables_inside_iff (by decide)).mpr (.inr ⟨by decide, fun f hf name value hcut => ?_⟩)
  have hfields : splitOn '&' (plusToSpace "a=1&".toList) = ["a=1".toList, []] := by decide
  rw [hfields, List.mem_cons, List.mem_singleton] at hf
  rcases hf with rfl | rfl
  · have hfield : cutAt '=' "a=1".toList = some (['a'], ['1']) := by decide
    obtain ⟨-, rfl⟩ := Prod.mk.inj (Option.some.inj (hfield.symm.trans hcut))
    rw [strayEnd_cons_of_ne (by decide)]
    exact not_strayEnd_nil
  · cases hcut

/-- `a=1`: the byte behind the terminator is read, and the loop goes on with it. -/
theorem readVariables_junk : ¬ ∀ q : Text, nul ∉ q → ∃ r, ∀ junk, readVariables q junk = some r := by
  intro h
  obtain ⟨r, hr⟩ := h "a=1".toList (by decide)
  have hsplit : splitOn '&' (plusToSpace "a=1".toList) = [] ++ ["a=1".toList] := by decide
  have hother := hr 'x'
  rw [readVariables_eq (by decide) (by decide) 'x' hsplit, if_neg (by decide), if_neg (by decide)] at hother
  cases hother

/-! ## Values, decoded once -/

/-- A field of a well-formed request. -/
structure QueryField : Type where
  name : Text
  value : Text

/-- **A field that can be sent**: the name ends at the `=`, the field at the `&`, and escapes are whole. -/
structure QueryField.WellFormed (f : QueryField) : Prop where
  name : '&' ∉ f.name ∧ '=' ∉ f.name ∧ nul ∉ f.name
  value : '&' ∉ f.value ∧ nul ∉ f.value
  escaped : WellEscaped f.value

/-- The request. -/
def queryString (fs : List QueryField) : Text := ['&'].intercalate (fs.map fun f => f.name ++ '=' :: f.value)

/-- The name of a field, as it is stored. -/
def QueryField.key (f : QueryField) : Text := plusToSpace f.name

/-- The value of a field, decoded. -/
def QueryField.decoded (f : QueryField) : Text := percentDecode (plusToSpace f.value)

/-- The values of a name, one a line. -/
def joined (fs : List QueryField) (n : Text) : Text :=
  ['\n'].intercalate ((fs.filter fun f => f.key = n).map QueryField.decoded)

/-- **The variables of the fields**: every name once, in the order of their first occurrences, with all its values,
each decoded once. -/
structure Collects (fs : List QueryField) (vars : List SVar) : Prop where
  names : vars.map SVar.name = (fs.map QueryField.key).eraseDups
  values : ∀ r ∈ vars, r.value = joined fs r.name

/-- No value that another one follows under its name has a `%` once it is decoded. -/
def Clean (fs : List QueryField) : Prop := fs.Pairwise fun f g => f.key = g.key → '%' ∉ f.decoded

/-! ### One field more -/

theorem storeField_new (h : ∀ r ∈ vars, r.name ≠ name) :
    storeField name value vars = (decodeValue value).map fun v => vars ++ [⟨name, v⟩] := by
  induction vars with
  | nil => rfl
  | cons r vars ih =>
    rw [List.forall_mem_cons] at h
    rw [storeField, if_neg (mt hasName_iff.mp h.1), ih h.2, Option.map_map]
    rfl

theorem storeField_old {a b : List SVar} {r : SVar} (ha : ∀ x ∈ a, x.name ≠ name) (hr : r.name = name) :
    storeField name value (a ++ r :: b) =
      (decodeValue (r.value ++ '\n' :: value)).map fun v => a ++ { r with value := v } :: b := by
  induction a with
  | nil => rw [List.nil_append, storeField, if_pos (hasName_iff.mpr hr)]; rfl
  | cons x a ih =>
    rw [List.forall_mem_cons] at ha
    rw [List.cons_append, storeField, if_neg (mt hasName_iff.mp ha.1), ih ha.2, Option.map_map]
    rfl

theorem intercalate_concat {sep : Char} {ws : List Text} (hne : ws ≠ []) (w : Text) :
    [sep].intercalate (ws ++ [w]) = [sep].intercalate ws ++ sep :: w := by
  rw [intercalate_append_singleton, ← List.dropLast_append_getLast hne, intercalate_append_singleton]
  simp

theorem mem_intercalate_of_mem {sep c : Char} {ws : List Text} {w : Text} (hw : w ∈ ws) (hc : c ∈ w) :
    c ∈ [sep].intercalate ws := by
  obtain ⟨fs, last, rfl⟩ : ∃ fs last, ws = fs ++ [last] :=
    ⟨_, _, (List.dropLast_append_getLast (List.ne_nil_of_mem hw)).symm⟩
  rw [intercalate_append_singleton]
  rcases List.mem_append.mp hw with hmem | hmem
  · exact List.mem_append_left _ (List.mem_flatMap.mpr ⟨w, hmem, List.mem_append_left _ hc⟩)
  · rw [List.mem_singleton.mp hmem] at hc
    exact List.mem_append_right _ hc

theorem eraseDups_concat (l : List Text) (n : Text) :
    (l ++ [n]).eraseDups = l.eraseDups ++ if n ∈ l then [] else [n] := by
  rw [List.eraseDups_append]
  by_cases hn : n ∈ l
  · simp [List.removeAll, hn]
  · simp [List.removeAll, hn, List.eraseDups_cons]

theorem nodup_eraseDups (l : List Text) : l.eraseDups.Nodup := by
  induction l using List.reverseRecOn with
  | nil => exact List.nodup_nil
  | append_singleton l n ih =>
    rw [eraseDups_concat]
    split_ifs with hn
    · rwa [List.append_nil]
    · exact List.nodup_append.mpr ⟨ih, List.nodup_singleton n, fun a ha b hb hab =>
        hn (List.mem_eraseDups.mp (List.mem_singleton.mp hb ▸ hab ▸ ha))⟩

variable {fs : List QueryField} {f : QueryField} {n : Text}

/-- `Clean`, for one name. -/
def CleanFor (n : Text) (fs : List QueryField) : Prop :=
  fs.Pairwise fun f g => f.key = n → g.key = n → '%' ∉ f.decoded

theorem clean_iff : Clean fs ↔ ∀ n, CleanFor n fs := by
  simp only [Clean, CleanFor, List.pairwise_iff_getElem]
  constructor
  · intro h n i j hi hj hij hf hg
    exact h i j hi hj hij (hf.trans hg.symm)
  · intro h i j hi hj hij hkey
    exact h _ i j hi hj hij rfl hkey.symm

theorem joined_append_of_ne (h : f.key ≠ n) : joined (fs ++ [f]) n = joined fs n := by
  rw [joined, joined, List.filter_append, List.filter_singleton, decide_eq_false h]
  simp

theorem joined_append (hmem : n ∈ fs.map QueryField.key) (h : f.key = n) :
    joined (fs ++ [f]) n = joined fs n ++ '\n' :: f.decoded := by
  have hne : (fs.filter fun f => f.key = n).map QueryField.decoded ≠ [] := by
    obtain ⟨g, hg, hkey⟩ := List.mem_map.mp hmem
    exact List.ne_nil_of_mem (List.mem_map_of_mem (List.mem_filter.mpr ⟨hg, decide_eq_true hkey⟩))
  rw [joined, joined, List.filter_append, List.filter_singleton, decide_eq_true h, List.map_append, ← intercalate_concat hne]
  rfl

theorem joined_append_new (hmem : n ∉ fs.map QueryField.key) (h : f.key = n) : joined (fs ++ [f]) n = f.decoded := by
  have hnil : (fs.filter fun f => f.key = n) = [] := by
    rw [List.filter_eq_nil_iff]
    exact fun g hg hkey => hmem (List.mem_map.mpr ⟨g, hg, of_decide_eq_true hkey⟩)
  rw [joined, List.filter_append, hnil, List.filter_singleton, decide_eq_true h]
  exact List.intercalate_singleton

theorem percent_mem_joined : '%' ∈ joined fs n ↔ ∃ g ∈ fs, g.key = n ∧ '%' ∈ g.decoded := by
  constructor
  · intro h
    obtain ⟨w, hw, hmem⟩ := (mem_intercalate h).resolve_left (by decide)
    obtain ⟨g, hg, rfl⟩ := List.mem_map.mp hw
    obtain ⟨hg, hkey⟩ := List.mem_filter.mp hg
    exact ⟨g, hg, of_decide_eq_true hkey, hmem⟩
  · rintro ⟨g, hg, hkey, hmem⟩
    exact mem_intercalate_of_mem (List.mem_map_of_mem (List.mem_filter.mpr ⟨hg, decide_eq_true hkey⟩)) hmem

theorem cleanFor_append_of_ne (h : f.key ≠ n) : CleanFor n (fs ++ [f]) ↔ CleanFor n fs := by
  rw [CleanFor, CleanFor, List.pairwise_append]
  simp [h]

/-- Another value of a name is clean if there is no `%` in what is there. -/
theorem cleanFor_append (h : f.key = n) : CleanFor n (fs ++ [f]) ↔ '%' ∉ joined fs n := by
  have hmem : '%' ∉ joined fs n ↔ ∀ g ∈ fs, g.key = n → '%' ∉ g.decoded := by
    rw [percent_mem_joined]
    simp only [not_exists, not_and]
  rw [hmem, CleanFor, List.pairwise_append]
  constructor
  · rintro ⟨-, -, hall⟩ g hg hkey
    exact hall g hg f (List.mem_singleton_self f) hkey h
  · intro hall
    refine ⟨List.Pairwise.imp_of_mem (fun hg _ _ hkey _ => hall _ hg hkey) (List.pairwise_of_forall fun _ _ => trivial), List.pairwise_singleton _ _, ?_⟩
    exact fun g hg _ _ hkey _ => hall g hg hkey

/-- The variables while the fields are stored: a name with an unclean value has become too short. -/
structure Stored (fs : List QueryField) (vars : List SVar) : Prop where
  names : vars.map SVar.name = (fs.map QueryField.key).eraseDups
  nul : ∀ r ∈ vars, nul ∉ r.value
  clean : ∀ r ∈ vars, CleanFor r.name fs → r.value = joined fs r.name
  short : ∀ r ∈ vars, ¬ CleanFor r.name fs → r.value.length < (joined fs r.name).length

theorem joined_of_not_mem (hmem : n ∉ fs.map QueryField.key) : joined fs n = [] := by
  have hnil : (fs.filter fun f => f.key = n) = [] := by
    rw [List.filter_eq_nil_iff]
    exact fun g hg hkey => hmem (List.mem_map.mpr ⟨g, hg, of_decide_eq_true hkey⟩)
  rw [joined, hnil]
  rfl

theorem wellEscaped_plusToSpace {s : Text} (h : WellEscaped s) : WellEscaped (plusToSpace s) := by
  have hget (i : ℕ) : (plusToSpace s)[i]? = s[i]?.map fun c => if c = '+' then ' ' else c := List.getElem?_map
  intro i hi
  rw [hget, Option.map_eq_some_iff] at hi
  simp only [plusToSpace_eq_iff (c := '%') (by decide) (by decide), exists_eq_right] at hi
  obtain ⟨a, b, ha, hb, hhex, hhex', hzero⟩ := h i hi
  refine ⟨a, b, ?_, ?_, hhex, hhex', hzero⟩
  · rw [hget, ha, Option.map_some, if_neg (isHex_ne hhex (by decide))]
  · rw [hget, hb, Option.map_some, if_neg (isHex_ne hhex' (by decide))]

theorem QueryField.WellFormed.unescape (hf : f.WellFormed) :
    unescape (plusToSpace f.value ++ [nul]) = some f.decoded ∧ nul ∉ f.decoded := by
  have hnul : nul ∉ plusToSpace f.value := fun h => hf.value.2 ((mem_plusToSpace (by decide) (by decide)).mp h)
  have hescaped := wellEscaped_plusToSpace hf.escaped
  refine ⟨?_, nul_not_mem_percentDecode hescaped hnul⟩
  rw [unescape_of_wellEscaped hescaped hnul, unescape_nul, Option.map_some, List.append_nil, QueryField.decoded]

/-- The field, as it is in the copy. -/
theorem addField_wellFormed (hf : f.WellFormed) (vars : List SVar) :
    addField vars (plusToSpace (f.name ++ '=' :: f.value)) = storeField f.key (plusToSpace f.value) vars := by
  have htext : plusToSpace (f.name ++ '=' :: f.value) = f.key ++ '=' :: plusToSpace f.value := by
    simp [plusToSpace, QueryField.key]
  have hcut : cutAt '=' (plusToSpace (f.name ++ '=' :: f.value)) = some (f.key, plusToSpace f.value) :=
    cutAt_eq_some.mpr ⟨htext, fun h => hf.name.2.1 ((mem_plusToSpace (by decide) (by decide)).mp h)⟩
  rw [addField, hcut]

/-- What is stored when there is a value already. -/
theorem clean_or_short {w : Text} (hf : f.WellFormed) (hw : nul ∉ w) (hmem : f.key ∈ fs.map QueryField.key)
    (hclean : CleanFor f.key fs → w = joined fs f.key)
    (hshort : ¬ CleanFor f.key fs → w.length < (joined fs f.key).length) :
    (CleanFor f.key (fs ++ [f]) → cstr (decodeLine w ++ '\n' :: f.decoded) = joined (fs ++ [f]) f.key) ∧
      (¬ CleanFor f.key (fs ++ [f]) →
        (cstr (decodeLine w ++ '\n' :: f.decoded)).length < (joined (fs ++ [f]) f.key).length) := by
  rw [cleanFor_append rfl, joined_append hmem rfl]
  constructor
  · intro hpercent
    have hbefore : CleanFor f.key fs := by
      refine List.Pairwise.imp_of_mem (fun hg _ _ hkey _ hp => ?_) (List.pairwise_of_forall fun _ _ => trivial)
      exact hpercent (percent_mem_joined.mpr ⟨_, hg, hkey, hp⟩)
    obtain rfl := hclean hbefore
    rw [decodeLine_of_not_mem hpercent]
    refine cstr_of_not_mem fun h => ?_
    rcases List.mem_append.mp h with h | h
    · exact hw h
    · exact hf.unescape.2 ((List.mem_cons.mp h).resolve_left (by decide))
  · intro hpercent
    have hcstr : (cstr (decodeLine w ++ '\n' :: f.decoded)).length ≤ (decodeLine w ++ '\n' :: f.decoded).length :=
      (List.takeWhile_sublist _).length_le
    obtain ⟨hle, hlt⟩ := length_decodeLine w
    have hshorter : (decodeLine w).length < (joined fs f.key).length := by
      by_cases hbefore : CleanFor f.key fs
      · rw [← hclean hbefore] at hpercent ⊢
        exact hlt (not_not.mp hpercent)
      · exact hle.trans_lt (hshort hbefore)
    simp only [List.length_append, List.length_cons] at hcstr ⊢
    omega

/-- **One field more.** -/
theorem stored_addField (h : Stored fs vars) (hf : f.WellFormed) :
    ∃ vars', addField vars (plusToSpace (f.name ++ '=' :: f.value)) = some vars' ∧ Stored (fs ++ [f]) vars' := by
  obtain ⟨hunescape, hdecoded⟩ := hf.unescape
  rw [addField_wellFormed hf]
  by_cases hmem : f.key ∈ vars.map SVar.name
  · have hkey : f.key ∈ fs.map QueryField.key := by
      rwa [h.names, List.mem_eraseDups] at hmem
    obtain ⟨r, hr, hname⟩ := List.mem_map.mp hmem
    obtain ⟨a, b, rfl⟩ := List.append_of_mem hr
    have hnodup : ((a ++ r :: b).map SVar.name).Nodup := h.names ▸ nodup_eraseDups _
    rw [List.map_append, List.map_cons, List.nodup_append, List.nodup_cons] at hnodup
    have ha : ∀ x ∈ a, f.key ≠ x.name := fun x hx =>
      hname ▸ (hnodup.2.2 _ (List.mem_map_of_mem hx) _ (List.mem_cons_self ..)).symm
    have hb : ∀ x ∈ b, f.key ≠ x.name := fun x hx heq =>
      hnodup.2.1.1 (hname ▸ heq ▸ List.mem_map_of_mem hx)
    rw [storeField_old (fun x hx => (ha x hx).symm) hname, decodeValue_line (h.nul r hr), hunescape]
    obtain ⟨hclean, hshort⟩ := clean_or_short hf (h.nul r hr) hkey (hname ▸ h.clean r hr) (hname ▸ h.short r hr)
    have hnames := h.names
    have hnul := h.nul
    have hcleans := h.clean
    have hshorts := h.short
    simp only [List.forall_mem_append, List.forall_mem_cons] at hnul hcleans hshorts
    refine ⟨_, rfl, ⟨?_, ?_, ?_, ?_⟩⟩
    · have hkeys : ((fs ++ [f]).map QueryField.key).eraseDups = (fs.map QueryField.key).eraseDups := by
        rw [List.map_append, List.map_singleton, eraseDups_concat, if_pos hkey, List.append_nil]
      rw [hkeys, ← hnames]
      simp
    · exact List.forall_mem_append.mpr ⟨hnul.1, List.forall_mem_cons.mpr ⟨nul_not_mem_cstr _, hnul.2.2⟩⟩
    · refine List.forall_mem_append.mpr ⟨fun x hx => ?_, List.forall_mem_cons.mpr ⟨hname ▸ hclean, fun x hx => ?_⟩⟩
      · rw [cleanFor_append_of_ne (ha x hx), joined_append_of_ne (ha x hx)]
        exact hcleans.1 x hx
      · rw [cleanFor_append_of_ne (hb x hx), joined_append_of_ne (hb x hx)]
        exact hcleans.2.2 x hx
    · refine List.forall_mem_append.mpr ⟨fun x hx => ?_, List.forall_mem_cons.mpr ⟨hname ▸ hshort, fun x hx => ?_⟩⟩
      · rw [cleanFor_append_of_ne (ha x hx), joined_append_of_ne (ha x hx)]
        exact hshorts.1 x hx
      · rw [cleanFor_append_of_ne (hb x hx), joined_append_of_ne (hb x hx)]
        exact hshorts.2.2 x hx
  · have hkey : f.key ∉ fs.map QueryField.key := by
      rwa [h.names, List.mem_eraseDups] at hmem
    have hne : ∀ r ∈ vars, f.key ≠ r.name := fun r hr heq => hmem (List.mem_map.mpr ⟨r, hr, heq.symm⟩)
    have hdecode : decodeValue (plusToSpace f.value) = some f.decoded := by
      rw [decodeValue_eq, hunescape, Option.map_some, cstr_of_not_mem hdecoded]
    rw [storeField_new fun r hr => (hne r hr).symm, hdecode, Option.map_some]
    refine ⟨_, rfl, ⟨?_, ?_, ?_, ?_⟩⟩
    · rw [List.map_append, List.map_append, h.names]
      exact (eraseDups_concat _ _).trans (by rw [if_neg hkey]; rfl) |>.symm
    · exact List.forall_mem_append.mpr ⟨h.nul, List.forall_mem_singleton.mpr hdecoded⟩
    · refine List.forall_mem_append.mpr ⟨fun r hr => ?_, List.forall_mem_singleton.mpr fun _ => ?_⟩
      · rw [cleanFor_append_of_ne (hne r hr), joined_append_of_ne (hne r hr)]
        exact h.clean r hr
      · exact (joined_append_new hkey rfl).symm
    · refine List.forall_mem_append.mpr ⟨fun r hr => ?_, List.forall_mem_singleton.mpr fun hunclean => ?_⟩
      · rw [cleanFor_append_of_ne (hne r hr), joined_append_of_ne (hne r hr)]
        exact h.short r hr
      · rw [cleanFor_append rfl, joined_of_not_mem hkey] at hunclean
        exact absurd List.not_mem_nil hunclean

/-- **All fields.** -/
theorem stored_foldlM {before : List QueryField} (h : Stored before vars) (hfs : ∀ f ∈ fs, f.WellFormed) :
    ∃ vars', (fs.map fun f => plusToSpace (f.name ++ '=' :: f.value)).foldlM addField vars = some vars' ∧
      Stored (before ++ fs) vars' := by
  induction fs generalizing before vars with
  | nil => exact ⟨vars, rfl, by rwa [List.append_nil]⟩
  | cons f fs ih =>
    rw [List.forall_mem_cons] at hfs
    obtain ⟨vars₁, hadd, hstored⟩ := stored_addField h hfs.1
    obtain ⟨vars', hfold, hstored'⟩ := ih hstored hfs.2
    rw [List.append_assoc] at hstored'
    refine ⟨vars', ?_, hstored'⟩
    rw [List.map_cons, List.foldlM_cons, hadd]
    exact hfold

theorem Stored.collects_iff_clean (h : Stored fs vars) : Collects fs vars ↔ Clean fs := by
  rw [clean_iff]
  constructor
  · intro hcollects n
    by_contra hunclean
    have hmem : n ∈ vars.map SVar.name := by
      rw [h.names, List.mem_eraseDups]
      by_contra hnone
      refine hunclean (List.Pairwise.imp_of_mem (fun hg _ _ hkey => ?_) (List.pairwise_of_forall fun _ _ => trivial))
      exact absurd (List.mem_map.mpr ⟨_, hg, hkey⟩) hnone
    obtain ⟨r, hr, rfl⟩ := List.mem_map.mp hmem
    have hlt := h.short r hr hunclean
    rw [hcollects.values r hr] at hlt
    exact lt_irrefl _ hlt
  · exact fun hclean => ⟨h.names, fun r hr => h.clean r hr (hclean r.name)⟩

theorem plusToSpace_intercalate (ws : List Text) :
    plusToSpace (['&'].intercalate ws) = ['&'].intercalate (ws.map plusToSpace) := by
  cases ws using List.reverseRecOn with
  | nil => rfl
  | append_singleton ws w =>
    rw [List.map_append, List.map_singleton, intercalate_append_singleton, intercalate_append_singleton]
    simp [plusToSpace, List.map_flatMap, List.flatMap_map]

/-- The fields of a request are those it was made of. -/
theorem splitOn_queryString (hne : fs ≠ []) (hfs : ∀ f ∈ fs, f.WellFormed) :
    splitOn '&' (plusToSpace (queryString fs)) = fs.map fun f => plusToSpace (f.name ++ '=' :: f.value) := by
  rw [queryString, plusToSpace_intercalate, List.map_map]
  refine splitOn_intercalate ?_ fun hnil => hne (List.map_eq_nil_iff.mp hnil)
  rw [List.forall_mem_map]
  intro f hf hmem
  rw [Function.comp_apply, mem_plusToSpace (by decide) (by decide), List.mem_append, List.mem_cons] at hmem
  rcases hmem with h | h | h
  · exact (hfs f hf).name.1 h
  · exact absurd h (by decide)
  · exact (hfs f hf).value.1 h

theorem nul_not_mem_queryString (hfs : ∀ f ∈ fs, f.WellFormed) : nul ∉ queryString fs := by
  intro h
  obtain ⟨w, hw, hmem⟩ := (mem_intercalate h).resolve_left (by decide)
  obtain ⟨f, hf, rfl⟩ := List.mem_map.mp hw
  rw [List.mem_append, List.mem_cons] at hmem
  rcases hmem with h | h | h
  · exact (hfs f hf).name.2.2 h
  · exact absurd h (by decide)
  · exact (hfs f hf).value.2 h

/-- **The variables of a well-formed request.** -/
theorem readVariables_queryString (hne : fs ≠ []) (hfs : ∀ f ∈ fs, f.WellFormed) :
    ∃ vars, Stored fs vars ∧
      ∀ junk, readVariables (queryString fs) junk = if junk = nul then some (some vars) else none := by
  have hempty : Stored [] [] := ⟨rfl, fun r hr => absurd hr List.not_mem_nil, fun r hr => absurd hr List.not_mem_nil,
    fun r hr => absurd hr List.not_mem_nil⟩
  obtain ⟨vars, hfold, hstored⟩ := stored_foldlM hempty hfs
  refine ⟨vars, hstored, fun junk => ?_⟩
  obtain ⟨front, last, rfl⟩ : ∃ front last, fs = front ++ [last] :=
    ⟨_, _, (List.dropLast_append_getLast hne).symm⟩
  have hq : queryString (front ++ [last]) ≠ [] := by
    rw [queryString, List.map_append, List.map_singleton, intercalate_append_singleton]
    exact List.append_ne_nil_of_right_ne_nil _ (List.append_ne_nil_of_right_ne_nil _ (List.cons_ne_nil _ _))
  have hsplit := splitOn_queryString hne hfs
  rw [List.map_append, List.map_singleton] at hsplit hfold
  have hlast : plusToSpace (last.name ++ '=' :: last.value) ≠ [] := by
    rw [plusToSpace, List.map_append]
    exact List.append_ne_nil_of_right_ne_nil _ (List.cons_ne_nil _ _)
  rw [readVariables_eq hq (nul_not_mem_queryString hfs) junk hsplit, if_neg hlast, hfold]
  rfl

/-- **Every value is decoded once** exactly if the byte behind the copy happens to be zero, and no value that
another one follows under its name has a `%` once it is decoded. -/
theorem collects_iff (hne : fs ≠ []) (hfs : ∀ f ∈ fs, f.WellFormed) (junk : Char) :
    (∃ vars, readVariables (queryString fs) junk = some (some vars) ∧ Collects fs vars) ↔ junk = nul ∧ Clean fs := by
  obtain ⟨vars, hstored, hread⟩ := readVariables_queryString hne hfs
  rw [hread, ← hstored.collects_iff_clean]
  split_ifs with hjunk
  · simp [hjunk]
  · simp [hjunk]

/-- `a=%41&a=b` -/
theorem collects_letters : ∃ vars,
    readVariables (queryString [⟨"a".toList, "%41".toList⟩, ⟨"a".toList, "b".toList⟩]) nul = some (some vars) ∧
      Collects [⟨"a".toList, "%41".toList⟩, ⟨"a".toList, "b".toList⟩] vars := by
  refine (collects_iff (List.cons_ne_nil _ _) ?_ nul).mpr ⟨rfl, by rw [Clean]; decide⟩
  refine List.forall_mem_cons.mpr ⟨?_, List.forall_mem_singleton.mpr ?_⟩
  · exact ⟨by decide, by decide, wellEscaped_nil.cons_escape (by decide) (by decide) (by decide)⟩
  · exact ⟨by decide, by decide, wellEscaped_nil.cons (by decide)⟩

/-- `a=%2541&a=b`: the stored `%41` is decoded once more, when `b` is put behind it. -/
theorem decoded_twice : ¬ ∀ fs : List QueryField, fs ≠ [] → (∀ f ∈ fs, f.WellFormed) → ∃ vars,
    readVariables (queryString fs) nul = some (some vars) ∧ Collects fs vars := by
  intro h
  have hfs : ∀ f ∈ [(⟨"a".toList, "%2541".toList⟩ : QueryField), ⟨"a".toList, "b".toList⟩], f.WellFormed := by
    refine List.forall_mem_cons.mpr ⟨?_, List.forall_mem_singleton.mpr ?_⟩
    · exact ⟨by decide, by decide, ((wellEscaped_nil.cons (by decide)).cons (by decide)).cons_escape (by decide)
        (by decide) (by decide)⟩
    · exact ⟨by decide, by decide, wellEscaped_nil.cons (by decide)⟩
  obtain ⟨vars, hread, hcollects⟩ := h _ (List.cons_ne_nil _ _) hfs
  obtain ⟨vars', hstored, hread'⟩ := readVariables_queryString (List.cons_ne_nil _ _) hfs
  rw [hread', if_pos rfl] at hread
  obtain rfl := Option.some.inj (Option.some.inj hread)
  have hclean := hstored.collects_iff_clean.mp hcollects
  rw [Clean] at hclean
  exact absurd hclean (by decide)

end Rrdtool.Cgi
