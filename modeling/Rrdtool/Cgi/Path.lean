import Rrdtool.Cgi.Variables
import Rrdtool.Lib.Pairs

/-!
# Paths that come in via CGI

`cgigetqp` makes a path of the value of a variable: brackets are replaced, then pairs of dots, then the slashes that
the path begins with. Nothing is cut out, so that no two dots come together that were apart.

* `cgigetqp` — the path of a variable;
* `Replaced` — the places that are replaced, told from the value;
* `getElem?_sanitize`, `cgigetqp_path` — what is in each place, and what is not in the path.
-/

namespace Rrdtool.Cgi

open CStr Pairs

/-! ## The path -/

/-- `rrdstrip` -/
def rrdstrip (buf : Text) : Text := buf.map fun c => if c = '<' ∨ c = '>' then '_' else c

/-- `while ('/' == *p)` -/
def makeRelative : Text → Text
  | [] => []
  | c :: p => if c = '/' then '_' :: makeRelative p else c :: p

/-- What `cgigetqp` makes of a value. -/
def sanitize (value : Text) : Text := makeRelative (maskPairs '.' '_' (rrdstrip value))

/-- `cgigetqp` -/
def cgigetqp (parms : Option (List SVar)) (args : List Text) : Option Text :=
  match args with
  | [] => some "[ERROR: not enough arguments for RRD::CV::PATH]".toList
  | name :: _ => (rrdcgiGetValue parms name).map sanitize

/-! ## The places that are replaced -/

/-- A slash that the value begins with. -/
def LeadingSlash (value : Text) (i : ℕ) : Prop := ∀ j ≤ i, value[j]? = some '/'

/-- **The places that are replaced**: brackets, dots of a pair, leading slashes. -/
def Replaced (value : Text) (i : ℕ) : Prop :=
  value[i]? = some '<' ∨ value[i]? = some '>' ∨ InPair '.' value i ∨ LeadingSlash value i

instance (value : Text) (i : ℕ) : Decidable (LeadingSlash value i) := inferInstanceAs (Decidable (∀ j ≤ i, _))

instance (value : Text) (i : ℕ) : Decidable (Replaced value i) := inferInstanceAs (Decidable (_ ∨ _ ∨ _ ∨ _))

theorem getElem?_rrdstrip (s : Text) (i : ℕ) :
    (rrdstrip s)[i]? = s[i]?.map fun c => if c = '<' ∨ c = '>' then '_' else c := List.getElem?_map

/-- The brackets are the only characters that `rrdstrip` takes or gives. -/
theorem rrdstrip_eq_iff {d : Char} (hd : d ≠ '_') (hlt : d ≠ '<') (hgt : d ≠ '>') (c : Char) :
    (if c = '<' ∨ c = '>' then '_' else c) = d ↔ c = d := by
  split_ifs with hc
  · refine iff_of_false (Ne.symm hd) ?_
    rintro rfl
    exact hc.elim hlt hgt
  · rfl

theorem leadingSlash_zero {c : Char} {s : Text} : LeadingSlash (c :: s) 0 ↔ c = '/' := by
  simp [LeadingSlash]

theorem leadingSlash_cons {c : Char} {s : Text} {i : ℕ} :
    LeadingSlash (c :: s) (i + 1) ↔ c = '/' ∧ LeadingSlash s i := by
  constructor
  · intro h
    exact ⟨Option.some.inj (h 0 (Nat.zero_le _)), fun j hj => h (j + 1) (Nat.succ_le_succ hj)⟩
  · rintro ⟨rfl, h⟩ j hj
    cases j with
    | zero => rfl
    | succ j => exact h j (Nat.le_of_succ_le_succ hj)

theorem getElem?_makeRelative (s : Text) (i : ℕ) :
    (makeRelative s)[i]? = s[i]?.map fun c => if LeadingSlash s i then '_' else c := by
  induction s generalizing i with
  | nil => rfl
  | cons c s ih =>
    rw [makeRelative]
    by_cases hc : c = '/'
    · rw [if_pos hc]
      cases i with
      | zero => simp [leadingSlash_zero, hc]
      | succ i => simpa [leadingSlash_cons, hc] using ih i
    · rw [if_neg hc]
      cases i with
      | zero => simp [leadingSlash_zero, hc]
      | succ i => simp [leadingSlash_cons, hc]

theorem length_sanitize (s : Text) : (sanitize s).length = s.length := by
  have hrelative (t : Text) : (makeRelative t).length = t.length := by
    induction t with
    | nil => rfl
    | cons c t ih =>
      rw [makeRelative]
      split_ifs
      · rw [List.length_cons, ih, List.length_cons]
      · rfl
  rw [sanitize, hrelative, length_maskPairs, rrdstrip, List.length_map]

/-- A pair is a pair before the brackets are replaced. -/
theorem inPair_rrdstrip {s : Text} {i : ℕ} : InPair '.' (rrdstrip s) i ↔ InPair '.' s i :=
  inPair_map (rrdstrip_eq_iff (by decide) (by decide) (by decide)) s i

/-- What is in each place before the slashes are looked at. -/
theorem getElem?_masked (s : Text) (i : ℕ) :
    (maskPairs '.' '_' (rrdstrip s))[i]? =
      s[i]?.map fun c => if InPair '.' s i then '_' else if c = '<' ∨ c = '>' then '_' else c := by
  rw [getElem?_maskPairs, getElem?_rrdstrip, Option.map_map]
  simp only [inPair_rrdstrip]
  rfl

/-- The slashes in front are those of the value. -/
theorem leadingSlash_masked {s : Text} {i : ℕ} :
    LeadingSlash (maskPairs '.' '_' (rrdstrip s)) i ↔ LeadingSlash s i := by
  refine forall_congr' fun j => forall_congr' fun _ => ?_
  rw [getElem?_masked, Option.map_eq_some_iff]
  by_cases hpair : InPair '.' s j
  · simp [hpair, hpair.1]
  · simp only [if_neg hpair, rrdstrip_eq_iff (d := '/') (by decide) (by decide) (by decide), exists_eq_right]

/-- **What is in each place.** -/
theorem getElem?_sanitize (s : Text) (i : ℕ) :
    (sanitize s)[i]? = s[i]?.map fun c => if Replaced s i then '_' else c := by
  rw [sanitize, getElem?_makeRelative, getElem?_masked, Option.map_map]
  cases hc : s[i]? with
  | none => rfl
  | some c =>
    simp only [Option.map_some, Function.comp_apply, leadingSlash_masked, Replaced, hc, Option.some.injEq]
    by_cases hslash : LeadingSlash s i
    · simp [hslash]
    · by_cases hpair : InPair '.' s i
      · simp [hslash, hpair]
      · simp only [hslash, hpair, if_false, or_false]

/-! ## What is not in a path -/

/-- A character that is in the path is in the value, in a place that is not replaced. -/
theorem of_getElem?_sanitize {s : Text} {i : ℕ} {c : Char} (hc : c ≠ '_') (h : (sanitize s)[i]? = some c) :
    s[i]? = some c ∧ ¬ Replaced s i := by
  rw [getElem?_sanitize, Option.map_eq_some_iff] at h
  obtain ⟨a, ha, hac⟩ := h
  split_ifs at hac with hreplaced
  · exact absurd hac.symm hc
  · exact ⟨hac ▸ ha, hreplaced⟩

theorem not_mem_sanitize {s : Text} {c : Char} (hc : c ≠ '_') (h : ∀ i, s[i]? = some c → Replaced s i) :
    c ∉ sanitize s := by
  intro hmem
  obtain ⟨i, hi⟩ := List.mem_iff_getElem?.mp hmem
  obtain ⟨hget, hnot⟩ := of_getElem?_sanitize hc hi
  exact hnot (h i hget)

theorem not_infix_sanitize (s : Text) : ¬ "..".toList <:+: sanitize s := by
  rintro ⟨t, u, h⟩
  have hfirst := of_getElem?_sanitize (s := s) (i := t.length) (c := '.') (by decide) (by rw [← h]; simp)
  have hsecond := of_getElem?_sanitize (s := s) (i := t.length + 1) (c := '.') (by decide) (by rw [← h]; simp)
  exact hfirst.2 (.inr (.inr (.inl ⟨hfirst.1, .inr hsecond.1⟩)))

/-- **The path of every value** is as long as the value, has no two dots in a row, no slash in front and no brackets,
and is the value in every place but those of brackets, of pairs of dots and of the slashes in front. -/
theorem cgigetqp_path (parms : Option (List SVar)) (name value : Text) (args : List Text)
    (h : rrdcgiGetValue parms name = some value) :
    ∃ path, cgigetqp parms (name :: args) = some path ∧ path.length = value.length ∧ ¬ "..".toList <:+: path ∧
      path.head? ≠ some '/' ∧ '<' ∉ path ∧ '>' ∉ path ∧ ∀ i, ¬ Replaced value i → path[i]? = value[i]? := by
  refine ⟨sanitize value, by rw [cgigetqp, h]; rfl, length_sanitize value, not_infix_sanitize value, ?_, ?_, ?_, ?_⟩
  · rw [List.head?_eq_getElem?]
    intro hhead
    obtain ⟨hget, hnot⟩ := of_getElem?_sanitize (by decide) hhead
    refine hnot (.inr (.inr (.inr fun j hj => ?_)))
    rw [Nat.le_zero.mp hj]
    exact hget
  · exact not_mem_sanitize (by decide) fun i hi => .inl hi
  · exact not_mem_sanitize (by decide) fun i hi => .inr (.inl hi)
  · intro i hi
    rw [getElem?_sanitize]
    simp only [if_neg hi, Option.map_id']

/-- `/a...b<` -/
theorem cgigetqp_dots : ∃ path,
    cgigetqp (some [⟨"f".toList, "/a...b<".toList⟩]) ["f".toList] = some path ∧
      path.length = "/a...b<".toList.length ∧
      ¬ "..".toList <:+: path ∧ path.head? ≠ some '/' ∧ '<' ∉ path ∧ '>' ∉ path ∧
      ∀ i, ¬ Replaced "/a...b<".toList i → path[i]? = "/a...b<".toList[i]? :=
  cgigetqp_path _ _ _ [] rfl

example : sanitize "/a...b<".toList = "_a__.b_".toList := by decide

end Rrdtool.Cgi
