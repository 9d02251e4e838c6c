import Rrdtool.Dump
import Rrdtool.Restore.Values

/-!
# Reading a dump

How the reader of `rrd_restore` gets through what a program has printed: the tags and texts of a document, piece by
piece, and the numbers in them.

* `takes_closing` — an element with a text, and the end of the pass;
* `reads_printValue`, `reads_printUlong` — the numbers come back, values rounded to eleven digits.
-/

namespace Rrdtool

/-- A value as it comes back from a dump. -/
def dumped : RrdValue → RrdValue
  | .num q => .num (Scientific.rounded 10 q)
  | v => v

/-- **A value that a dump keeps**: `strtod` has no error for it. Subnormal numbers, and those that are rounded past
the largest one, are lost. -/
def Readable : RrdValue → Prop
  | .num q => Scientific.InRange (Scientific.rounded 10 q)
  | _ => True

/-- **Numbers that a dump keeps**: those that are not near the ends of the range. -/
theorem readable_num {q : ℚ} (hlo : CStr.dblMin ≤ |q| / 2) (hhi : 2 * |q| < CStr.dblOverflow) : Readable (.num q) := by
  have hround := Scientific.abs_rounded_sub_le 10 q
  have hsmall : |q| * (1 / 2 * 10 ^ (-(10 : ℕ) : ℤ)) ≤ |q| / 2 := by
    have hpow : (1 / 2 * 10 ^ (-(10 : ℕ) : ℤ) : ℚ) ≤ 1 / 2 := by norm_num
    calc |q| * (1 / 2 * 10 ^ (-(10 : ℕ) : ℤ)) ≤ |q| * (1 / 2) := mul_le_mul_of_nonneg_left hpow (abs_nonneg q)
      _ = |q| / 2 := by ring
  have hlow := abs_sub_abs_le_abs_sub q (Scientific.rounded 10 q)
  have hhigh := abs_sub_abs_le_abs_sub (Scientific.rounded 10 q) q
  rw [abs_sub_comm] at hlow
  refine .inr ⟨?_, ?_⟩
  · linarith
  · linarith

theorem readable_zero : Readable (.num 0) := by
  rw [Readable, Scientific.rounded_zero]
  exact .inl rfl

@[simp] theorem dumped_dumped (v : RrdValue) : dumped (dumped v) = dumped v := by
  cases v with
  | nan => rfl
  | neginf => rfl
  | inf => rfl
  | num q => exact congrArg Dbl.num (Scientific.rounded_rounded 10 q)

@[simp] theorem printDouble_dumped (v : RrdValue) : printDouble (dumped v) = printDouble v := by
  cases v with
  | nan => rfl
  | neginf => rfl
  | inf => rfl
  | num q => exact Scientific.print_rounded 10 q

@[simp] theorem printValue_dumped (v : RrdValue) : printValue (dumped v) = printValue v := by
  cases v with
  | nan => rfl
  | neginf => rfl
  | inf => rfl
  | num q => exact Scientific.print_rounded 10 q

/-! ## Words -/

/-- A text of characters that print, without a blank. -/
def IsWord (w : Text) : Prop := Xml.IsText w ∧ ' ' ∉ w

namespace Restore

open Parse Xml

variable {w : Text}

theorem not_isspace_of_isTextChar {c : Char} (h : isTextChar c = true) (hc : c ≠ ' ') : CStr.isspace c = false := by
  simp only [isTextChar, Bool.and_eq_true, decide_eq_true_eq] at h
  obtain ⟨⟨⟨⟨hlo, -⟩, -⟩, -⟩, -⟩ := h
  rw [Bool.eq_false_iff]
  intro hspace
  have hle := toNat_of_isspace hspace
  exact hc (Char.toNat_inj.mp (le_antisymm hle hlo))

theorem IsWord.not_isspace (h : IsWord w) : ∀ c ∈ w, CStr.isspace c = false := fun c hc =>
  not_isspace_of_isTextChar (h.1 c hc) fun heq => h.2 (heq ▸ hc)

/-- The word of a text, with or without blanks around it. -/
theorem firstWord_word (h : IsWord w) : firstWord w = w ∧ firstWord (' ' :: (w ++ [' '])) = w := by
  have hno := IsWord.not_isspace h
  have hplain : ∀ c ∈ w, (!CStr.isspace c) = true := fun c hc => by rw [hno c hc]; rfl
  have hdrop (t : Text) (ht : t.dropWhile CStr.isspace = t ∨ w ≠ []) : (w ++ t).dropWhile CStr.isspace = w ++ t := by
    cases w with
    | nil => exact ht.resolve_right fun hne => hne rfl
    | cons c w => exact List.dropWhile_cons_of_neg (by rw [hno c List.mem_cons_self]; exact Bool.false_ne_true)
  constructor
  · have hw := hdrop [] (.inl rfl)
    rw [List.append_nil] at hw
    rw [firstWord, hw, List.takeWhile_eq_self_iff.mpr hplain]
  · rw [firstWord, List.dropWhile_cons_of_pos (by decide)]
    cases w with
    | nil => rfl
    | cons c w =>
      rw [hdrop [' '] (.inr (List.cons_ne_nil c w)), List.takeWhile_append_of_pos hplain]
      exact List.append_nil _

/-- The word of white space is empty. -/
theorem firstWord_blank {value : Text} (h : value.all CStr.isspace = true) : firstWord value = [] := by
  rw [firstWord, List.dropWhile_eq_nil_iff.mpr (List.all_eq_true.mp h)]
  rfl

/-! ## The reader -/

/-- What a node says. -/
def XmlNode.event : XmlNode → Option Event
  | .element name => some (.start name)
  | .endElement name => some (.stop name)
  | .text value => some (.text value)
  | .other => none

/-- A node for an event. -/
def XmlNode.ofEvent : Event → XmlNode
  | .start name => .element name
  | .stop name => .endElement name
  | .text value => .text value

/-- The small reader, with its events as nodes. -/
def scanNodes (s : Text) : List XmlNode := (scan false [] s).map XmlNode.ofEvent

theorem faithful_scanNodes : Faithful XmlNode.event scanNodes := by
  intro doc hdoc
  have hscan := scan_faithful doc hdoc
  have hevent : XmlNode.event ∘ XmlNode.ofEvent = some := by
    funext e
    cases e with
    | start name => rfl
    | stop name => rfl
    | text value => rfl
  rw [scanNodes, List.filterMap_map, hevent]
  exact hscan

/-- The events that are left, while no error has been set. -/
def view : View Reader Event where
  left r := r.rest.filterMap XmlNode.event
  good r := r.error = none
  size r := r.rest.length

/-- The next tag. -/
theorem readElement_eq {r : Reader} {rest : List XmlNode} {e : Event} {k : List Event}
    (h : rest.filterMap XmlNode.event = e :: k) (he : ∀ value, e ≠ .text value) :
    ∃ node rest', readElement r rest =
        (some (match e with | .start name => name | .stop name => '/' :: name | .text value => value),
          { r with rest := rest', node := some node }) ∧
      node.event = some e ∧ rest'.filterMap XmlNode.event = k ∧ rest'.length < rest.length := by
  induction rest with
  | nil => cases h
  | cons node rest ih =>
    cases node with
    | element name =>
      obtain ⟨rfl, rfl⟩ := List.cons.inj h
      exact ⟨_, rest, rfl, rfl, rfl, Nat.lt_succ_self _⟩
    | endElement name =>
      obtain ⟨rfl, rfl⟩ := List.cons.inj h
      exact ⟨_, rest, rfl, rfl, rfl, Nat.lt_succ_self _⟩
    | text value =>
      obtain ⟨rfl, -⟩ := List.cons.inj h
      exact absurd rfl (he value)
    | other =>
      obtain ⟨node', rest', hread, hnode, hk, hlt⟩ := ih h
      exact ⟨node', rest', hread, hnode, hk, Nat.lt_succ_of_lt hlt⟩

theorem takesItem_start (name : Text) : TakesItem view getXmlElement (.start name) name := by
  intro r k hgood hleft
  obtain ⟨node, rest', hread, -, hk, hlt⟩ := readElement_eq (r := r) hleft fun value h => by cases h
  exact ⟨_, hread, hk, hgood, hlt⟩

theorem takesItem_stop (name : Text) : TakesItem view getXmlElement (.stop name) ('/' :: name) := by
  intro r k hgood hleft
  obtain ⟨node, rest', hread, -, hk, hlt⟩ := readElement_eq (r := r) hleft fun value h => by cases h
  exact ⟨_, hread, hk, hgood, hlt⟩

theorem isTag_self (name : Text) : isTag name name = true := decide_eq_true rfl

theorem takes_expectElement {name : Text} {e : Event} (h : TakesItem view getXmlElement e name) :
    Takes view (expectElement name) [e] () := by
  have hret : Takes view (if isTag name name then ret () else setError (.element name name)) [] () := by
    rw [if_pos (isTag_self name)]
    exact takes_ret ()
  exact h.takes.bind hret

/-- A write is not seen. -/
theorem takes_write (w : Write) : Takes view (write w) [] () := fun _ _ hgood hleft =>
  ⟨_, rfl, hleft, hgood, le_rfl⟩

theorem takes_writing {β : Type} {w : Write} {f : Unit → Parser Reader β} {l : List Event} {b : β}
    (h : Takes view (f ()) l b) : Takes view (bind (write w) f) l b := (takes_write w).bind h

/-! ## Texts -/

variable {α β : Type} {x : Parser Reader α} {a : α}

/-- **The parser makes `a` of the word `w`**: it asks for a text once, and makes no more than writes behind it. -/
def Reads (x : Parser Reader α) (w : Text) (a : α) : Prop :=
  ∀ r r', getXmlText r = (some w, r') → r'.error = none → ∃ ws, x r = (some a, { r' with writes := ws })

theorem reads_getXmlText (w : Text) : Reads getXmlText w w := fun _ r' h _ => ⟨r'.writes, h⟩

/-- Nothing is asked for behind a text. -/
theorem Reads.bind {f : α → Parser Reader β} {b : β} (hx : Reads x w a)
    (hf : ∀ r : Reader, r.error = none → ∃ ws, f a r = (some b, { r with writes := ws })) :
    Reads (Parse.bind x f) w b := by
  intro r r' htext hgood
  obtain ⟨ws, hws⟩ := hx r r' htext hgood
  obtain ⟨ws', hws'⟩ := hf { r' with writes := ws } hgood
  exact ⟨ws', by rw [Parse.bind, hws]; exact hws'⟩

theorem Reads.map (hx : Reads x w a) (f : α → β) : Reads (Parse.map x f) w (f a) :=
  hx.bind fun r _ => ⟨r.writes, rfl⟩

theorem Reads.store (hx : Reads x w a) (f : α → Write) (g : α → β) :
    Reads (Parse.bind x fun a => Parse.map (write (f a)) fun _ => g a) w (g a) :=
  hx.bind fun r _ => ⟨f a :: r.writes, rfl⟩

theorem Reads.orElse {a' : α} (hx : Reads x w a) : Reads (orElse x a') w a := by
  intro r r' htext hgood
  obtain ⟨ws, hws⟩ := hx r r' htext hgood
  exact ⟨ws, by rw [Parse.orElse, hws]⟩

theorem reads_getXmlString (maxLen : ℕ) (w : Text) : Reads (getXmlString maxLen) w (w.take maxLen) :=
  (reads_getXmlText w).map _

theorem reads_getXmlUlong {n : ℕ} (h : CStr.strtoul w = some n) : Reads getXmlUlong w n := by
  refine (reads_getXmlText w).bind fun r _ => ⟨r.writes, ?_⟩
  rw [h]
  rfl

theorem reads_getXmlTimeT {z : ℤ} (h : CStr.strtoll w = some z) : Reads getXmlTimeT w z := by
  refine (reads_getXmlText w).bind fun r _ => ⟨r.writes, ?_⟩
  rw [h]
  rfl

/-- The loop of `get_xml_text`, in front of an element with a text. -/
theorem readText_eq {r : Reader} {rest : List XmlNode} {name value : Text} {k : List Event}
    (h : rest.filterMap XmlNode.event = textEvent value ++ .stop name :: k) :
    ∃ node rest', readText r rest = (some (firstWord value), { r with rest := rest', node := some node }) ∧
      rest'.length < rest.length ∧
      (rest'.filterMap XmlNode.event = .stop name :: k ∧ (∀ n, node ≠ .endElement n) ∨
        rest'.filterMap XmlNode.event = k ∧ node = .endElement name) := by
  induction rest with
  | nil =>
    rw [textEvent] at h
    split_ifs at h <;> cases h
  | cons node rest ih =>
    cases node with
    | element n =>
      rw [textEvent] at h
      split_ifs at h <;> cases h
    | endElement n =>
      rw [textEvent] at h
      split_ifs at h with hblank
      · obtain ⟨heq, hk⟩ := List.cons.inj h
        obtain rfl := Event.stop.inj heq
        refine ⟨.endElement n, rest, ?_, Nat.lt_succ_self _, .inr ⟨hk, rfl⟩⟩
        rw [readText, firstWord_blank hblank]
      · cases h
    | text v =>
      rw [textEvent] at h
      split_ifs at h with hblank
      · cases h
      · obtain ⟨heq, hk⟩ := List.cons.inj h
        obtain rfl := Event.text.inj heq
        exact ⟨.text v, rest, rfl, Nat.lt_succ_self _, .inl ⟨hk, fun n hn => by cases hn⟩⟩
    | other =>
      obtain ⟨node', rest', hread, hlt, hk⟩ := ih h
      exact ⟨node', rest', hread, Nat.lt_succ_of_lt hlt, hk⟩

/-- The end of an element, behind its text. -/
theorem expectElementEnd_eq {r : Reader} {node : XmlNode} {name : Text} {k : List Event} (hnode : r.node = some node)
    (hgood : r.error = none)
    (h : view.left r = .stop name :: k ∧ (∀ n, node ≠ .endElement n) ∨ view.left r = k ∧ node = .endElement name) :
    Taken view r k () (expectElementEnd name r) := by
  have hslash : ('/' :: name).head? = some '/' ∧ isTag ('/' :: name).tail name = true := ⟨rfl, isTag_self name⟩
  rcases h with ⟨hleft, hne⟩ | ⟨hleft, rfl⟩
  · obtain ⟨t, ht, hk, hgood', hlt⟩ := takesItem_stop name r k hgood hleft
    refine ⟨t, ?_, hk, hgood', hlt.le⟩
    unfold expectElementEnd
    cases node
    case endElement n => exact absurd rfl (hne n)
    all_goals
      simp only [Parse.bind, hnode, ht]
      rw [if_pos hslash]
      rfl
  · refine ⟨r, ?_, hleft, hgood, le_rfl⟩
    unfold expectElementEnd
    simp only [Parse.bind, hnode]
    rw [if_pos hslash]
    rfl

/-- **An element with a text**, behind its start tag. -/
theorem takes_closing {name value : Text} (hx : Reads x (firstWord value) a) :
    Takes view (closing name x) (textEvent value ++ [.stop name]) (.next a) := by
  intro r k hgood hleft
  rw [List.append_assoc] at hleft
  obtain ⟨node, rest', hread, hlt, hk⟩ := readText_eq (r := r) hleft
  obtain ⟨ws, hws⟩ := hx r _ hread hgood
  obtain ⟨t, ht, hk', hgood', hle⟩ := expectElementEnd_eq
    (r := { r with rest := rest', node := some node, writes := ws }) rfl hgood hk
  refine ⟨t, ?_, hk', hgood', hle.trans hlt.le⟩
  unfold closing Parse.map
  simp only [Parse.bind, hws, ht]
  rfl

/-- An element with a text in a loop over the tags. -/
theorem Loops.leaf {onEnd : α → Parser Reader α} {body : Text → α → Parser Reader (Pass α)} {a a₁ a' : α}
    {name value : Text} {m : List Event} {y : Parser Reader α} (hbody : body name a = closing name y)
    (hy : Reads y (firstWord value) a₁) (h : Loops view getXmlElement onEnd body a₁ m a') :
    Loops view getXmlElement onEnd body a ((Piece.leaf name value).events ++ m) a' := by
  refine Parse.Loops.next (takesItem_start name) ?_ h
  rw [hbody]
  exact takes_closing hy

/-- The same, for a word. -/
theorem Loops.word {onEnd : α → Parser Reader α} {body : Text → α → Parser Reader (Pass α)} {a a₁ a' : α}
    {name : Text} {m : List Event} {y : Parser Reader α} (hw : IsWord w) (hbody : body name a = closing name y)
    (hy : Reads y w a₁) (h : Loops view getXmlElement onEnd body a₁ m a') :
    Loops view getXmlElement onEnd body a ((Piece.leaf name w).events ++ m) a' :=
  Loops.leaf hbody ((firstWord_word hw).1.symm ▸ hy) h

/-- The same, for a word with blanks around it. -/
theorem Loops.spaced {onEnd : α → Parser Reader α} {body : Text → α → Parser Reader (Pass α)} {a a₁ a' : α}
    {name : Text} {m : List Event} {y : Parser Reader α} (hw : IsWord w) (hbody : body name a = closing name y)
    (hy : Reads y w a₁) (h : Loops view getXmlElement onEnd body a₁ m a') :
    Loops view getXmlElement onEnd body a ((Piece.leaf name (' ' :: (w ++ [' ']))).events ++ m) a' :=
  Loops.leaf hbody ((firstWord_word hw).2.symm ▸ hy) h

/-- The loop over the tags. -/
theorem takes_tags {onEnd : α → Parser Reader α} {body : Text → α → Parser Reader (Pass α)} {a a' : α}
    {l : List Event} (h : Loops view getXmlElement onEnd body a l a') : Takes view (tags onEnd body a) l a' :=
  h.takes rfl

/-! ## Numbers -/

theorem isTextChar_of_isdigit {c : Char} (h : CStr.isdigit c = true) : isTextChar c = true ∧ c ≠ ' ' := by
  have hne (d : Char) (hd : CStr.isdigit d = false) : c ≠ d := Decimal.isdigit_ne h hd
  obtain ⟨hlo, hhi⟩ := Decimal.isdigit_bounds h
  have hrange : 32 ≤ c.toNat ∧ c.toNat ≤ 126 := ⟨le_trans (by decide) hlo, le_trans hhi (by decide)⟩
  refine ⟨?_, hne ' ' rfl⟩
  simp [isTextChar, hrange, hne '<' rfl, hne '>' rfl, hne '&' rfl]

theorem isWord_printNat (n : ℕ) : IsWord (Decimal.printNat n) :=
  ⟨fun c hc => (isTextChar_of_isdigit (Decimal.allDigits_printNat n c hc)).1,
    fun hc => (isTextChar_of_isdigit (Decimal.allDigits_printNat n _ hc)).2 rfl⟩

theorem isWord_printInt (z : ℤ) : IsWord (Decimal.printInt z) := by
  have hnat := isWord_printNat z.natAbs
  rw [Decimal.printInt]
  split_ifs
  · refine ⟨fun c hc => ?_, fun hc => ?_⟩
    · rcases List.mem_cons.mp hc with rfl | hc
      · rfl
      · exact hnat.1 c hc
    · rcases List.mem_cons.mp hc with hc | hc
      · exact absurd hc (by decide)
      · exact hnat.2 hc
  · exact hnat

/-- The characters of a number in scientific notation. -/
theorem mem_print {n : ℕ} {q : ℚ} {c : Char} (hc : c ∈ Scientific.print n q) :
    CStr.isdigit c = true ∨ c ∈ ['-', '.', 'e', '+'] := by
  have hdigits (k m : ℕ) : ∀ d ∈ (Decimal.printNat m).leftpad k '0', CStr.isdigit d = true :=
    Scientific.allDigits_leftpad (Decimal.allDigits_printNat m)
  unfold Scientific.print at hc
  simp only [List.mem_append, List.mem_cons] at hc
  rcases hc with ((hc | hc) | rfl | hc) | rfl | hc | hc
  · split_ifs at hc
    · exact .inr (by simpa using .inl (List.mem_singleton.mp hc))
    · cases hc
  · exact .inl (hdigits _ _ c (List.mem_of_mem_take hc))
  · exact .inr (by decide)
  · exact .inl (hdigits _ _ c (List.mem_of_mem_drop hc))
  · exact .inr (by decide)
  · rw [hc]
    split_ifs
    · exact .inr (by decide)
    · exact .inr (by decide)
  · exact .inl (hdigits _ _ c hc)

theorem isWord_print (n : ℕ) (q : ℚ) : IsWord (Scientific.print n q) := by
  have hchar : ∀ c ∈ Scientific.print n q, isTextChar c = true ∧ c ≠ ' ' := by
    intro c hc
    rcases mem_print hc with hd | hd
    · exact isTextChar_of_isdigit hd
    · exact ⟨List.all_eq_true.mp (by decide : ['-', '.', 'e', '+'].all isTextChar = true) c hd,
        fun hc => absurd (hc ▸ hd) (by decide)⟩
  exact ⟨fun c hc => (hchar c hc).1, fun hc => (hchar ' ' hc).2 rfl⟩

theorem isWord_printDouble (v : RrdValue) : IsWord (printDouble v) := by
  cases v with
  | nan => exact ⟨by decide, by decide⟩
  | neginf => exact ⟨by decide, by decide⟩
  | inf => exact ⟨by decide, by decide⟩
  | num q => exact isWord_print 10 q

theorem isWord_printValue (v : RrdValue) : IsWord (printValue v) := by
  rw [printValue]
  split_ifs
  · exact ⟨by decide, by decide⟩
  · exact isWord_printDouble v

/-- A number is none of the words that `get_xml_double` looks for. -/
theorem hasWord_eq_false {text word : Text} (htext : ∀ c ∈ text, CStr.tolower c ≠ 'n') (hword : 'n' ∈ word) :
    hasWord text word = false := by
  rw [hasWord, List.any_eq_false]
  intro i _ htag
  have heq : ((text.drop i).take word.length).map CStr.tolower = word.map CStr.tolower := of_decide_eq_true htag
  have hmem : 'n' ∈ word.map CStr.tolower := List.mem_map.mpr ⟨'n', hword, rfl⟩
  rw [← heq] at hmem
  obtain ⟨c, hc, hlower⟩ := List.mem_map.mp hmem
  exact htext c (List.mem_of_mem_drop (List.mem_of_mem_take hc)) hlower

theorem tolower_ne_n {n : ℕ} {q : ℚ} : ∀ c ∈ Scientific.print n q, CStr.tolower c ≠ 'n' := by
  intro c hc
  rcases mem_print hc with hd | hd
  · rw [CStr.tolower_of_digit hd]
    exact Decimal.isdigit_ne hd rfl
  · have hall : ['-', '.', 'e', '+'].all (fun c => CStr.tolower c ≠ 'n') = true := by decide
    exact of_decide_eq_true (List.all_eq_true.mp hall c hd)

theorem reads_getXmlDouble {v : RrdValue} (hw : w = printDouble v ∨ w = printValue v) (h : Readable v) :
    Reads getXmlDouble w (dumped v) := by
  refine (reads_getXmlText w).bind fun r _ => ⟨r.writes, ?_⟩
  cases v with
  | nan => rcases hw with rfl | rfl <;> rfl
  | neginf => rcases hw with rfl | rfl <;> rfl
  | inf => rcases hw with rfl | rfl <;> rfl
  | num q =>
    obtain rfl : w = Scientific.print 10 q := by
      rcases hw with rfl | rfl
      · rfl
      · rfl
    have hno (word : String) (hword : 'n' ∈ word.toList) :
        hasWord (Scientific.print 10 q) word.toList = false := hasWord_eq_false tolower_ne_n hword
    rw [hno "nan" (by decide), hno "-inf" (by decide), hno "+inf" (by decide), hno "inf" (by decide),
      Scientific.strtod_print (by decide) h]
    rfl

theorem reads_printUlong {n : ℕ} (hn : n < 2 ^ 64) : Reads getXmlUlong (printUlong n) n :=
  reads_getXmlUlong (Decimal.strtoul_printNat hn)

end Restore

end Rrdtool
