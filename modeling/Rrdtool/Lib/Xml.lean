import Mathlib.Data.List.Chain
import Mathlib.Data.List.Infix
import Rrdtool.Lib.CStr

/-!
# XML documents

A document, piece by piece as a program prints it, and what a reader reports of it: the tags and the texts. White
space between the tags, comments and declarations are not reported.

* `Balanced`, `Document` — documents in which every element is ended;
* `Faithful` — what is expected of a reader;
* `scan_faithful` — a small reader of which this is true.
-/

namespace Xml

open CStr

/-! ## Documents -/

/-- What a reader reports. -/
inductive Event : Type where
  /-- the start of an element -/
  | start (name : Text)
  /-- the end of an element -/
  | stop (name : Text)
  /-- a text that is not white space -/
  | text (value : Text)
  deriving DecidableEq

/-- A piece of a document. -/
inductive Piece : Type where
  /-- the start of an element: its name, and what stands behind it in the tag -/
  | start (name attributes : Text)
  /-- the end of an element -/
  | stop (name : Text)
  /-- an element with a text -/
  | leaf (name value : Text)
  /-- white space -/
  | blank (s : Text)
  /-- a comment -/
  | comment (s : Text)
  /-- a declaration: what stands in the tag -/
  | declaration (s : Text)
  deriving DecidableEq

/-- The text of a start tag. -/
def startTag (name attributes : Text) : Text := '<' :: (name ++ attributes ++ ['>'])

/-- The text of an end tag. -/
def stopTag (name : Text) : Text := '<' :: '/' :: (name ++ ['>'])

/-- The text of a piece. -/
def Piece.render : Piece → Text
  | .start name attributes => startTag name attributes
  | .stop name => stopTag name
  | .leaf name value => startTag name [] ++ value ++ stopTag name
  | .blank s => s
  | .comment s => '<' :: '!' :: '-' :: '-' :: (s ++ ['-', '-', '>'])
  | .declaration s => '<' :: (s ++ ['>'])

/-- The text of a document. -/
def render (doc : List Piece) : Text := doc.flatMap Piece.render

/-- The event of a text. -/
def textEvent (value : Text) : List Event := if value.all isspace then [] else [.text value]

/-- The events of a piece. -/
def Piece.events : Piece → List Event
  | .start name _ => [.start name]
  | .stop name => [.stop name]
  | .leaf name value => .start name :: (textEvent value ++ [.stop name])
  | _ => []

/-- The events of a document. -/
def events (doc : List Piece) : List Event := doc.flatMap Piece.events

@[simp] theorem events_nil : events [] = [] := rfl

@[simp] theorem events_cons (p : Piece) (doc : List Piece) : events (p :: doc) = p.events ++ events doc := rfl

@[simp] theorem events_append (a b : List Piece) : events (a ++ b) = events a ++ events b := List.flatMap_append

theorem events_flatMap {α : Type} (l : List α) (f : α → List Piece) :
    events (l.flatMap f) = l.flatMap fun a => events (f a) := List.flatMap_assoc

/-! ## What is well formed -/

/-- Is this a letter, a digit or an underscore? -/
def isNameChar (c : Char) : Bool := isalpha c || isdigit c || c = '_'

/-- The name of an element. -/
def IsName (name : Text) : Prop := (∃ c ∈ name.head?, isalpha c = true) ∧ ∀ c ∈ name, isNameChar c = true

instance decidableIsName (name : Text) : Decidable (IsName name) :=
  decidable_of_iff (name.head?.any isalpha = true ∧ name.all isNameChar = true) (by
    rw [Option.any_eq_true, List.all_eq_true]
    rfl)

/-- A character that prints and that stands for itself in a text. -/
def isTextChar (c : Char) : Bool := decide (32 ≤ c.toNat ∧ c.toNat ≤ 126) && c ≠ '<' && c ≠ '>' && c ≠ '&'

/-- A text of such characters. -/
def IsText (s : Text) : Prop := ∀ c ∈ s, isTextChar c = true

instance decidableIsText (s : Text) : Decidable (IsText s) :=
  decidable_of_iff (s.all isTextChar = true) List.all_eq_true

/-- The piece may stand in a document. -/
def Piece.Ok : Piece → Prop
  | .start name attributes =>
    IsName name ∧ (∀ c ∈ attributes.head?, isspace c = true) ∧ ∀ c ∈ attributes, isTextChar c = true ∨ isspace c = true
  | .stop name => IsName name
  | .leaf name value => IsName name ∧ IsText value
  | .blank s => ∀ c ∈ s, c = ' ' ∨ c = '\t' ∨ c = '\n'
  | .comment s => IsText s ∧ ¬['-', '-'] <:+: s ∧ s.getLast? ≠ some '-'
  | .declaration s => (s.head? = some '?' ∨ s.head? = some '!') ∧ IsText s

/-- The piece neither starts nor ends an element that goes on. -/
def Piece.IsInner : Piece → Prop
  | .leaf _ _ => True
  | .blank _ => True
  | .comment _ => True
  | _ => False

/-- The piece may stand outside of the elements. -/
def Piece.IsOuter : Piece → Prop
  | .blank _ => True
  | .comment _ => True
  | _ => False

/-- Every element is ended. -/
inductive Balanced : List Piece → Prop where
  | nil : Balanced []
  | cons {p : Piece} {l : List Piece} : p.IsInner → Balanced l → Balanced (p :: l)
  | block {name : Text} {l m : List Piece} : Balanced l → Balanced m →
    Balanced (.start name [] :: (l ++ .stop name :: m))

theorem Balanced.append {l m : List Piece} (hl : Balanced l) (hm : Balanced m) : Balanced (l ++ m) := by
  induction hl with
  | nil => exact hm
  | cons hp _ ih => exact .cons hp ih
  | block hinner _ _ ih =>
    rw [List.cons_append, List.append_assoc, List.cons_append]
    exact .block hinner ih

theorem Balanced.flatMap {α : Type} {l : List α} {f : α → List Piece} (h : ∀ a ∈ l, Balanced (f a)) :
    Balanced (l.flatMap f) := by
  induction l with
  | nil => exact .nil
  | cons a l ih =>
    rw [List.flatMap_cons]
    exact (h a List.mem_cons_self).append (ih fun b hb => h b (List.mem_cons_of_mem a hb))

theorem Balanced.declaration_not_mem {l : List Piece} (h : Balanced l) (s : Text) : .declaration s ∉ l := by
  induction h with
  | nil => exact List.not_mem_nil
  | cons hp _ ih =>
    intro hmem
    rcases List.mem_cons.mp hmem with rfl | hmem
    · exact hp
    · exact ih hmem
  | block _ _ ihl ihm =>
    intro hmem
    simp only [List.mem_cons, List.mem_append, reduceCtorEq, false_or] at hmem
    exact hmem.elim ihl ihm

/-- What may stand in an element. -/
structure WellFormed (l : List Piece) : Prop where
  balanced : Balanced l
  ok : ∀ p ∈ l, p.Ok

theorem WellFormed.nil : WellFormed [] := ⟨.nil, fun _ h => absurd h List.not_mem_nil⟩

theorem WellFormed.cons {p : Piece} {l : List Piece} (hinner : p.IsInner) (hok : p.Ok) (hl : WellFormed l) :
    WellFormed (p :: l) :=
  ⟨.cons hinner hl.balanced, List.forall_mem_cons.mpr ⟨hok, hl.ok⟩⟩

theorem WellFormed.append {l m : List Piece} (hl : WellFormed l) (hm : WellFormed m) : WellFormed (l ++ m) :=
  ⟨hl.balanced.append hm.balanced, List.forall_mem_append.mpr ⟨hl.ok, hm.ok⟩⟩

theorem WellFormed.flatMap {α : Type} {l : List α} {f : α → List Piece} (h : ∀ a ∈ l, WellFormed (f a)) :
    WellFormed (l.flatMap f) := by
  refine ⟨.flatMap fun a ha => (h a ha).balanced, fun p hp => ?_⟩
  obtain ⟨a, ha, hmem⟩ := List.mem_flatMap.mp hp
  exact (h a ha).ok p hmem

theorem WellFormed.flatten {l : List (List Piece)} (h : ∀ a ∈ l, WellFormed a) : WellFormed l.flatten := by
  rw [← List.flatMap_id]
  exact .flatMap h

theorem WellFormed.block (name : Text) {l m : List Piece} (hname : IsName name) (hl : WellFormed l)
    (hm : WellFormed m) : WellFormed (.start name [] :: (l ++ .stop name :: m)) := by
  refine ⟨.block hl.balanced hm.balanced, ?_⟩
  have hstart : (Piece.start name []).Ok := ⟨hname, (by simp), fun c hc => absurd hc List.not_mem_nil⟩
  refine List.forall_mem_cons.mpr ⟨hstart, ?_⟩
  exact List.forall_mem_append.mpr ⟨hl.ok, List.forall_mem_cons.mpr ⟨hname, hm.ok⟩⟩

/-- No two dashes stand side by side. -/
theorem not_dashes_iff {s : Text} : ¬['-', '-'] <:+: s ↔ s.IsChain fun a b => a = '-' → b ≠ '-' := by
  constructor
  · intro h
    induction s with
    | nil => exact .nil
    | cons c s ih =>
      have hs := ih fun hsub => h (List.IsInfix.trans hsub (List.suffix_cons c s).isInfix)
      cases s with
      | nil => exact .singleton c
      | cons d s =>
        refine .cons_cons ?_ hs
        rintro rfl rfl
        exact h ⟨[], s, rfl⟩
  · rintro h ⟨a, b, rfl⟩
    have hdashes := h.left_of_append.right_of_append
    simp at hdashes

/-- A document: declarations, of which only the first may be that of XML, and one element. -/
structure Document (doc : List Piece) : Prop where
  parts : ∃ declarations before name attributes content after,
    doc = declarations ++ before ++ .start name attributes :: (content ++ .stop name :: after) ∧
      (∀ p ∈ declarations, (∃ s, p = .declaration s) ∨ p.IsOuter) ∧ (∀ p ∈ before, p.IsOuter) ∧ Balanced content ∧
      ∀ p ∈ after, p.IsOuter
  first : ∀ s, .declaration s ∈ doc.tail → s.head? = some '!'
  ok : ∀ p ∈ doc, p.Ok

/-- **A reader reports the events of every document**; what else it reports is none. -/
def Faithful {ν : Type} (event : ν → Option Event) (read : Text → List ν) : Prop :=
  ∀ doc, Document doc → (read (render doc)).filterMap event = events doc

/-! ## A small reader -/

/-- The event of a tag. -/
def tagEvent : Text → List Event
  | '/' :: name => [.stop name]
  | '?' :: _ => []
  | '!' :: _ => []
  | tag => [.start (tag.takeWhile fun c => !isspace c)]

/-- Goes through a text; in a tag or outside of them, with what has been read of either. -/
def scan : Bool → Text → Text → List Event
  | true, _, [] => []
  | true, tag, c :: s => if c = '>' then tagEvent tag ++ scan false [] s else scan true (tag ++ [c]) s
  | false, value, [] => textEvent value
  | false, value, c :: s => if c = '<' then textEvent value ++ scan true [] s else scan false (value ++ [c]) s

variable {s t : Text}

/-- A tag is read up to its end. -/
theorem scan_tag (h : '>' ∉ s) (tag : Text) : scan true tag (s ++ '>' :: t) = tagEvent (tag ++ s) ++ scan false [] t := by
  induction s generalizing tag with
  | nil =>
    rw [List.nil_append, List.append_nil, scan, if_pos rfl]
  | cons c s ih =>
    obtain ⟨hc, hs⟩ := not_or.mp (mt List.mem_cons.mpr h)
    rw [List.cons_append, scan, if_neg (Ne.symm hc), ih hs, List.append_assoc]
    rfl

/-- A text is read up to the next tag. -/
theorem scan_text (h : '<' ∉ s) (value : Text) : scan false value (s ++ t) = scan false (value ++ s) t := by
  induction s generalizing value with
  | nil => rw [List.nil_append, List.append_nil]
  | cons c s ih =>
    obtain ⟨hc, hs⟩ := not_or.mp (mt List.mem_cons.mpr h)
    rw [List.cons_append, scan, if_neg (Ne.symm hc), ih hs, List.append_assoc]
    rfl

theorem IsText.not_mem (h : IsText s) : '<' ∉ s ∧ '>' ∉ s :=
  ⟨fun hmem => absurd (h _ hmem) (by decide), fun hmem => absurd (h _ hmem) (by decide)⟩

theorem IsName.not_mem (h : IsName s) : '<' ∉ s ∧ '>' ∉ s :=
  ⟨fun hmem => absurd (h.2 _ hmem) (by decide), fun hmem => absurd (h.2 _ hmem) (by decide)⟩

/-- White space comes before all other characters. -/
theorem toNat_of_isspace {c : Char} (h : isspace c = true) : c.toNat ≤ 32 := by
  simp only [isspace, Bool.or_eq_true, decide_eq_true_eq] at h
  rcases h with ((((rfl | rfl) | rfl) | rfl) | h) | h
  · decide
  · decide
  · decide
  · decide
  · omega
  · omega

theorem toNat_of_isNameChar {c : Char} (h : isNameChar c = true) : 48 ≤ c.toNat := by
  simp only [isNameChar, isalpha, isupper, isdigit, Bool.or_eq_true, Bool.and_eq_true, decide_eq_true_eq] at h
  rcases h with ((⟨h, -⟩ | ⟨h, -⟩) | ⟨h, -⟩) | rfl
  · exact le_trans (by decide) h
  · exact le_trans (by decide) h
  · exact h
  · decide

theorem not_isspace_of_isNameChar {c : Char} (h : isNameChar c = true) : (!isspace c) = true := by
  rw [Bool.not_eq_true', Bool.eq_false_iff]
  intro hspace
  have hle := toNat_of_isspace hspace
  have hge := toNat_of_isNameChar h
  omega

/-- A start tag has its name as event. -/
theorem tagEvent_start {name attributes : Text} (hname : IsName name)
    (hattributes : ∀ c ∈ attributes.head?, isspace c = true) : tagEvent (name ++ attributes) = [.start name] := by
  obtain ⟨⟨c, hhead, hc⟩, hchars⟩ := hname
  obtain ⟨s, rfl⟩ := List.head?_eq_some_iff.mp hhead
  have htake : ((c :: s) ++ attributes).takeWhile (fun c => !isspace c) = c :: s := by
    rw [List.takeWhile_append_of_pos fun d hd => not_isspace_of_isNameChar (hchars d hd)]
    cases attributes with
    | nil => rw [List.takeWhile_nil, List.append_nil]
    | cons d a => simp [hattributes d rfl]
  have hne (d : Char) (hd : isalpha d = false) : c ≠ d := by
    rintro rfl
    rw [hc] at hd
    cases hd
  rw [List.cons_append, tagEvent]
  · rw [← List.cons_append, htake]
  · simpa using hne '/' rfl
  · simpa using hne '?' rfl
  · simpa using hne '!' rfl

/-! ### It is faithful -/

/-- What has been read outside of the tags is white space. -/
def IsBlank (s : Text) : Prop := s.all isspace = true

theorem textEvent_blank (h : IsBlank s) : textEvent s = [] := if_pos h

/-- **A piece** is read as its events, and leaves white space. -/
theorem scan_piece {p : Piece} (h : p.Ok) (hs : IsBlank s) :
    ∃ s', IsBlank s' ∧ scan false s (p.render ++ t) = p.events ++ scan false s' t := by
  have hstart {name attributes u value : Text} (hname : IsName name) (hgt : '>' ∉ attributes)
      (hattributes : ∀ c ∈ attributes.head?, isspace c = true) :
      scan false value (startTag name attributes ++ u) = textEvent value ++ .start name :: scan false [] u := by
    have hmem : '>' ∉ name ++ attributes := by
      rw [List.mem_append, not_or]
      exact ⟨hname.not_mem.2, hgt⟩
    rw [startTag, List.cons_append, scan, if_pos rfl, List.append_assoc, List.singleton_append, scan_tag hmem,
      List.nil_append, tagEvent_start hname hattributes]
    rfl
  have hstop {name u value : Text} (hname : IsName name) :
      scan false value (stopTag name ++ u) = textEvent value ++ .stop name :: scan false [] u := by
    have hmem : '>' ∉ '/' :: name := List.not_mem_cons_of_ne_of_not_mem (by decide) hname.not_mem.2
    have htag := scan_tag (t := u) hmem []
    rw [List.cons_append] at htag
    rw [stopTag, List.cons_append, scan, if_pos rfl, List.cons_append, List.append_assoc, List.singleton_append, htag]
    rfl
  have hmarkup {m u : Text} (hm : '>' ∉ m) (hhead : m.head? = some '?' ∨ m.head? = some '!') :
      scan false s ('<' :: (m ++ ['>']) ++ u) = scan false [] u := by
    rw [List.cons_append, scan, if_pos rfl, textEvent_blank hs, List.nil_append, List.append_assoc,
      List.singleton_append, scan_tag hm, List.nil_append]
    cases m with
    | nil => simp at hhead
    | cons c m =>
      rcases hhead with hc | hc
      · obtain rfl := Option.some.inj hc
        rfl
      · obtain rfl := Option.some.inj hc
        rfl
  cases p with
  | start name attributes =>
    obtain ⟨hname, hattributes, hchars⟩ := h
    have hgt : '>' ∉ attributes := fun hmem => absurd (hchars _ hmem) (by decide)
    refine ⟨[], rfl, ?_⟩
    rw [Piece.render, hstart hname hgt hattributes, textEvent_blank hs]
    rfl
  | stop name =>
    refine ⟨[], rfl, ?_⟩
    rw [Piece.render, hstop h, textEvent_blank hs]
    rfl
  | leaf name value =>
    obtain ⟨hname, hvalue⟩ := h
    refine ⟨[], rfl, ?_⟩
    have hempty : ∀ c ∈ ([] : Text).head?, isspace c = true := fun c hc => by cases hc
    rw [Piece.render, List.append_assoc, List.append_assoc, hstart hname List.not_mem_nil hempty, textEvent_blank hs,
      List.nil_append, scan_text hvalue.not_mem.1, List.nil_append, hstop hname, Piece.events, List.cons_append,
      List.append_assoc]
    rfl
  | blank b =>
    have hlt : '<' ∉ b := fun hmem => absurd (h _ hmem) (by decide)
    refine ⟨s ++ b, ?_, ?_⟩
    · rw [IsBlank, List.all_append, hs, Bool.true_and, List.all_eq_true]
      intro c hc
      rcases h c hc with rfl | rfl | rfl
      · rfl
      · rfl
      · rfl
    · rw [Piece.render, scan_text hlt]
      rfl
  | comment c =>
    obtain ⟨hc, -⟩ := h
    refine ⟨[], rfl, ?_⟩
    have hgt : '>' ∉ '!' :: '-' :: '-' :: (c ++ ['-', '-']) := by
      simp [hc.not_mem.2]
    have hread := hmarkup (u := t) hgt (.inr rfl)
    simp only [List.cons_append, List.append_assoc, List.nil_append] at hread
    simp only [Piece.render, List.cons_append, List.append_assoc, List.nil_append]
    exact hread
  | declaration d =>
    obtain ⟨hhead, hd⟩ := h
    exact ⟨[], rfl, hmarkup hd.not_mem.2 hhead⟩

/-- **The small reader is faithful.** -/
theorem scan_faithful : Faithful some (scan false []) := by
  intro doc hdoc
  rw [List.filterMap_some]
  have hok := hdoc.ok
  clear hdoc
  suffices hread : ∀ s, IsBlank s → scan false s (render doc) = events doc from hread [] rfl
  induction doc with
  | nil => exact fun s hs => textEvent_blank hs
  | cons p doc ih =>
    intro s hs
    obtain ⟨s', hs', hread⟩ := scan_piece (t := render doc) (hok p List.mem_cons_self) hs
    rw [render, List.flatMap_cons, ← render, hread, ih (fun q hq => hok q (List.mem_cons_of_mem p hq)) s' hs']
    rfl

end Xml
