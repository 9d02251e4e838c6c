import Rrdtool.Restore.ReadRows

/-!
# A dump is a document

What `rrd_dump` writes for a file that can be dumped is well formed, and has the events that `rrd_restore` reads.

* `rraPieces_dump` — an RRA;
* `dumpPieces_document` — the whole document.
-/

namespace Rrdtool

open Xml

/-- The stamps may stand in a comment. -/
def IsStamp (stamp : ℤ → Text) : Prop := ∀ t, IsText (stamp t) ∧ ¬['-', '-'] <:+: stamp t

namespace Restore

variable {r : Rrd} {stamp : ℤ → Text}

/-! ## A dump is a document -/

theorem isText_append {s t : Text} (hs : IsText s) (ht : IsText t) : IsText (s ++ t) :=
  List.forall_mem_append.mpr ⟨hs, ht⟩

/-- A word with blanks around it. -/
theorem isText_spaced {s : Text} (hs : IsText s) : IsText (' ' :: (s ++ [' '])) :=
  isText_append (s := [' ']) (by decide) (isText_append hs (by decide))

/-- What may stand in a comment, with blanks around it. -/
theorem ok_comment {s : Text} (hs : IsText s) (hdash : ¬['-', '-'] <:+: s) : (Piece.comment (' ' :: (s ++ [' ']))).Ok := by
  have hlast : (' ' :: (s ++ [' '])).getLast? = some ' ' := by rw [← List.cons_append, List.getLast?_concat]
  refine ⟨isText_spaced hs, ?_, by rw [hlast]; decide⟩
  rw [not_dashes_iff] at hdash ⊢
  have hchain : ([' '] ++ (s ++ [' '])).IsChain fun a b => a = '-' → b ≠ '-' :=
    List.isChain_append.mpr ⟨.singleton _, List.isChain_append.mpr ⟨hdash, .singleton _, by simp⟩, by simp⟩
  exact hchain

theorem wellFormed_tabs (n : ℕ) {l : List Piece} (hl : WellFormed l) : WellFormed (tabs n :: l) :=
  .cons trivial (fun _ hc => .inr (.inl (List.eq_of_mem_replicate hc))) hl

theorem wellFormed_newline {l : List Piece} (hl : WellFormed l) : WellFormed (newline :: l) :=
  .cons trivial (fun _ hc => .inr (.inr (List.mem_singleton.mp hc))) hl

theorem wellFormed_comment {s : Text} {l : List Piece} (hs : (Piece.comment s).Ok) (hl : WellFormed l) :
    WellFormed (.comment s :: l) :=
  .cons trivial hs hl

/-- A blank in front of something else. -/
theorem wellFormed_space {l : List Piece} (hl : WellFormed l) : WellFormed (.blank [' '] :: l) :=
  .cons trivial (fun _ hc => .inl (List.mem_singleton.mp hc)) hl

theorem wellFormed_leaf {name : Text} {value : Text} {l : List Piece} (hname : IsName name) (hvalue : IsText value)
    (hl : WellFormed l) : WellFormed (.leaf name value :: l) :=
  .cons trivial ⟨hname, hvalue⟩ hl

theorem wellFormed_leafLine {n : ℕ} {name : String} {value : Text} (hname : IsName name.toList) (hvalue : IsText value) :
    WellFormed (leafLine n name value) :=
  wellFormed_tabs n (wellFormed_leaf hname hvalue (wellFormed_newline .nil))

theorem wellFormed_notedLine {n : ℕ} {name : String} {value comment : Text} (hname : IsName name.toList)
    (hvalue : IsText value) (hcomment : (Piece.comment comment).Ok) : WellFormed (notedLine n name value comment) :=
  wellFormed_tabs n (wellFormed_leaf hname hvalue (wellFormed_space
    (wellFormed_comment hcomment (wellFormed_newline (wellFormed_newline .nil)))))

theorem isText_printUlong (n : ℕ) : IsText (printUlong n) := (isWord_printNat n).1

theorem isText_printDouble (v : RrdValue) : IsText (printDouble v) := (isWord_printDouble v).1

theorem isText_printValue (v : RrdValue) : IsText (printValue v) := (isWord_printValue v).1

theorem wellFormed_dsPieces {d : ℕ} (h : ReadableDs r d) {pieces : List Piece} (hpieces : dsPieces r d = some pieces) :
    WellFormed pieces := by
  have hlines : ∀ lines, dsLines r d = some lines → WellFormed lines := by
    intro lines hlines
    rw [dsLines] at hlines
    split_ifs at hlines with hdst
    · obtain ⟨prog, s, hpar, hs, hword, -⟩ := h.cdef hdst
      have hprog : (r.dsDef d).cdef = prog := by rw [DsDef.cdef, hpar]
      rw [hprog, hs] at hlines
      obtain rfl := Option.some.inj hlines
      exact wellFormed_leafLine (by decide) (isText_spaced hword.1)
    · obtain rfl := Option.some.inj hlines
      exact ((wellFormed_leafLine (by decide) (isText_printUlong _)).append
        (wellFormed_leafLine (by decide) (isText_printValue _))).append
          (wellFormed_leafLine (by decide) (isText_printValue _))
  obtain ⟨lines, hl, rfl⟩ := Option.map_eq_some_iff.mp hpieces
  have hname : WellFormed (leafLine 2 "name" (' ' :: ((r.dsDef d).dsNam ++ [' ']))) :=
    wellFormed_leafLine (by decide) (isText_spaced h.name.1)
  have htype : WellFormed (leafLine 2 "type" (' ' :: ((dstName (r.dsDef d).dst).toList ++ [' ']))) :=
    wellFormed_leafLine (by decide) (isText_spaced (isWord_dstName _).1)
  have hlast : WellFormed (leafLine 2 "last_ds" (r.pdpPrep d).lastDs) := wellFormed_leafLine (by decide) h.lastDs.1
  have hvalue : WellFormed (leafLine 2 "value" (printValue (r.pdpPrep d).pdpVal)) :=
    wellFormed_leafLine (by decide) (isText_printValue _)
  have hunkn : WellFormed (leafLine 2 "unknown_sec" (' ' :: (printUlong (r.pdpPrep d).unknSecCnt ++ [' ']))) :=
    wellFormed_leafLine (by decide) (isText_spaced (isText_printUlong _))
  have hcomment : WellFormed [newline, tabs 2, .comment " PDP Status ".toList, newline] :=
    wellFormed_newline (wellFormed_tabs 2
      (wellFormed_comment ⟨by decide, by decide, by decide⟩ (wellFormed_newline .nil)))
  have hcontent := (wellFormed_newline .nil).append (hname.append (htype.append ((hlines lines hl).append
    (hcomment.append (hlast.append (hvalue.append (hunkn.append (wellFormed_tabs 1 .nil))))))))
  have hblock := wellFormed_tabs 1 (.block "ds".toList (by decide) hcontent
    (wellFormed_newline (wellFormed_newline .nil)))
  simpa [openTag, closeTag] using hblock

theorem wellFormed_paramLines (version : ℕ) (rra : RraDef) : WellFormed (paramLines version rra) := by
  have hulong (name : String) (n : ℕ) (hname : IsName name.toList) : WellFormed (leafLine 2 name (printUlong n)) :=
    wellFormed_leafLine hname (isText_printUlong n)
  have hdouble (name : String) (v : RrdValue) (hname : IsName name.toList) :
      WellFormed (leafLine 2 name (printDouble v)) := wellFormed_leafLine hname (isText_printDouble v)
  have hdependent := hulong "dependent_rra_idx" rra.dependentRraIdx (by decide)
  unfold paramLines
  cases rra.cf with
  | hwpredict | mhwpredict =>
    exact ((hdouble _ _ (by decide)).append (hdouble _ _ (by decide))).append hdependent
  | seasonal | devseasonal =>
    refine (((hdouble _ _ (by decide)).append (hulong _ _ (by decide))).append ?_).append hdependent
    split_ifs
    · exact hdouble _ _ (by decide)
    · exact .nil
  | failures =>
    exact ((((hdouble _ _ (by decide)).append (hdouble _ _ (by decide))).append (hulong _ _ (by decide))).append
      (hulong _ _ (by decide))).append hdependent
  | devpredict => exact hdependent
  | average | minimum | maximum | last => exact hdouble _ _ (by decide)

theorem wellFormed_cdpLines (rra : RraDef) (c : CdpPrep) : WellFormed (cdpLines rra c) := by
  have hulong (name : String) (n : ℕ) (hname : IsName name.toList) : WellFormed (leafLine 3 name (printUlong n)) :=
    wellFormed_leafLine hname (isText_printUlong n)
  have hvalue (name : String) (v : RrdValue) (hname : IsName name.toList) :
      WellFormed (leafLine 3 name (printValue v)) := wellFormed_leafLine hname (isText_printValue v)
  unfold cdpLines
  refine ((hvalue _ _ (by decide)).append (hvalue _ _ (by decide))).append ?_
  cases rra.cf with
  | hwpredict | mhwpredict =>
    exact (((((hvalue _ _ (by decide)).append (hvalue _ _ (by decide))).append (hvalue _ _ (by decide))).append
      (hvalue _ _ (by decide))).append (hulong _ _ (by decide))).append (hulong _ _ (by decide))
  | seasonal | devseasonal =>
    exact ((hvalue _ _ (by decide)).append (hvalue _ _ (by decide))).append (hulong _ _ (by decide))
  | devpredict => exact .nil
  | failures => exact wellFormed_leafLine (by decide) (isWord_historyText _ _).1
  | average | minimum | maximum | last => exact (hvalue _ _ (by decide)).append (hulong _ _ (by decide))

theorem wellFormed_cdpPieces (r : Rrd) (i d : ℕ) : WellFormed (cdpPieces r i d) := by
  have hlines := wellFormed_cdpLines (r.rraDef i) (r.cdpPrep (r.cdpIdx i d))
  have hblock := wellFormed_tabs 3 (.block "ds".toList (by decide)
    ((wellFormed_newline .nil).append (hlines.append (wellFormed_tabs 3 .nil))) (wellFormed_newline .nil))
  rw [cdpPieces]
  simpa [openTag, closeTag] using hblock

/-- A number has one sign at most. -/
theorem not_dashes_printInt (z : ℤ) : ¬['-', '-'] <:+: Decimal.printInt z := by
  have hdigits : (Decimal.printNat z.natAbs).IsChain fun a b => a = '-' → b ≠ '-' := by
    refine (List.pairwise_of_forall_mem_list fun a ha b _ hdash => ?_).isChain
    exact absurd hdash (Decimal.isdigit_ne (Decimal.allDigits_printNat _ a ha) rfl)
  rw [not_dashes_iff, Decimal.printInt]
  split_ifs
  · have hchain : (['-'] ++ Decimal.printNat z.natAbs).IsChain fun a b => a = '-' → b ≠ '-' := by
      refine List.isChain_append.mpr ⟨.singleton _, hdigits, fun _ _ b hb _ => ?_⟩
      exact Decimal.isdigit_ne (Decimal.allDigits_printNat _ b (List.mem_of_mem_head? hb)) rfl
    exact hchain
  · exact hdigits

theorem wellFormed_rowPieces (hstamp : IsStamp stamp) (r : Rrd) (now : ℤ) (pos : ℕ) :
    WellFormed (rowPieces stamp r now pos) := by
  have hcomment : (Piece.comment (' ' :: (stamp now ++ " / ".toList ++ Decimal.printInt now ++ [' ']))).Ok := by
    refine ok_comment (isText_append (isText_append (hstamp now).1 (by decide)) (isWord_printInt now).1) ?_
    have hnow := not_dashes_iff.mp (hstamp now).2
    have hint := not_dashes_iff.mp (not_dashes_printInt now)
    refine not_dashes_iff.mpr (List.isChain_append.mpr ⟨List.isChain_append.mpr ⟨hnow, by simp, by simp⟩, hint, ?_⟩)
    simp
  have hvalues : WellFormed
      ((List.range r.dsCnt).map fun d => .leaf "v".toList (printValue (r.values (pos + d)))) := by
    rw [List.map_eq_flatMap]
    exact .flatMap fun d _ => wellFormed_leaf (by decide) (isText_printValue _) .nil
  have hblock := wellFormed_tabs 3 (wellFormed_comment hcomment (wellFormed_space
    (.block "row".toList (by decide) hvalues (wellFormed_newline .nil))))
  rw [rowPieces]
  simpa [openTag, closeTag] using hblock

theorem rowCnt_lt (h : Dumpable r) {i : ℕ} (hi : i < r.rraCnt) : (r.rraDef i).rowCnt < 2 ^ 32 := by
  have hle := r.rowSum_mono hi
  rw [Rrd.rowSum_succ] at hle
  exact (Nat.le_add_left _ _).trans_lt (hle.trans_lt h.rows_lt)

/-- The rows of an RRA, from the oldest one on. -/
theorem rowsPieces_dump (stamp : ℤ → Text) {i : ℕ} (hcur : r.curRow i < (r.rraDef i).rowCnt)
    (hrows : (r.rraDef i).rowCnt < 2 ^ 32) :
    rowsPieces stamp r i (r.rraDef i).rowCnt (-long ((r.rraDef i).rowCnt - 1)) (r.curRow i % 2 ^ 32)
        (r.rraStart i + (r.curRow i + 1) * r.dsCnt) =
      (List.range (r.rraDef i).rowCnt).flatMap fun k : ℕ =>
        rowPieces stamp r (r.dumpTime i (-long ((r.rraDef i).rowCnt - 1) + k)) (r.cellPos i (r.rowByAge i k) 0) := by
  rw [Nat.mod_eq_of_lt (hcur.trans hrows), rowsPieces_eq _ _ hcur hrows]
  rfl

theorem rraPieces_dump (h : Dumpable r) (hstamp : IsStamp stamp) {i : ℕ} (hi : i < r.rraCnt) :
    ∃ pieces, rraPieces stamp r i = some pieces ∧ WellFormed pieces ∧
      events pieces = .start "rra".toList :: rraEvents r i := by
  refine ⟨_, if_neg fun hzero => h.rowSecs i hi hzero.2, ?_, ?_⟩
  · have hcf : WellFormed (leafLine 2 "cf" (cfName (r.rraDef i).cf).toList) :=
      wellFormed_leafLine (by decide) (isWord_cfName _).1
    have hseconds (n : ℕ) : (Piece.comment (' ' :: (printUlong n ++ " seconds ".toList))).Ok := by
      have hok := ok_comment (s := printUlong n ++ " seconds".toList)
        (isText_append (isText_printUlong n) (by decide)) (not_dashes_iff.mpr (List.isChain_append.mpr
          ⟨not_dashes_iff.mp (not_dashes_printInt n), by simp, by simp⟩))
      rwa [List.append_assoc] at hok
    have hper : WellFormed (notedLine 2 "pdp_per_row" (printUlong (r.rraDef i).pdpCnt)
        (' ' :: (printUlong (ulong ((r.rraDef i).pdpCnt * r.pdpStep)) ++ " seconds ".toList))) :=
      wellFormed_notedLine (by decide) (isText_printUlong _) (hseconds _)
    have hcdp : WellFormed ((List.range r.dsCnt).flatMap (cdpPieces r i)) := .flatMap fun d _ => wellFormed_cdpPieces r i d
    have hrows : WellFormed (rowsPieces stamp r i (r.rraDef i).rowCnt (-long ((r.rraDef i).rowCnt - 1))
        (r.curRow i % 2 ^ 32) (r.rraStart i + (r.curRow i + 1) * r.dsCnt)) := by
      rw [rowsPieces_dump stamp (h.curRow i hi) (rowCnt_lt h hi)]
      exact .flatMap fun k _ => wellFormed_rowPieces hstamp r _ _
    -- an element on lines of its own
    have hwrap (name : Text) (hname : IsName name) {l m : List Piece} (hl : WellFormed l) (hm : WellFormed m) :
        WellFormed (tabs 2 :: .start name [] :: ((newline :: (l ++ [tabs 2])) ++ .stop name :: (newline :: m))) :=
      wellFormed_tabs 2 (.block name hname (wellFormed_newline (hl.append (wellFormed_tabs 2 .nil)))
        (wellFormed_newline hm))
    have hblocks := hwrap "params".toList (by decide) (wellFormed_paramLines r.version (r.rraDef i))
      (hwrap "cdp_prep".toList (by decide) hcdp (hwrap "database".toList (by decide) hrows (wellFormed_tabs 1 .nil)))
    have hblock := wellFormed_tabs 1 (.block "rra".toList (by decide) (wellFormed_newline (hcf.append (hper.append hblocks)))
      (wellFormed_newline .nil))
    simpa [openTag, closeTag] using hblock
  · have hrow (k : ℕ) : events (rowPieces stamp r (r.dumpTime i (-long ((r.rraDef i).rowCnt - 1) + k))
        (r.cellPos i (r.rowByAge i k) 0)) = .start "row".toList :: rowEvents r (r.cellPos i (r.rowByAge i k) 0) :=
      events_rowPieces stamp r _ _
    have hcdp (d : ℕ) : events (cdpPieces r i d) = .start "ds".toList ::
        (events (cdpLines (r.rraDef i) (r.cdpPrep (r.cdpIdx i d))) ++ [.stop "ds".toList]) := by
      rw [cdpPieces]
      simp [Piece.events, tabs, newline, openTag, closeTag]
    rw [rowsPieces_dump stamp (h.curRow i hi) (rowCnt_lt h hi)]
    simp only [events_append, events_flatMap, hrow, hcdp, events_leafLine]
    simp [notedLine, tabs, newline, openTag, closeTag, Piece.events, rraEvents, cdpEvents, databaseEvents]

theorem mapM_eq_some {α β : Type} {f : α → Option β} {g : α → β} {l : List α} (h : ∀ a ∈ l, f a = some (g a)) :
    l.mapM f = some (l.map g) := by
  induction l with
  | nil => rfl
  | cons a l ih =>
    rw [List.mapM_cons, h a List.mem_cons_self, ih fun b hb => h b (List.mem_cons_of_mem a hb)]
    rfl

theorem wellFormed_rootPieces (hstamp : IsStamp stamp) {ds rras : List (List Piece)} (hds : ∀ l ∈ ds, WellFormed l)
    (hrras : ∀ l ∈ rras, WellFormed l) : WellFormed (rootPieces stamp r ds rras) := by
  have hversion : WellFormed (leafLine 1 "version" (versionText r.version)) :=
    wellFormed_leafLine (by decide) (isWord_versionText _).1
  have hstep : WellFormed
      [tabs 1, .leaf "step".toList (printUlong r.pdpStep), .blank [' '], .comment " Seconds ".toList, newline] :=
    wellFormed_tabs 1 (wellFormed_leaf (by decide) (isText_printUlong _)
      (wellFormed_space (wellFormed_comment ⟨by decide, by decide, by decide⟩ (wellFormed_newline .nil))))
  have hlast : WellFormed
      (notedLine 1 "lastupdate" (Decimal.printInt r.lastUp) (' ' :: (stamp r.lastUp ++ [' ']))) :=
    wellFormed_notedLine (by decide) (isWord_printInt _).1 (ok_comment (hstamp _).1 (hstamp _).2)
  have hcomment : WellFormed [tabs 1, .comment " Round Robin Archives ".toList, newline] :=
    wellFormed_tabs 1 (wellFormed_comment ⟨by decide, by decide, by decide⟩ (wellFormed_newline .nil))
  exact wellFormed_newline ((((((hversion.append hstep).append hlast).append (.flatten hds)).append hcomment).append
    (.flatten hrras)))

/-- Attributes that begin with a blank. -/
theorem attributes_ok {s : Text} (hhead : s.head? = some ' ')
    (hall : s.all (fun c => isTextChar c || CStr.isspace c) = true) :
    (∀ c ∈ s.head?, CStr.isspace c = true) ∧ ∀ c ∈ s, isTextChar c = true ∨ CStr.isspace c = true := by
  rw [hhead]
  refine ⟨fun c hc => ?_, fun c hc => Bool.or_eq_true_iff.mp (List.all_eq_true.mp hall c hc)⟩
  obtain rfl := Option.some.inj hc
  rfl

/-- The declarations, the root and what is in it. -/
theorem document_root {content : List Piece} (hcontent : WellFormed content) (header : ℕ) :
    Document (headerPieces header ++ [.comment " Round Robin Database Dump ".toList, newline] ++
      .start "rrd".toList (rootAttributes header) :: (content ++ [closeTag "rrd", newline])) := by
  have hheader : ∀ p ∈ headerPieces header, ((∃ s, p = .declaration s) ∨ p.IsOuter) ∧ p.Ok := by
    unfold headerPieces
    split
    · simp only [List.forall_mem_cons]
      exact ⟨⟨.inl ⟨_, rfl⟩, .inl (by decide), by decide⟩, ⟨.inr trivial, by simp [newline, Piece.Ok]⟩,
        ⟨.inl ⟨_, rfl⟩, .inr (by decide), by decide⟩, ⟨.inr trivial, by simp [newline, Piece.Ok]⟩, by simp⟩
    · simp only [List.forall_mem_cons]
      exact ⟨⟨.inl ⟨_, rfl⟩, .inl (by decide), by decide⟩, ⟨.inr trivial, by simp [newline, Piece.Ok]⟩, by simp⟩
    · exact fun p hp => absurd hp List.not_mem_nil
  have hattributes : (Piece.start "rrd".toList (rootAttributes header)).Ok := by
    refine ⟨by decide, ?_⟩
    unfold rootAttributes
    split
    · exact attributes_ok (by decide +kernel) (by decide +kernel)
    · exact ⟨by simp, by simp⟩
  have hbefore : ∀ p ∈ [Piece.comment " Round Robin Database Dump ".toList, newline], p.IsOuter ∧ p.Ok := by
    simp only [List.forall_mem_cons]
    exact ⟨⟨trivial, by decide, by decide, by decide⟩, ⟨trivial, by simp [newline, Piece.Ok]⟩, by simp⟩
  refine ⟨⟨_, _, _, _, content, [newline], rfl, fun p hp => (hheader p hp).1, fun p hp => (hbefore p hp).1,
    hcontent.balanced, ?_⟩, ?_, ?_⟩
  · exact fun p hp => by rw [List.mem_singleton.mp hp]; trivial
  · intro s hs
    have hnot := hcontent.balanced.declaration_not_mem s
    unfold headerPieces at hs
    split at hs
    · simp [newline, closeTag, hnot] at hs
      rw [hs]
      rfl
    · simp [newline, closeTag, hnot] at hs
    · simp [newline, closeTag, hnot] at hs
  · refine List.forall_mem_append.mpr ⟨List.forall_mem_append.mpr ⟨fun p hp => (hheader p hp).2,
      fun p hp => (hbefore p hp).2⟩, List.forall_mem_cons.mpr ⟨hattributes, List.forall_mem_append.mpr ⟨hcontent.ok, ?_⟩⟩⟩
    simp only [List.forall_mem_cons]
    exact ⟨(by decide : IsName "rrd".toList), by simp [newline, Piece.Ok], by simp⟩

theorem mapM_congr {α β : Type} {f g : α → Option β} {l : List α} (h : ∀ a ∈ l, f a = g a) : l.mapM f = l.mapM g := by
  induction l with
  | nil => rfl
  | cons a l ih =>
    rw [List.mapM_cons, List.mapM_cons, h a List.mem_cons_self, ih fun b hb => h b (List.mem_cons_of_mem a hb)]

/-- **A dump is a document**, with the events that are read. -/
theorem dumpPieces_document (h : Dumpable r) (hstamp : IsStamp stamp) (header : ℕ) :
    ∃ pieces, dumpPieces stamp header r = some pieces ∧ Document pieces ∧ events pieces = docEvents r := by
  have hds : ∀ d ∈ List.range r.dsCnt, dsPieces r d = some ((dsPieces r d).getD []) := by
    intro d hd
    obtain ⟨pieces, hpieces, -⟩ := events_dsPieces (h.ds d (List.mem_range.mp hd))
    rw [hpieces]
    rfl
  have hrra : ∀ i ∈ List.range r.rraCnt, rraPieces stamp r i = some ((rraPieces stamp r i).getD []) := by
    intro i hi
    obtain ⟨pieces, hpieces, -⟩ := rraPieces_dump h hstamp (List.mem_range.mp hi)
    rw [hpieces]
    rfl
  refine ⟨_, by rw [dumpPieces, mapM_eq_some hds, mapM_eq_some hrra]; rfl, ?_, ?_⟩
  · refine document_root (wellFormed_rootPieces hstamp ?_ ?_) header
    · intro l hl
      obtain ⟨d, hd, rfl⟩ := List.mem_map.mp hl
      exact wellFormed_dsPieces (h.ds d (List.mem_range.mp hd)) (hds d hd)
    · intro l hl
      obtain ⟨i, hi, rfl⟩ := List.mem_map.mp hl
      obtain ⟨pieces, hpieces, hok, -⟩ := rraPieces_dump h hstamp (List.mem_range.mp hi)
      rw [hpieces]
      exact hok
  · have hdsEvents : (List.range r.dsCnt).flatMap (fun d => events ((dsPieces r d).getD [])) =
        (List.range r.dsCnt).flatMap fun d => .start "ds".toList :: dsContent r d := by
      refine List.flatMap_congr fun d hd => ?_
      obtain ⟨pieces, hpieces, hevents⟩ := events_dsPieces (h.ds d (List.mem_range.mp hd))
      rw [hpieces]
      exact hevents
    have hrraEvents : (List.range r.rraCnt).flatMap (fun i => events ((rraPieces stamp r i).getD [])) =
        (List.range r.rraCnt).flatMap fun i => .start "rra".toList :: rraEvents r i := by
      refine List.flatMap_congr fun i hi => ?_
      obtain ⟨pieces, hpieces, -, hevents⟩ := rraPieces_dump h hstamp (List.mem_range.mp hi)
      rw [hpieces]
      exact hevents
    have hheader : events (headerPieces header) = [] := by
      unfold headerPieces
      split <;> rfl
    simp only [events_append, events_cons, rootPieces, hheader, ← List.flatMap_def, events_flatMap, hdsEvents,
      hrraEvents, events_leafLine]
    simp [docEvents, notedLine, tabs, newline, closeTag, Piece.events]

end Restore

end Rrdtool
