import Rrdtool.Restore.ReadDefs

/-!
# Reading the rows of a dump

What `rrd_restore` makes of a whole document: the rows come out of the ring from the oldest one on, and stand behind
those of the RRAs in front.

* `rowsPieces_eq` — the loop over the rows goes through the ring;
* `takes_parseTagRraDatabase`, `takes_parseTagRra` — an RRA is read again;
* `takes_parseFile` — so is the document.
-/

namespace Rrdtool

open Parse Xml

/-! ## The rows of a ring -/

/-- The row of RRA `i` that is `k` rows younger than the oldest one. -/
def Rrd.rowByAge (r : Rrd) (i k : ℕ) : ℕ := (r.curRow i + 1 + k) % (r.rraDef i).rowCnt

/-- The values of RRA `i`, from the oldest row on, as they come back. -/
def Rrd.dumpedRows (r : Rrd) (i p : ℕ) : RrdValue :=
  dumped (r.values (r.cellPos i (r.rowByAge i (p / r.dsCnt)) (p % r.dsCnt)))

/-- **The loop over the rows** goes once around the ring. -/
theorem rowsPieces_eq {stamp : ℤ → Text} {r : Rrd} {i ii : ℕ} (n : ℕ) (timer : ℤ) (hii : ii < (r.rraDef i).rowCnt)
    (hrows : (r.rraDef i).rowCnt < 2 ^ 32) :
    rowsPieces stamp r i n timer ii (r.rraStart i + (ii + 1) * r.dsCnt) = (List.range n).flatMap fun k : ℕ =>
      rowPieces stamp r (r.dumpTime i (timer + k)) (r.cellPos i ((ii + 1 + k) % (r.rraDef i).rowCnt) 0) := by
  induction n generalizing ii timer with
  | zero => rfl
  | succ n ih =>
    -- the row behind the last one is the first one
    have hnext : (ii + 1) % 2 ^ 32 = ii + 1 := Nat.mod_eq_of_lt (by omega)
    have hmod : (if (r.rraDef i).rowCnt ≤ ii + 1 then 0 else ii + 1) = (ii + 1) % (r.rraDef i).rowCnt := by
      split_ifs with hwrap
      · rw [le_antisymm hii hwrap, Nat.mod_self]
      · exact (Nat.mod_eq_of_lt (Nat.lt_of_not_le hwrap)).symm
    have hpos : (if (r.rraDef i).rowCnt ≤ ii + 1 then r.rraStart i else r.rraStart i + (ii + 1) * r.dsCnt) =
        r.cellPos i ((ii + 1) % (r.rraDef i).rowCnt) 0 := by
      rw [← hmod, Rrd.cellPos, Nat.add_zero, Nat.mul_comm r.dsCnt]
      split_ifs
      · rw [Nat.zero_mul, Nat.add_zero]
      · rfl
    have hbehind (row : ℕ) : r.cellPos i row 0 + r.dsCnt = r.rraStart i + (row + 1) * r.dsCnt := by
      rw [Rrd.cellPos, Nat.succ_mul, Nat.mul_comm r.dsCnt, Nat.add_zero, Nat.add_assoc]
    have hage (k : ℕ) : ((ii + 1) % (r.rraDef i).rowCnt + 1 + k) % (r.rraDef i).rowCnt =
        (ii + 1 + (k + 1)) % (r.rraDef i).rowCnt := by
      rw [Nat.add_assoc, Nat.mod_add_mod, Nat.add_comm 1 k]
    have htime (k : ℕ) : timer + 1 + (k : ℤ) = timer + ((k + 1 : ℕ) : ℤ) := by
      rw [Nat.cast_add, Nat.cast_one, Int.add_assoc, Int.add_comm 1]
    rw [List.range_succ_eq_map, List.flatMap_cons, List.flatMap_map, rowsPieces]
    simp only [hnext, decide_eq_true_eq]
    rw [hpos, hmod, hbehind, ih (timer + 1) (Nat.mod_lt _ (Nat.zero_lt_of_lt hii))]
    simp only [hage, htime, Nat.cast_zero, add_zero]

namespace Restore

variable {r : Rrd} {i : ℕ}

/-! ## Rows -/

/-- The loop of `get_xml_text`, on a text. -/
theorem readText_text {r : Reader} {rest : List XmlNode} {value : Text} {k : List Event}
    (h : rest.filterMap XmlNode.event = .text value :: k) :
    ∃ node rest', readText r rest = (some (firstWord value), { r with rest := rest', node := some node }) ∧
      rest'.filterMap XmlNode.event = k ∧ rest'.length < rest.length := by
  induction rest with
  | nil => cases h
  | cons node rest ih =>
    cases node with
    | element n => cases h
    | endElement n => cases h
    | text v =>
      obtain ⟨heq, hk⟩ := List.cons.inj h
      obtain rfl := Event.text.inj heq
      exact ⟨.text v, rest, rfl, hk, Nat.lt_succ_self _⟩
    | other =>
      obtain ⟨node', rest', hread, hk, hlt⟩ := ih h
      exact ⟨node', rest', hread, hk, Nat.lt_succ_of_lt hlt⟩

/-- A word where no end is expected behind it. -/
theorem takes_word {α : Type} {x : Parser Reader α} {w : Text} {a : α} (hw : IsWord w) (hx : Reads x w a) :
    Takes view x [.text w] a := by
  intro r k hgood hleft
  obtain ⟨node, rest', hread, hk, hlt⟩ := readText_text (r := r) hleft
  rw [(firstWord_word hw).1] at hread
  obtain ⟨ws, hws⟩ := hx r _ hread hgood
  exact ⟨_, hws, hk, hgood, hlt.le⟩

/-- A word that is not empty is more than white space. -/
theorem textEvent_word {w : Text} (hw : IsWord w) (hne : w ≠ []) : textEvent w = [.text w] := by
  refine if_neg fun hall => ?_
  obtain ⟨c, hc⟩ := List.exists_mem_of_ne_nil w hne
  have hspace := List.all_eq_true.mp hall c hc
  rw [IsWord.not_isspace hw c hc] at hspace
  cases hspace

theorem printValue_ne_nil (v : RrdValue) : printValue v ≠ [] := by
  cases v with
  | nan => exact List.cons_ne_nil _ _
  | neginf => exact List.cons_ne_nil _ _
  | inf => exact List.cons_ne_nil _ _
  | num q =>
    refine List.ne_nil_of_mem (a := 'e') ?_
    rw [printValue, if_neg (show ¬(Dbl.num q).isnan = true from Bool.false_ne_true), printDouble, Scientific.print]
    simp

/-- The events of a row, behind its start tag. -/
def rowEvents (r : Rrd) (pos : ℕ) : List Event :=
  (List.range r.dsCnt).flatMap (fun d => (Piece.leaf "v".toList (printValue (r.values (pos + d)))).events) ++
    [.stop "row".toList]

theorem events_rowPieces (stamp : ℤ → Text) (r : Rrd) (now : ℤ) (pos : ℕ) :
    events (rowPieces stamp r now pos) = .start "row".toList :: rowEvents r pos := by
  rw [rowPieces, rowEvents]
  simp [events, Piece.events, tabs, newline, openTag, closeTag, List.flatMap_map]

/-- **A row is read again.** -/
theorem takes_parseTagRraRow (pos : ℕ) (h : ∀ d < r.dsCnt, Readable (r.values (pos + d)))
    (s : ℕ × RraEntry × (ℕ → RrdValue)) :
    Takes view (Values.parseTagRraRow r.dsCnt s) (rowEvents r pos)
      ((s.1 + 1) % 2 ^ 32, { s.2.1 with rowCnt := (s.2.1.rowCnt + 1) % 2 ^ 64 },
        Fill.fill s.2.2 (r.dsCnt * s.1) r.dsCnt fun d => dumped (r.values (pos + d))) := by
  have hrow (size : ℕ) (values : ℕ → RrdValue) :
      Takes view (Values.parseTagRraDatabaseRow r.dsCnt (r.dsCnt * s.1) size values)
        ((List.range r.dsCnt).flatMap fun d => (Piece.leaf "v".toList (printValue (r.values (pos + d)))).events)
        (Fill.fill values (r.dsCnt * s.1) r.dsCnt fun d => dumped (r.values (pos + d))) := by
    have hloop := takes_timesFrom (V := view)
      (f := fun j values => bind (expectElement "v".toList) fun _ => bind getXmlDouble fun v =>
        bind (write ⟨.rows, 8 * (r.dsCnt * s.1) + 8 * j, 8, size⟩) fun _ =>
          map (expectElement "/v".toList) fun _ => Function.update values (r.dsCnt * s.1 + j) v)
      (fun j => Fill.fill values (r.dsCnt * s.1) j fun d => dumped (r.values (pos + d)))
      (fun d => (Piece.leaf "v".toList (printValue (r.values (pos + d)))).events) fun d hd => by
      rw [← Fill.update_fill, Piece.events, textEvent_word (isWord_printValue _) (printValue_ne_nil _)]
      have hvalue := takes_word (isWord_printValue _) (reads_getXmlDouble (.inr rfl) (h d hd))
      exact (takes_expectElement (takesItem_start _)).bind (hvalue.bind
        (takes_writing ((takes_expectElement (takesItem_stop _)).map _)))
    rwa [Fill.fill_zero] at hloop
  have hvalues := hrow (8 * (r.dsCnt * ((s.1 + 1) % 2 ^ 32) % 2 ^ 32))
    (Fill.fill s.2.2 (r.dsCnt * s.1) r.dsCnt fun _ => .num 0)
  rw [Fill.fill_fill] at hvalues
  unfold Values.parseTagRraRow
  exact takes_writing (hvalues.bind ((takes_expectElement (takesItem_stop _)).map _))

/-- The events of the rows, behind the start tag of the database. -/
def databaseEvents (r : Rrd) (i : ℕ) : List Event :=
  (List.range (r.rraDef i).rowCnt).flatMap (fun k => .start "row".toList :: rowEvents r (r.cellPos i (r.rowByAge i k) 0)) ++
    [.stop "database".toList]

/-- The values of one row. -/
theorem dumpedRows_row (r : Rrd) (i k : ℕ) {d : ℕ} (hd : d < r.dsCnt) :
    r.dumpedRows i (r.dsCnt * k + d) = dumped (r.values (r.cellPos i (r.rowByAge i k) 0 + d)) := by
  rw [Rrd.dumpedRows, Nat.mul_add_div (Nat.zero_lt_of_lt hd), Nat.mul_add_mod, Nat.div_eq_of_lt hd, Nat.mod_eq_of_lt hd]
  rfl

/-- **The rows of an RRA are read again**, behind those of the RRAs in front. -/
theorem takes_parseTagRraDatabase {before : List RraEntry} {f : RraFile} {total : ℕ}
    (h : ∀ k < (r.rraDef i).rowCnt, ∀ d < r.dsCnt, Readable (r.values (r.cellPos i (r.rowByAge i k) 0 + d)))
    (hbefore : (before.map RraEntry.rowCnt).sum = total) (hrows : total + (r.rraDef i).rowCnt < 2 ^ 32)
    (hfresh : f.rra.rowCnt = 0) :
    Takes view (Values.parseTagRraDatabase r.dsCnt before f) (databaseEvents r i)
      { f with
        rra := { f.rra with rowCnt := (r.rraDef i).rowCnt }
        rrdValue := Fill.fill f.rrdValue (r.dsCnt * total) (r.dsCnt * (r.rraDef i).rowCnt) (r.dumpedRows i) } := by
  have hstart : f.rra = { f.rra with rowCnt := 0 } := by rw [← hfresh]
  -- the state behind `k` rows
  let A (k : ℕ) : ℕ × RraEntry × (ℕ → RrdValue) := (total + k, { f.rra with rowCnt := k },
    Fill.fill f.rrdValue (r.dsCnt * total) (r.dsCnt * k) (r.dumpedRows i))
  have hzero : (((before.map RraEntry.rowCnt).sum % 2 ^ 32, f.rra, f.rrdValue) : ℕ × RraEntry × (ℕ → RrdValue)) = A 0 := by
    rw [hbefore, Nat.mod_eq_of_lt (Nat.lt_of_le_of_lt (Nat.le_add_right _ _) hrows)]
    dsimp only [A]
    rw [Nat.mul_zero, Fill.fill_zero, ← hstart, Nat.add_zero]
  have hstep (k : ℕ) (hk : k < (r.rraDef i).rowCnt) :
      Takes view (map (Values.parseTagRraRow r.dsCnt (A k)) Pass.next) (rowEvents r (r.cellPos i (r.rowByAge i k) 0))
        (Pass.next (A (k + 1))) := by
    have hrow := takes_parseTagRraRow (r.cellPos i (r.rowByAge i k) 0) (h k hk) (A k)
    have hvalues : Fill.fill (A k).2.2 (r.dsCnt * (A k).1) r.dsCnt
        (fun d => dumped (r.values (r.cellPos i (r.rowByAge i k) 0 + d))) =
          Fill.fill f.rrdValue (r.dsCnt * total) (r.dsCnt * (k + 1)) (r.dumpedRows i) := by
      dsimp only [A]
      rw [Nat.mul_succ, ← Fill.fill_add, Nat.mul_add]
      exact Fill.fill_congr fun d hd => (dumpedRows_row r i k hd).symm
    have hcount : (total + k + 1) % 2 ^ 32 = total + (k + 1) ∧ (k + 1) % 2 ^ 64 = k + 1 := by
      constructor
      · exact Nat.mod_eq_of_lt (by omega)
      · exact Nat.mod_eq_of_lt (by omega)
    rw [hvalues] at hrow
    dsimp only [A] at hrow ⊢
    rw [hcount.1, hcount.2] at hrow
    exact hrow.map _
  unfold Values.parseTagRraDatabase databaseEvents
  rw [hzero]
  refine Takes.map (a := A (r.rraDef i).rowCnt) (takes_tags ?_)
    fun s => { f with rra := s.2.1, rrdValue := s.2.2 }
  refine Loops.passes A (fun _ => .start "row".toList) (fun _ => "row".toList)
    (fun k => rowEvents r (r.cellPos i (r.rowByAge i k) 0)) (fun k _ => takesItem_start _) ?_ ?_
  · exact hstep
  · exact Parse.Loops.done (takesItem_stop _) (takes_ret _)

/-! ## Round robin archives -/

section Pass

variable {version : Text} {dsCnt : ℕ} {before : List RraEntry} {f : RraFile}

theorem pass_params (hversion : 2 ≤ CStr.atoi version) :
    Values.parseTagRraPass version dsCnt before "params".toList f =
      map (parseTagRraParams f.rra) fun rra => .next { f with rra := rra } := by
  rw [Values.parseTagRraPass, if_neg (by decide), if_neg (by decide), if_neg fun h => absurd h.2 (by decide),
    if_pos ⟨hversion, isTag_self _⟩]

theorem pass_cdpPrep : Values.parseTagRraPass version dsCnt before "cdp_prep".toList f =
    map (Values.parseTagRraCdpPrep version dsCnt (dsCnt * before.length) f.cdpPrep)
      fun c => .next { f with cdpPrep := c } := by
  rw [Values.parseTagRraPass, if_neg (by decide), if_neg (by decide), if_neg fun h => absurd h.2 (by decide),
    if_neg fun h => absurd h.2 (by decide), if_pos (isTag_self _)]

theorem pass_database : Values.parseTagRraPass version dsCnt before "database".toList f =
    map (Values.parseTagRraDatabase dsCnt before f) .next := by
  rw [Values.parseTagRraPass, if_neg (by decide), if_neg (by decide), if_neg fun h => absurd h.2 (by decide),
    if_neg fun h => absurd h.2 (by decide), if_neg (by decide), if_pos (isTag_self _)]

theorem pass_end : Values.parseTagRraPass version dsCnt before ('/' :: "rra".toList) f = ret (.done f) := by
  rw [Values.parseTagRraPass, if_neg (by decide), if_neg (by decide), if_neg fun h => absurd h.2 (by decide),
    if_neg fun h => absurd h.2 (by decide), if_neg (by decide), if_neg (by decide), if_pos (by decide)]

end Pass

/-- The RRA that is read. -/
def rraEntry (r : Rrd) (i : ℕ) : RraEntry :=
  { RraEntry.zero with
    cfNam := (cfName (r.rraDef i).cf).toList
    pdpCnt := (r.rraDef i).pdpCnt
    rowCnt := (r.rraDef i).rowCnt }.withParams ((r.rraDef i).dumped r.version)

/-- The events of an RRA, behind its start tag. -/
def rraEvents (r : Rrd) (i : ℕ) : List Event :=
  (Piece.leaf "cf".toList (cfName (r.rraDef i).cf).toList).events ++
    ((Piece.leaf "pdp_per_row".toList (printUlong (r.rraDef i).pdpCnt)).events ++
      (.start "params".toList :: (events (paramLines r.version (r.rraDef i)) ++ [.stop "params".toList]) ++
        (.start "cdp_prep".toList :: cdpEvents r i ++
          (.start "database".toList :: databaseEvents r i ++ [.stop "rra".toList]))))

/-- **An RRA is read again.** -/
theorem takes_parseTagRra (random : ℕ) {total : ℕ} {f : RestoredFile} (hversion : 2 ≤ CStr.atoi f.rrd.version)
    (hds : f.rrd.ds.length = r.dsCnt) (hbefore : (f.rrd.rras.map RraEntry.rowCnt).sum = total)
    (hrra : (r.rraDef i).Readable) (hcdp : ∀ d < r.dsCnt, (r.cdpPrep (r.cdpIdx i d)).Readable)
    (hvalues : ∀ k < (r.rraDef i).rowCnt, ∀ d < r.dsCnt, Readable (r.values (r.cellPos i (r.rowByAge i k) 0 + d)))
    (hrows : total + (r.rraDef i).rowCnt < 2 ^ 32) :
    Takes view (Values.parseTagRra random f) (rraEvents r i)
      ⟨{ f.rrd with rras := f.rrd.rras ++ [rraEntry r i] },
        Fill.fill f.cdpPrep (r.dsCnt * f.rrd.rras.length) r.dsCnt
          fun d => (r.cdpPrep (r.cdpIdx i d)).dumped (r.rraDef i),
        Fill.fill f.rrdValue (r.dsCnt * total) (r.dsCnt * (r.rraDef i).rowCnt) (r.dumpedRows i)⟩ := by
  -- the entry, with its number of rows still to come
  let e : RraEntry := { RraEntry.zero with
    cfNam := (cfName (r.rraDef i).cf).toList
    pdpCnt := (r.rraDef i).pdpCnt }.withParams ((r.rraDef i).dumped r.version)
  have hcf : (cfName (r.rraDef i).cf).toList.take dsNamSize = (cfName (r.rraDef i).cf).toList := by
    cases (r.rraDef i).cf <;> rfl
  have hreadCf (rra : RraEntry) : Reads (parseTagRraCf rra) (cfName (r.rraDef i).cf).toList
      { rra with cfNam := (cfName (r.rraDef i).cf).toList } := by
    refine (reads_getXmlString dsNamSize _).bind fun t _ => ⟨t.writes, ?_⟩
    rw [hcf, cfConv_cfName, if_neg (by simp)]
    rfl
  unfold Values.parseTagRra
  rw [hds]
  refine takes_writing ?_
  let cleared : ℕ → CdpPrep := Fill.fill f.cdpPrep (r.dsCnt * f.rrd.rras.length) r.dsCnt fun _ => zeroCdp
  have hparams : Takes view (Values.parseTagRraPass f.rrd.version r.dsCnt f.rrd.rras "params".toList
      ⟨{ RraEntry.zero with
        cfNam := (cfName (r.rraDef i).cf).toList, pdpCnt := (r.rraDef i).pdpCnt }, cleared, f.rrdValue⟩)
      (events (paramLines r.version (r.rraDef i)) ++ [.stop "params".toList]) (.next ⟨e, cleared, f.rrdValue⟩) := by
    rw [pass_params hversion]
    exact (takes_parseTagRraParams hrra r.version 0 (r.rraDef i).pdpCnt 0 _).map _
  have hprep : Takes view (Values.parseTagRraPass f.rrd.version r.dsCnt f.rrd.rras "cdp_prep".toList
      ⟨e, cleared, f.rrdValue⟩) (cdpEvents r i)
      (.next ⟨e, Fill.fill f.cdpPrep (r.dsCnt * f.rrd.rras.length) r.dsCnt
        fun d => (r.cdpPrep (r.cdpIdx i d)).dumped (r.rraDef i), f.rrdValue⟩) := by
    have hcdps := takes_parseTagRraCdpPrep hcdp f.rrd.version (r.dsCnt * f.rrd.rras.length) cleared
    rw [Fill.fill_fill] at hcdps
    rw [pass_cdpPrep]
    exact hcdps.map _
  have hdatabase (cdpPrep : ℕ → CdpPrep) : Takes view (Values.parseTagRraPass f.rrd.version r.dsCnt f.rrd.rras
      "database".toList ⟨e, cdpPrep, f.rrdValue⟩) (databaseEvents r i) (.next ⟨rraEntry r i, cdpPrep,
        Fill.fill f.rrdValue (r.dsCnt * total) (r.dsCnt * (r.rraDef i).rowCnt) (r.dumpedRows i)⟩) := by
    rw [pass_database]
    exact (takes_parseTagRraDatabase (f := ⟨e, cdpPrep, f.rrdValue⟩) hvalues hbefore hrows rfl).map _
  have htags : Takes view (tags
      (fun g => if g.rra.rowCnt = 0 then fail else ret { g with rra := { g.rra with curRow := random % g.rra.rowCnt } })
      (Values.parseTagRraPass f.rrd.version r.dsCnt f.rrd.rras) ⟨RraEntry.zero, cleared, f.rrdValue⟩) (rraEvents r i)
      ⟨rraEntry r i,
        Fill.fill f.cdpPrep (r.dsCnt * f.rrd.rras.length) r.dsCnt
          fun d => (r.cdpPrep (r.cdpIdx i d)).dumped (r.rraDef i),
        Fill.fill f.rrdValue (r.dsCnt * total) (r.dsCnt * (r.rraDef i).rowCnt) (r.dumpedRows i)⟩ := by
    refine takes_tags ?_
    unfold rraEvents
    refine Loops.word (isWord_cfName _) rfl ((hreadCf _).map _) ?_
    refine Loops.word (isWord_printNat _) rfl ((reads_printUlong hrra.pdpCnt).map _) ?_
    refine Parse.Loops.next (takesItem_start _) hparams ?_
    refine Parse.Loops.next (takesItem_start _) hprep ?_
    refine Parse.Loops.next (takesItem_start _) (hdatabase _) ?_
    refine Parse.Loops.done (takesItem_stop _) ?_
    rw [pass_end]
    exact takes_ret _
  exact htags.map _

end Restore

/-! ## The document -/

/-- The rows of the first `n` RRAs. -/
def Rrd.rowSum (r : Rrd) (n : ℕ) : ℕ := ((List.range n).map fun i => (r.rraDef i).rowCnt).sum

theorem Rrd.rowSum_succ (r : Rrd) (n : ℕ) : r.rowSum (n + 1) = r.rowSum n + (r.rraDef n).rowCnt := by
  simp [Rrd.rowSum, List.range_succ]

theorem Rrd.rowSum_mono (r : Rrd) {m n : ℕ} (h : m ≤ n) : r.rowSum m ≤ r.rowSum n := by
  induction h with
  | refl => exact le_rfl
  | step _ ih =>
    rw [Rrd.rowSum_succ]
    exact ih.trans (Nat.le_add_right _ _)

theorem Rrd.rraStart_eq_rowSum (r : Rrd) (n : ℕ) : r.rraStart n = r.dsCnt * r.rowSum n := by
  induction n with
  | zero => rfl
  | succ n ih => rw [Rrd.rraStart_succ, Rrd.rowSum_succ, ih, Nat.mul_add, Nat.mul_comm (r.rraDef n).rowCnt]

/-- **A file that a dump keeps.** Its numbers fit and come back, no row is without a length, the row pointers are in
their rings, and there are no more rows and values than an `unsigned int` counts. -/
structure Dumpable (r : Rrd) : Prop where
  pdpStep : r.pdpStep < 2 ^ 64
  lastUp : r.lastUp < 2 ^ 63
  ds : ∀ d < r.dsCnt, ReadableDs r d
  rra : ∀ i < r.rraCnt, (r.rraDef i).Readable
  rowSecs : ∀ i < r.rraCnt, r.rowSecsU i ≠ 0
  curRow : ∀ i < r.rraCnt, r.curRow i < (r.rraDef i).rowCnt
  cdp : ∀ i < r.rraCnt, ∀ d < r.dsCnt, (r.cdpPrep (r.cdpIdx i d)).Readable
  values : ∀ p < r.wantedCnt, Readable (r.values p)
  rows_lt : r.rowSum r.rraCnt < 2 ^ 32
  wantedCnt_lt : r.wantedCnt < 2 ^ 32

/-- `cdp_prep`, as it comes back. -/
def Rrd.dumpedCdp (r : Rrd) (p : ℕ) : CdpPrep := (r.cdpPrep p).dumped (r.rraDef (p / r.dsCnt))

/-- The rows of the first `n` RRAs, each from its oldest row on, as they come back. -/
def Rrd.dumpedValues (r : Rrd) : ℕ → ℕ → RrdValue
  | 0 => fun _ => .num 0
  | n + 1 => Fill.fill (r.dumpedValues n) (r.rraStart n) (r.dsCnt * (r.rraDef n).rowCnt) (r.dumpedRows n)

/-- A value of an RRA. -/
theorem Rrd.dumpedValues_get (r : Rrd) {i n p : ℕ} (hi : i < n) (hp : p < r.dsCnt * (r.rraDef i).rowCnt) :
    r.dumpedValues n (r.rraStart i + p) = r.dumpedRows i p := by
  induction n with
  | zero => exact absurd hi (Nat.not_lt_zero i)
  | succ n ih =>
    rw [Rrd.dumpedValues]
    rcases Nat.lt_succ_iff_lt_or_eq.mp hi with hlt | rfl
    · have hbefore : r.rraStart i + p < r.rraStart n := by
        refine Nat.lt_of_lt_of_le ?_ (r.rraStart_mono hlt)
        rw [Rrd.rraStart_succ, Nat.mul_comm (r.rraDef i).rowCnt]
        exact Nat.add_lt_add_left hp _
      rw [Fill.fill_of_lt hbefore, ih hlt]
    · exact Fill.fill_get hp

namespace Restore

/-- What has been read, with `n` data sources and `m` RRAs. -/
def restored (r : Rrd) (n m : ℕ) : RestoredFile where
  rrd := ⟨versionText r.version, r.pdpStep, r.lastUp, (List.range n).map (dsEntry r), (List.range m).map (rraEntry r)⟩
  cdpPrep := Fill.fill (fun _ => zeroCdp) 0 (r.dsCnt * m) r.dumpedCdp
  rrdValue := r.dumpedValues m

/-- The events of the document. -/
def docEvents (r : Rrd) : List Event :=
  .start "rrd".toList :: ((Piece.leaf "version".toList (versionText r.version)).events ++
    ((Piece.leaf "step".toList (printUlong r.pdpStep)).events ++
      ((Piece.leaf "lastupdate".toList (Decimal.printInt r.lastUp)).events ++
        ((List.range r.dsCnt).flatMap (fun d => .start "ds".toList :: dsContent r d) ++
          ((List.range r.rraCnt).flatMap (fun i => .start "rra".toList :: rraEvents r i) ++ [.stop "rrd".toList])))))

theorem isWord_versionText (version : ℕ) : IsWord (versionText version) := by
  rw [versionText]
  split_ifs
  · exact ⟨by decide, by decide⟩
  · exact ⟨by decide, by decide⟩

theorem atoi_versionText (version : ℕ) : CStr.atoi (versionText version) = if version ≤ 3 then 3 else 4 := by
  rw [versionText]
  split_ifs
  · decide
  · decide

/-- One more DS. -/
theorem takes_restoredDs (h : Dumpable r) {d : ℕ} (hd : d < r.dsCnt) :
    Takes view (map (parseTagDs (restored r d 0).rrd) fun rrd => Pass.next { restored r d 0 with rrd := rrd })
      (dsContent r d) (Pass.next (restored r (d + 1) 0)) := by
  have hnames : (restored r d 0).rrd.ds.map DsEntry.name = (List.range d).map fun j => (r.dsDef j).dsNam := by
    rw [restored, List.map_map]
    refine List.map_congr_left fun j hj => ?_
    exact if_pos (h.ds j ((List.mem_range.mp hj).trans hd)).name_length
  have hnext : restored r (d + 1) 0 = { restored r d 0 with
      rrd := { (restored r d 0).rrd with ds := (restored r d 0).rrd.ds ++ [dsEntry r d] } } := by
    simp [restored, List.range_succ]
  rw [hnext]
  exact (takes_parseTagDs (h.ds d hd) rfl hnames).map _

/-- One more RRA. -/
theorem takes_restoredRra (h : Dumpable r) (random : ℕ) (hi : i < r.rraCnt) :
    Takes view (map (Values.parseTagRra random (restored r r.dsCnt i)) Pass.next) (rraEvents r i)
      (Pass.next (restored r r.dsCnt (i + 1))) := by
  have hversion : 2 ≤ CStr.atoi (restored r r.dsCnt i).rrd.version := by
    rw [restored, atoi_versionText]
    split_ifs
    · decide
    · decide
  have hds : (restored r r.dsCnt i).rrd.ds.length = r.dsCnt := by simp [restored]
  have hrras : (restored r r.dsCnt i).rrd.rras.length = i := by simp [restored]
  have hbefore : ((restored r r.dsCnt i).rrd.rras.map RraEntry.rowCnt).sum = r.rowSum i := by
    rw [restored, List.map_map]
    rfl
  have hrows : r.rowSum i + (r.rraDef i).rowCnt < 2 ^ 32 := by
    rw [← Rrd.rowSum_succ]
    exact (r.rowSum_mono hi).trans_lt h.rows_lt
  have hvalues : ∀ k < (r.rraDef i).rowCnt, ∀ d < r.dsCnt, Readable (r.values (r.cellPos i (r.rowByAge i k) 0 + d)) := by
    intro k _ d hd
    have hcell := (Rrd.cellPos_mem hd (Nat.mod_lt (r.curRow i + 1 + k) (h.rra i hi).rowCnt)).2
    exact h.values _ (hcell.trans_le (r.rraStart_mono hi))
  have hrra := takes_parseTagRra random hversion hds hbefore (h.rra i hi) (h.cdp i hi) hvalues hrows
  have hcdp : Fill.fill (restored r r.dsCnt i).cdpPrep (r.dsCnt * i) r.dsCnt
      (fun d => (r.cdpPrep (r.cdpIdx i d)).dumped (r.rraDef i)) = (restored r r.dsCnt (i + 1)).cdpPrep := by
    have hadd := Fill.fill_add (fun _ => zeroCdp) 0 (r.dsCnt * i) r.dsCnt r.dumpedCdp
    rw [Nat.zero_add] at hadd
    dsimp only [restored]
    rw [Nat.mul_succ, ← hadd]
    refine Fill.fill_congr fun d hd => ?_
    rw [Rrd.dumpedCdp, Nat.mul_add_div (Nat.zero_lt_of_lt hd), Nat.div_eq_of_lt hd, Nat.add_zero, Rrd.cdpIdx,
      Nat.mul_comm i]
  have hnext : restored r r.dsCnt (i + 1) = ⟨{ (restored r r.dsCnt i).rrd with
      rras := (restored r r.dsCnt i).rrd.rras ++ [rraEntry r i] }, (restored r r.dsCnt (i + 1)).cdpPrep,
      Fill.fill (restored r r.dsCnt i).rrdValue (r.rraStart i) (r.dsCnt * (r.rraDef i).rowCnt) (r.dumpedRows i)⟩ := by
    simp [restored, List.range_succ, Rrd.dumpedValues]
  rw [hrras, hcdp, ← Rrd.rraStart_eq_rowSum, ← hnext] at hrra
  exact hrra.map _

/-- **The document is read again.** -/
theorem takes_parseFile (h : Dumpable r) (random : ℕ) :
    Takes view (Values.parseFile random) (docEvents r) (restored r r.dsCnt r.rraCnt) := by
  have hversion : (versionText r.version).take 5 = versionText r.version := by
    rw [versionText]
    split_ifs
    · rfl
    · rfl
  have hloop : Loops view getXmlElement ret (Values.parseTagRrdPass random)
      ⟨⟨[], 0, 0, [], []⟩, fun _ => zeroCdp, fun _ => .num 0⟩ (docEvents r).tail (restored r r.dsCnt r.rraCnt) := by
    refine Loops.word (isWord_versionText _) rfl ((reads_getXmlString 5 _).map _) ?_
    refine Loops.word (isWord_printNat _) rfl ((reads_printUlong h.pdpStep).map _) ?_
    refine Loops.word (isWord_printInt _) rfl ((reads_getXmlTimeT (Decimal.strtoll_printInt ?_ ?_)).map _) ?_
    · exact le_trans (by decide) (Int.natCast_nonneg r.lastUp)
    · exact_mod_cast h.lastUp
    have hstart : restored r 0 0 = ⟨⟨(versionText r.version).take 5, r.pdpStep, r.lastUp, [], []⟩,
        fun _ => zeroCdp, fun _ => .num 0⟩ := by
      rw [hversion, restored, Nat.mul_zero, Fill.fill_zero]
      rfl
    rw [← hstart]
    refine Loops.passes (fun d => restored r d 0) (fun _ => .start "ds".toList) (fun _ => "ds".toList) (dsContent r)
      (fun _ _ => takesItem_start _) ?_ ?_
    · exact fun d hd => takes_restoredDs h hd
    refine Loops.passes (fun i => restored r r.dsCnt i) (fun _ => .start "rra".toList) (fun _ => "rra".toList)
      (rraEvents r) (fun _ _ => takesItem_start _) ?_ ?_
    · exact fun i hi => takes_restoredRra h random hi
    exact Parse.Loops.done (takesItem_stop _) (takes_ret _)
  exact (takes_expectElement (takesItem_start _)).bind (takes_tags hloop)

end Restore

end Rrdtool
