import Rrdtool.Restore.ReadBack

/-!
# Reading the definitions of a dump

What `rrd_restore` makes of the data sources, the parameters of an RRA and its `cdp_prep`, as `rrd_dump` has written
them.

* `ReadableDs`, `RraDef.Readable`, `CdpPrep.Readable` — what a dump keeps;
* `takes_parseTagDs`, `takes_parseTagRraParams`, `takes_parseTagRraCdpPrep` — it is read again.
-/

namespace Rrdtool

open Parse Xml

/-! ## What is in the document -/

/-- The expression of a `COMPUTE` DS. -/
def Rrd.cdefText (r : Rrd) (d : ℕ) : Text := ((rpnCompact2str r.dsDefs (r.dsDef d).cdef).map PrintSt.str).getD []

/-- `par` of a DS, as it comes back. -/
def DsPar.dumped : DsPar → DsPar
  | .generic mrhb lo hi => .generic mrhb (Rrdtool.dumped lo) (Rrdtool.dumped hi)
  | .cdef prog => .cdef prog

/-- A DS, as it comes back. -/
def DsDef.dumped (d : DsDef) : DsDef := { d with par := d.par.dumped }

/-- `pdp_prep` of a DS, as it comes back. -/
def PdpPrep.dumped (p : PdpPrep) : PdpPrep := { p with pdpVal := Rrdtool.dumped p.pdpVal }

/-- The definition of an RRA, as it comes back: the parameters that its consolidation function has. -/
def RraDef.dumped (version : ℕ) (rra : RraDef) : RraDef :=
  let plain : RraDef := ⟨rra.cf, rra.rowCnt, rra.pdpCnt, .num 0, .num 0, .num 0, 0, 0, 0⟩
  match rra.cf with
  | .hwpredict | .mhwpredict =>
    { plain with
      hwAlpha := Rrdtool.dumped rra.hwAlpha
      hwBeta := Rrdtool.dumped rra.hwBeta
      dependentRraIdx := rra.dependentRraIdx }
  | .seasonal | .devseasonal =>
    { plain with
      hwAlpha := Rrdtool.dumped rra.seasonalGamma
      hwBeta := if 4 ≤ version then Rrdtool.dumped rra.smoothingWindow else .num 0
      dependentRraIdx := rra.dependentRraIdx
      seasonalSmoothIdx := rra.seasonalSmoothIdx }
  | .failures =>
    { plain with
      hwAlpha := Rrdtool.dumped rra.deltaPos
      hwBeta := Rrdtool.dumped rra.deltaNeg
      dependentRraIdx := rra.dependentRraIdx
      seasonalSmoothIdx := rra.windowLen
      failureThreshold := rra.failureThreshold }
  | .devpredict => { plain with dependentRraIdx := rra.dependentRraIdx }
  | _ => { plain with xffVal := Rrdtool.dumped rra.xffVal }

/-- `cdp_prep` of an RRA and a DS, as it comes back: what the consolidation function uses. -/
def CdpPrep.dumped (rra : RraDef) (c : CdpPrep) : CdpPrep :=
  let plain : CdpPrep := { Restore.zeroCdp with
    primaryVal := Rrdtool.dumped c.primaryVal
    secondaryVal := Rrdtool.dumped c.secondaryVal }
  match rra.cf with
  | .hwpredict | .mhwpredict =>
    { plain with
      hwIntercept := Rrdtool.dumped c.hwIntercept
      hwLastIntercept := Rrdtool.dumped c.hwLastIntercept
      hwSlope := Rrdtool.dumped c.hwSlope
      hwLastSlope := Rrdtool.dumped c.hwLastSlope
      nullCount := c.nullCount
      lastNullCount := c.lastNullCount }
  | .seasonal | .devseasonal =>
    { plain with
      hwIntercept := Rrdtool.dumped c.hwSeasonal
      hwLastIntercept := Rrdtool.dumped c.hwLastSeasonal
      nullCount := c.initSeasonal }
  | .devpredict => plain
  | .failures => { plain with violations := fun i => i < rra.windowLen && c.violations i }
  | _ => { plain with cdpVal := Rrdtool.dumped c.cdpVal, unknPdpCnt := c.unknPdpCnt }

/-! ## What a dump keeps -/

/-- **A DS that a dump keeps.** Its strings are words, of a length that there is room for, its numbers come back, and
the expression of a `COMPUTE` DS is read as its program again, with the data sources up to its own. -/
structure ReadableDs (r : Rrd) (d : ℕ) : Prop where
  name : IsWord (r.dsDef d).dsNam
  name_length : (r.dsDef d).dsNam.length < Restore.dsNamSize
  limits : (r.dsDef d).dst ≠ .cdef →
    ∃ n lo hi, (r.dsDef d).par = .generic n lo hi ∧ n < 2 ^ 64 ∧ Readable lo ∧ Readable hi
  cdef : (r.dsDef d).dst = .cdef → ∃ prog s, (r.dsDef d).par = .cdef prog ∧ rpnCompact2str r.dsDefs prog = some s ∧
    IsWord s.str ∧
    parseCdefDs (Restore.lookupName ((List.range (d + 1)).map fun j => (r.dsDef j).dsNam)) s.str = .ok prog
  lastDs : IsWord (r.pdpPrep d).lastDs
  lastDs_length : (r.pdpPrep d).lastDs.length < lastDsLen
  pdpVal : Readable (r.pdpPrep d).pdpVal
  unknSecCnt : (r.pdpPrep d).unknSecCnt < 2 ^ 64

/-- The definition of an RRA of which the numbers come back. -/
structure RraDef.Readable (rra : RraDef) : Prop where
  rowCnt : 0 < rra.rowCnt
  pdpCnt : rra.pdpCnt < 2 ^ 64
  xffVal : Rrdtool.Readable rra.xffVal
  hwAlpha : Rrdtool.Readable rra.hwAlpha
  hwBeta : Rrdtool.Readable rra.hwBeta
  dependentRraIdx : rra.dependentRraIdx < 2 ^ 64
  seasonalSmoothIdx : rra.seasonalSmoothIdx < 2 ^ 64
  failureThreshold : rra.failureThreshold < 2 ^ 64
  windowLen : rra.cf = .failures → rra.windowLen ≤ maxFailuresWindowLen

/-- A `cdp_prep` of which the numbers come back. -/
structure CdpPrep.Readable (c : CdpPrep) : Prop where
  cdpVal : Rrdtool.Readable c.cdpVal
  unknPdpCnt : c.unknPdpCnt < 2 ^ 64
  hwIntercept : Rrdtool.Readable c.hwIntercept
  hwLastIntercept : Rrdtool.Readable c.hwLastIntercept
  hwSlope : Rrdtool.Readable c.hwSlope
  hwLastSlope : Rrdtool.Readable c.hwLastSlope
  nullCount : c.nullCount < 2 ^ 64
  lastNullCount : c.lastNullCount < 2 ^ 64
  primaryVal : Rrdtool.Readable c.primaryVal
  secondaryVal : Rrdtool.Readable c.secondaryVal

namespace Restore

/-! ## Data sources -/

@[simp] theorem events_leafLine (n : ℕ) (name : String) (value : Text) :
    events (leafLine n name value) = (Piece.leaf name.toList value).events := by
  simp [leafLine, tabs, newline, Piece.events]

/-- The DS that is read. -/
def dsEntry (r : Rrd) (d : ℕ) : DsEntry where
  dsNam := (r.dsDef d).dsNam
  dst := (dstName (r.dsDef d).dst).toList
  par :=
    if (r.dsDef d).dst = .cdef then [.cdef (r.dsDef d).dsNam (r.cdefText d) (r.dsDef d).cdef]
    else [.max (dumped (r.dsDef d).maxVal), .min (dumped (r.dsDef d).minVal), .mrhb (r.dsDef d).mrhbCnt]
  lastDs := (r.pdpPrep d).lastDs
  pdpVal := dumped (r.pdpPrep d).pdpVal
  unknSecCnt := (r.pdpPrep d).unknSecCnt

/-- The events of the lines that depend on the type. -/
def dsEvents (r : Rrd) (d : ℕ) : List Event :=
  if (r.dsDef d).dst = .cdef then (Piece.leaf "cdef".toList (' ' :: (r.cdefText d ++ [' ']))).events
  else (Piece.leaf "minimal_heartbeat".toList (printUlong (r.dsDef d).mrhbCnt)).events ++
    ((Piece.leaf "min".toList (printValue (r.dsDef d).minVal)).events ++
      (Piece.leaf "max".toList (printValue (r.dsDef d).maxVal)).events)

/-- The events of a DS behind its start tag. -/
def dsContent (r : Rrd) (d : ℕ) : List Event :=
  (Piece.leaf "name".toList (' ' :: ((r.dsDef d).dsNam ++ [' ']))).events ++
    ((Piece.leaf "type".toList (' ' :: ((dstName (r.dsDef d).dst).toList ++ [' ']))).events ++ (dsEvents r d ++
      ((Piece.leaf "last_ds".toList (r.pdpPrep d).lastDs).events ++
        ((Piece.leaf "value".toList (printValue (r.pdpPrep d).pdpVal)).events ++
          ((Piece.leaf "unknown_sec".toList (' ' :: (printUlong (r.pdpPrep d).unknSecCnt ++ [' ']))).events ++
            [.stop "ds".toList])))))

variable {r : Rrd} {d : ℕ}

theorem dstConv_dstName (t : Dst) : dstConv (dstName t).toList = some t := by cases t <;> decide

theorem isWord_dstName (t : Dst) : IsWord (dstName t).toList := by
  cases t <;> exact ⟨by decide, by decide⟩

/-- The pieces of a DS are there, and these are their events. -/
theorem events_dsPieces (h : ReadableDs r d) :
    ∃ pieces, dsPieces r d = some pieces ∧ events pieces = .start "ds".toList :: dsContent r d := by
  have hlines : ∃ lines, dsLines r d = some lines ∧ events lines = dsEvents r d := by
    rw [dsLines, dsEvents]
    split_ifs with hdst
    · obtain ⟨prog, s, hpar, hs, -⟩ := h.cdef hdst
      have hprog : (r.dsDef d).cdef = prog := by rw [DsDef.cdef, hpar]
      refine ⟨_, by rw [hprog, hs, Option.map_some], ?_⟩
      rw [events_leafLine, Rrd.cdefText, hprog, hs]
      rfl
    · exact ⟨_, rfl, by simp only [events_append, events_leafLine, List.append_assoc]⟩
  obtain ⟨lines, hlines, hevents⟩ := hlines
  refine ⟨_, by rw [dsPieces, hlines, Option.map_some], ?_⟩
  simp only [events_append, events_leafLine, hevents, dsContent]
  simp [events, Piece.events, tabs, newline, openTag, closeTag]

/-- The tags behind the lines that depend on the type. -/
theorem loops_dsTail (h : ReadableDs r d) (names : List Text) (e : DsEntry) :
    Loops view getXmlElement ret (fun element d => if isTag element "/ds".toList then ret (.done d)
        else closing element (parseTagDsField names element d)) e
      ((Piece.leaf "last_ds".toList (r.pdpPrep d).lastDs).events ++
        ((Piece.leaf "value".toList (printValue (r.pdpPrep d).pdpVal)).events ++
        ((Piece.leaf "unknown_sec".toList (' ' :: (printUlong (r.pdpPrep d).unknSecCnt ++ [' ']))).events ++
          [.stop "ds".toList])))
      { e with
        lastDs := (r.pdpPrep d).lastDs
        pdpVal := dumped (r.pdpPrep d).pdpVal
        unknSecCnt := (r.pdpPrep d).unknSecCnt } := by
  have hlast : (r.pdpPrep d).lastDs.take lastDsLen = (r.pdpPrep d).lastDs := List.take_of_length_le h.lastDs_length.le
  refine Loops.word h.lastDs rfl ((reads_getXmlString _ _).map _) ?_
  refine Loops.word (isWord_printValue _) rfl ((reads_getXmlDouble (.inr rfl) h.pdpVal).map _) ?_
  refine Loops.spaced (isWord_printNat _) rfl ((reads_printUlong h.unknSecCnt).map _) ?_
  rw [hlast]
  exact Parse.Loops.done (takesItem_stop _) (takes_ret _)

/-- **A DS is read again.** -/
theorem takes_parseTagDs (h : ReadableDs r d) {rrd : RestoredRrd} (hrras : rrd.rras = [])
    (hnames : rrd.ds.map DsEntry.name = (List.range d).map fun j => (r.dsDef j).dsNam) :
    Takes view (parseTagDs rrd) (dsContent r d) { rrd with ds := rrd.ds ++ [dsEntry r d] } := by
  have hname : (r.dsDef d).dsNam.take dsNamSize = (r.dsDef d).dsNam := List.take_of_length_le h.name_length.le
  have htype : (dstName (r.dsDef d).dst).toList.take (dsNamSize - 1) = (dstName (r.dsDef d).dst).toList := by
    cases (r.dsDef d).dst <;> rfl
  rw [parseTagDs, if_neg (not_not.mpr hrras)]
  refine Takes.map (takes_tags ?_) fun e => { rrd with ds := rrd.ds ++ [e] }
  refine Loops.spaced h.name rfl ((reads_getXmlString _ _).map _) ?_
  rw [hname]
  -- the type is one of those that are known
  have hreadType (e : DsEntry) : Reads (parseTagDsType e) (dstName (r.dsDef d).dst).toList
      { e with dst := (dstName (r.dsDef d).dst).toList } := by
    refine (reads_getXmlText _).bind fun t _ => ⟨t.writes, ?_⟩
    rw [dstConv_dstName]
    dsimp only
    rw [htype]
    rfl
  refine Loops.spaced (isWord_dstName _) rfl (hreadType _) ?_
  rw [dsEvents]
  split_ifs with hdst
  · obtain ⟨prog, s, hpar, hs, hword, hparse⟩ := h.cdef hdst
    have hprog : (r.dsDef d).cdef = prog := by rw [DsDef.cdef, hpar]
    have htext : r.cdefText d = s.str := by rw [Rrd.cdefText, hprog, hs]; rfl
    have hown (e : DsEntry) (he : e.dsNam = (r.dsDef d).dsNam) : e.name = (r.dsDef d).dsNam := by
      rw [DsEntry.name, he, if_pos h.name_length]
    have hreadCdef (e : DsEntry) (he : e.dsNam = (r.dsDef d).dsNam) :
        Reads (parseTagDsCdef (rrd.ds.map DsEntry.name) e) s.str
          { e with par := .cdef (r.dsDef d).dsNam s.str prog :: e.par } := by
      refine (reads_getXmlText _).bind fun t ht => ⟨⟨.dsPar, 0, 4 * (prog.length + 1), univals⟩ :: t.writes, ?_⟩
      have hlookup : rrd.ds.map DsEntry.name ++ [e.name] = (List.range (d + 1)).map fun j => (r.dsDef j).dsNam := by
        rw [hown e he, hnames, List.range_succ, List.map_append]
        rfl
      rw [hlookup, hparse]
      dsimp only [Parse.bind, write]
      rw [if_pos ht, hown e he]
    rw [htext]
    refine Loops.spaced hword rfl (hreadCdef _ rfl) ?_
    have htail := loops_dsTail h (rrd.ds.map DsEntry.name)
      { DsEntry.zero with
        dsNam := (r.dsDef d).dsNam
        dst := (dstName (r.dsDef d).dst).toList
        par := [.cdef (r.dsDef d).dsNam s.str prog] }
    rw [dsEntry, if_pos hdst, htext, hprog]
    exact htail
  · obtain ⟨n, lo, hi, hpar, hn, hlo, hhi⟩ := h.limits hdst
    have hmrhb : (r.dsDef d).mrhbCnt = n := by rw [DsDef.mrhbCnt, hpar]
    have hmin : (r.dsDef d).minVal = lo := by rw [DsDef.minVal, hpar]
    have hmax : (r.dsDef d).maxVal = hi := by rw [DsDef.maxVal, hpar]
    rw [dsEntry, if_neg hdst, hmrhb, hmin, hmax, List.append_assoc, List.append_assoc]
    refine Loops.word (isWord_printNat _) rfl ((reads_printUlong hn).store _ _) ?_
    refine Loops.word (isWord_printValue _) rfl ((reads_getXmlDouble (.inr rfl) hlo).store _ _) ?_
    refine Loops.word (isWord_printValue _) rfl ((reads_getXmlDouble (.inr rfl) hhi).store _ _) ?_
    exact loops_dsTail h (rrd.ds.map DsEntry.name) _

/-! ## Definitions of RRAs -/

theorem cfConv_cfName (cf : Cf) : cfConv (cfName cf).toList = some cf := by cases cf <;> decide

theorem isWord_cfName (cf : Cf) : IsWord (cfName cf).toList := by
  cases cf <;> exact ⟨by decide, by decide⟩

/-- An RRA with the parameters of a definition. -/
def RraEntry.withParams (e : RraEntry) (p : RraDef) : RraEntry :=
  { e with
    xffVal := p.xffVal
    hwAlpha := p.hwAlpha
    hwBeta := p.hwBeta
    dependentRraIdx := p.dependentRraIdx
    seasonalSmoothIdx := p.seasonalSmoothIdx
    failureThreshold := p.failureThreshold }

theorem reads_parUlong {i n : ℕ} (hi : i = 3 ∨ i = 4 ∨ i = 5) (hn : n < 2 ^ 64) (e : RraEntry) :
    Reads (readPar i e) (printUlong n) (e.setPar i n (.num 0)) := by
  rw [readPar, if_pos hi]
  exact (reads_printUlong hn).store _ _

theorem reads_parDouble {i : ℕ} {v : RrdValue} (hi : ¬(i = 3 ∨ i = 4 ∨ i = 5)) (hv : Readable v) (e : RraEntry) :
    Reads (readPar i e) (printDouble v) (e.setPar i 0 (dumped v)) := by
  rw [readPar, if_neg hi]
  exact (reads_getXmlDouble (.inl rfl) hv).store _ _

/-- **The parameters of an RRA are read again.** -/
theorem takes_parseTagRraParams {rra : RraDef} (h : rra.Readable) (version rowCnt pdpCnt curRow : ℕ) (cfNam : Text) :
    Takes view (parseTagRraParams { RraEntry.zero with
        cfNam := cfNam, rowCnt := rowCnt, pdpCnt := pdpCnt, curRow := curRow })
      (events (paramLines version rra) ++ [.stop "params".toList])
      ({ RraEntry.zero with
        cfNam := cfNam, rowCnt := rowCnt, pdpCnt := pdpCnt, curRow := curRow }.withParams (rra.dumped version)) := by
  have hno : ¬(1 = 3 ∨ 1 = 4 ∨ 1 = 5) ∧ ¬(2 = 3 ∨ 2 = 4 ∨ 2 = 5) ∧ ¬(0 = 3 ∨ 0 = 4 ∨ 0 = 5) := by decide
  have hdependent := h.dependentRraIdx
  refine Takes.map (a := (true, _)) (takes_tags ?_) Prod.snd
  unfold paramLines RraDef.dumped
  cases rra.cf with
  | hwpredict | mhwpredict =>
    simp only [events_append, events_leafLine, List.append_assoc]
    refine Loops.word (isWord_printDouble _) rfl ((reads_parDouble hno.1 h.hwAlpha _).orElse.map _) ?_
    refine Loops.word (isWord_printDouble _) rfl ((reads_parDouble hno.2.1 h.hwBeta _).orElse.map _) ?_
    refine Loops.word (isWord_printNat _) rfl ((reads_parUlong (.inl rfl) hdependent _).orElse.map _) ?_
    exact Parse.Loops.done (takesItem_stop _) (takes_ret _)
  | seasonal | devseasonal =>
    split_ifs with hversion
    · simp only [events_append, events_leafLine, List.append_assoc]
      refine Loops.word (isWord_printDouble _) rfl ((reads_parDouble hno.1 h.hwAlpha _).orElse.map _) ?_
      refine Loops.word (isWord_printNat _) rfl ((reads_parUlong (.inr (.inl rfl)) h.seasonalSmoothIdx _).orElse.map _) ?_
      refine Loops.word (isWord_printDouble _) rfl ((reads_parDouble hno.2.1 h.hwBeta _).orElse.map _) ?_
      refine Loops.word (isWord_printNat _) rfl ((reads_parUlong (.inl rfl) hdependent _).orElse.map _) ?_
      exact Parse.Loops.done (takesItem_stop _) (takes_ret _)
    · simp only [events_append, events_leafLine, List.append_assoc, List.nil_append]
      refine Loops.word (isWord_printDouble _) rfl ((reads_parDouble hno.1 h.hwAlpha _).orElse.map _) ?_
      refine Loops.word (isWord_printNat _) rfl ((reads_parUlong (.inr (.inl rfl)) h.seasonalSmoothIdx _).orElse.map _) ?_
      refine Loops.word (isWord_printNat _) rfl ((reads_parUlong (.inl rfl) hdependent _).orElse.map _) ?_
      exact Parse.Loops.done (takesItem_stop _) (takes_ret _)
  | failures =>
    simp only [events_append, events_leafLine, List.append_assoc]
    refine Loops.word (isWord_printDouble _) rfl ((reads_parDouble hno.1 h.hwAlpha _).orElse.map _) ?_
    refine Loops.word (isWord_printDouble _) rfl ((reads_parDouble hno.2.1 h.hwBeta _).orElse.map _) ?_
    refine Loops.word (isWord_printNat _) rfl ((reads_parUlong (.inr (.inl rfl)) h.seasonalSmoothIdx _).orElse.map _) ?_
    refine Loops.word (isWord_printNat _) rfl ((reads_parUlong (.inr (.inr rfl)) h.failureThreshold _).orElse.map _) ?_
    refine Loops.word (isWord_printNat _) rfl ((reads_parUlong (.inl rfl) hdependent _).orElse.map _) ?_
    exact Parse.Loops.done (takesItem_stop _) (takes_ret _)
  | devpredict =>
    rw [events_leafLine]
    refine Loops.word (isWord_printNat _) rfl ((reads_parUlong (.inl rfl) hdependent _).orElse.map _) ?_
    exact Parse.Loops.done (takesItem_stop _) (takes_ret _)
  | average | minimum | maximum | last =>
    rw [events_leafLine]
    refine Loops.word (isWord_printDouble _) rfl ((reads_parDouble hno.2.2 h.xffVal _).orElse.map _) ?_
    exact Parse.Loops.done (takesItem_stop _) (takes_ret _)

/-! ## `cdp_prep` -/

theorem reads_count {n : ℕ} (hn : n < 2 ^ 64) (i : ℕ) (w : Write) (c : CdpPrep) :
    Reads (Values.readNumber true i w c) (printUlong n) (setScratch c i n (.num 0)) :=
  (reads_printUlong hn).store _ _

theorem reads_value {v : RrdValue} (hv : Readable v) (i : ℕ) (w : Write) (c : CdpPrep) :
    Reads (Values.readNumber false i w c) (printValue v) (setScratch c i 0 (dumped v)) :=
  (reads_getXmlDouble (.inr rfl) hv).store _ _

/-- A history of violations. -/
def historyText (n : ℕ) (violations : ℕ → Bool) : Text :=
  (List.range n).map fun vidx => if violations vidx then '1' else '0'

theorem isWord_historyText (n : ℕ) (violations : ℕ → Bool) : IsWord (historyText n violations) := by
  have hchar : ∀ c ∈ historyText n violations, isTextChar c = true ∧ c ≠ ' ' := by
    intro c hc
    obtain ⟨i, -, rfl⟩ := List.mem_map.mp hc
    split_ifs
    · decide
    · decide
  exact ⟨fun c hc => (hchar c hc).1, fun hc => (hchar ' ' hc).2 rfl⟩

/-- The history that is read. -/
theorem setHistory_historyText (n : ℕ) (violations : ℕ → Bool) {c : CdpPrep} (hc : c.violations = fun _ => false) :
    setHistory c (historyText n violations) = { c with violations := fun i => i < n && violations i } := by
  rw [setHistory]
  congr 1
  funext i
  have hlen : (historyText n violations).length = n := by rw [historyText, List.length_map, List.length_range]
  rw [hlen, hc]
  by_cases hi : i < n
  · rw [if_pos hi, historyText, List.getElem?_map, List.getElem?_range hi, Option.map_some]
    cases violations i with
    | true => simp [hi]
    | false => simp
  · rw [if_neg hi]
    simp [hi]

theorem reads_history (n : ℕ) (violations : ℕ → Bool) (w : Text → Write) (c : CdpPrep) :
    Reads (bind getXmlText fun history => map (write (w history)) fun _ => setHistory c history)
      (historyText n violations) (setHistory c (historyText n violations)) :=
  (reads_getXmlText _).store w (setHistory c)

/-- **The `cdp_prep` of a DS is read again.** -/
theorem takes_parseTagRraCdpPrepDs {rra : RraDef} {c : CdpPrep} (h : c.Readable) (version : Text) (dsCnt k : ℕ) :
    Takes view (Values.parseTagRraCdpPrepDs version dsCnt k)
      (events (cdpLines rra c) ++ [.stop "ds".toList]) (c.dumped rra) := by
  have hinit : Takes view (if CStr.atoi version = 1 then
        bind (write ⟨.cdpPrep, univals * k + 64, 8, univals * dsCnt⟩) fun _ =>
          write ⟨.cdpPrep, univals * k + 72, 8, univals * dsCnt⟩
      else ret ()) [] () := by
    split_ifs
    · exact (takes_write _).bind (takes_write _)
    · exact takes_ret ()
  suffices htags : Loops view getXmlElement (fun s : Bool × CdpPrep => if s.1 then ret s else fail)
      (fun element s => if isTag element "/ds".toList then if s.1 then ret (.done s) else fail
        else closing element (map (Values.parseTagRraCdpPrepField dsCnt k element s.2) fun c => (true, c)))
      (false, zeroCdp) (events (cdpLines rra c) ++ [.stop "ds".toList]) (true, c.dumped rra) from
    (takes_write _).bind (hinit.bind ((takes_tags htags).map Prod.snd))
  unfold cdpLines CdpPrep.dumped
  simp only [events_append, events_leafLine, List.append_assoc]
  refine Loops.word (isWord_printValue _) rfl ((reads_value h.primaryVal 8 _ _).map _) ?_
  refine Loops.word (isWord_printValue _) rfl ((reads_value h.secondaryVal 9 _ _).map _) ?_
  cases rra.cf with
  | hwpredict | mhwpredict =>
    simp only [events_append, events_leafLine, List.append_assoc]
    refine Loops.word (isWord_printValue _) rfl ((reads_value h.hwIntercept 2 _ _).map _) ?_
    refine Loops.word (isWord_printValue _) rfl ((reads_value h.hwLastIntercept 3 _ _).map _) ?_
    refine Loops.word (isWord_printValue _) rfl ((reads_value h.hwSlope 4 _ _).map _) ?_
    refine Loops.word (isWord_printValue _) rfl ((reads_value h.hwLastSlope 5 _ _).map _) ?_
    refine Loops.word (isWord_printNat _) rfl ((reads_count h.nullCount 6 _ _).map _) ?_
    refine Loops.word (isWord_printNat _) rfl ((reads_count h.lastNullCount 7 _ _).map _) ?_
    exact Parse.Loops.done (takesItem_stop _) (takes_ret _)
  | seasonal | devseasonal =>
    simp only [events_append, events_leafLine, List.append_assoc]
    refine Loops.word (isWord_printValue _) rfl ((reads_value h.hwIntercept 2 _ _).map _) ?_
    refine Loops.word (isWord_printValue _) rfl ((reads_value h.hwLastIntercept 3 _ _).map _) ?_
    refine Loops.word (isWord_printNat _) rfl ((reads_count h.nullCount 6 _ _).map _) ?_
    exact Parse.Loops.done (takesItem_stop _) (takes_ret _)
  | devpredict => exact Parse.Loops.done (takesItem_stop _) (takes_ret _)
  | failures =>
    rw [events_leafLine]
    refine Loops.word (isWord_historyText _ _) rfl ((reads_history rra.windowLen c.violations _ _).map _) ?_
    rw [setHistory_historyText rra.windowLen c.violations rfl]
    exact Parse.Loops.done (takesItem_stop _) (takes_ret _)
  | average | minimum | maximum | last =>
    simp only [events_append, events_leafLine, List.append_assoc]
    refine Loops.word (isWord_printValue _) rfl ((reads_value h.cdpVal 0 _ _).map _) ?_
    refine Loops.word (isWord_printNat _) rfl ((reads_count h.unknPdpCnt 1 _ _).map _) ?_
    exact Parse.Loops.done (takesItem_stop _) (takes_ret _)

/-- What is behind the start tag of `cdp_prep`. -/
def cdpEvents (r : Rrd) (i : ℕ) : List Event :=
  (List.range r.dsCnt).flatMap (fun d =>
    .start "ds".toList :: (events (cdpLines (r.rraDef i) (r.cdpPrep (r.cdpIdx i d))) ++ [.stop "ds".toList])) ++
    [.stop "cdp_prep".toList]

/-- **The `cdp_prep` of an RRA is read again.** -/
theorem takes_parseTagRraCdpPrep {i : ℕ} (h : ∀ d < r.dsCnt, (r.cdpPrep (r.cdpIdx i d)).Readable) (version : Text)
    (at_ : ℕ) (cdpPrep : ℕ → CdpPrep) :
    Takes view (Values.parseTagRraCdpPrep version r.dsCnt at_ cdpPrep) (cdpEvents r i)
      (Fill.fill cdpPrep at_ r.dsCnt fun d => (r.cdpPrep (r.cdpIdx i d)).dumped (r.rraDef i)) := by
  refine Takes.bind ?_ ((takes_expectElement (takesItem_stop _)).map _)
  have hloop := takes_timesFrom (V := view)
    (f := fun k cdpPrep => bind (expectElement "ds".toList) fun _ =>
      map (Values.parseTagRraCdpPrepDs version r.dsCnt k) fun c => Function.update cdpPrep (at_ + k) c)
    (fun k => Fill.fill cdpPrep at_ k fun d => (r.cdpPrep (r.cdpIdx i d)).dumped (r.rraDef i))
    (fun d => .start "ds".toList ::
      (events (cdpLines (r.rraDef i) (r.cdpPrep (r.cdpIdx i d))) ++ [.stop "ds".toList])) fun d hd => by
    rw [← Fill.update_fill]
    exact (takes_expectElement (takesItem_start _)).bind ((takes_parseTagRraCdpPrepDs (h d hd) version r.dsCnt d).map _)
  rwa [Fill.fill_zero] at hloop

end Restore

end Rrdtool
