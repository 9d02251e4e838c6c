import Rrdtool.Lib.Fill
import Rrdtool.Lib.Takes
import Rrdtool.Restore.Restore
import Rrdtool.Update

/-!
# What `rrd_restore` keeps

The descent once more, with the arrays it fills: `cdp_prep` and the rows. Each function is the one of `Restore` where
the arrays are not looked at (`map_parseTagRrd`); `write_file` writes them behind the header, with the ring turned so
that the row pointer is on the last row of the document. Values are not checked against the limits of their DS, which
is done on request only.

The bytes that the history of a `FAILURES` RRA shares with the numbers of the others are kept apart, as in `CdpPrep`.
-/

namespace Rrdtool.Restore

open Parse

/-- `rrd_t`, with `cdp_prep` and `rrd_value` -/
structure RestoredFile : Type where
  /-- the header -/
  rrd : RestoredRrd
  /-- `cdp_prep`; the entry of RRA `i` and DS `d` is at `ds_cnt * i + d` -/
  cdpPrep : ℕ → CdpPrep
  /-- `rrd_value` -/
  rrdValue : ℕ → RrdValue

/-- An RRA while it is read, with the arrays. -/
structure RraFile : Type where
  /-- `rra_def` and `rra_ptr` -/
  rra : RraEntry
  /-- `cdp_prep` -/
  cdpPrep : ℕ → CdpPrep
  /-- `rrd_value` -/
  rrdValue : ℕ → RrdValue

/-- A `cdp_prep_t` that has been cleared. -/
def zeroCdp : CdpPrep :=
  ⟨.num 0, 0, .num 0, .num 0, .num 0, .num 0, 0, 0, .num 0, .num 0, fun _ => false⟩

/-- A store into `scratch[i]`, of a count or of a value. -/
def setScratch (c : CdpPrep) : ℕ → ℕ → RrdValue → CdpPrep
  | 0, _, v => { c with cdpVal := v }
  | 1, n, _ => { c with unknPdpCnt := n }
  | 2, _, v => { c with hwIntercept := v }
  | 3, _, v => { c with hwLastIntercept := v }
  | 4, _, v => { c with hwSlope := v }
  | 5, _, v => { c with hwLastSlope := v }
  | 6, n, _ => { c with nullCount := n }
  | 7, n, _ => { c with lastNullCount := n }
  | 8, _, v => { c with primaryVal := v }
  | 9, _, v => { c with secondaryVal := v }
  | _, _, _ => c

/-- The loop of `parse_tag_rra_cdp_prep_ds_history`. -/
def setHistory (c : CdpPrep) (history : Text) : CdpPrep :=
  { c with violations := fun i => if i < history.length then history[i]? = some '1' else c.violations i }

namespace Values

/-! ## The descent -/

/-- A row of the database, from place `at_` of `rrd_value` on. -/
def parseTagRraDatabaseRow (dsCnt at_ size : ℕ) : (ℕ → RrdValue) → Parser Reader (ℕ → RrdValue) :=
  timesFrom dsCnt fun j values =>
    bind (expectElement "v".toList) fun _ => bind getXmlDouble fun v =>
      bind (write ⟨.rows, 8 * at_ + 8 * j, 8, size⟩) fun _ =>
        map (expectElement "/v".toList) fun _ => Function.update values (at_ + j) v

/-- A `<row>`: `total_row_cnt`, the RRA and the values. -/
def parseTagRraRow (dsCnt : ℕ) (s : ℕ × RraEntry × (ℕ → RrdValue)) : Parser Reader (ℕ × RraEntry × (ℕ → RrdValue)) :=
  let size := 8 * (dsCnt * ((s.1 + 1) % 2 ^ 32) % 2 ^ 32)
  bind (write ⟨.rows, 8 * (dsCnt * s.1), 8 * dsCnt, size⟩) fun _ =>
    bind (parseTagRraDatabaseRow dsCnt (dsCnt * s.1) size (Fill.fill s.2.2 (dsCnt * s.1) dsCnt fun _ => .num 0)) fun values =>
      map (expectElement "/row".toList) fun _ =>
        ((s.1 + 1) % 2 ^ 32, { s.2.1 with rowCnt := (s.2.1.rowCnt + 1) % 2 ^ 64 }, values)

/-- `parse_tag_rra_database` -/
def parseTagRraDatabase (dsCnt : ℕ) (before : List RraEntry) (f : RraFile) : Parser Reader RraFile :=
  map (tags ret (fun element s => if isTag element "row".toList then map (parseTagRraRow dsCnt s) .next
      else if isTag element "/database".toList then ret (.done s)
      else setError (.databaseTag element))
    ((before.map RraEntry.rowCnt).sum % 2 ^ 32, f.rra, f.rrdValue)) fun s => { f with rra := s.2.1, rrdValue := s.2.2 }

/-- A number for `scratch[i]`. -/
def readNumber (count : Bool) (i : ℕ) (w : Write) (c : CdpPrep) : Parser Reader CdpPrep :=
  if count then bind getXmlUlong fun n => map (write w) fun _ => setScratch c i n (.num 0)
  else bind getXmlDouble fun v => map (write w) fun _ => setScratch c i 0 v

/-- The tags of a DS in `cdp_prep`; it is the `k`-th one. -/
def parseTagRraCdpPrepField (dsCnt k : ℕ) (element : Text) (c : CdpPrep) : Parser Reader CdpPrep :=
  if isTag element "history".toList then
    bind getXmlText fun history =>
      map (write ⟨.history, univals * k, history.length, univals * dsCnt⟩) fun _ => setHistory c history
  else
    match cdpPrepNumbers.find? fun p => isTag element p.1.toList with
    | some p => readNumber p.2.2 p.2.1 ⟨.cdpPrep, univals * k + 8 * p.2.1, 8, univals * dsCnt⟩ c
    | none => setError (.cdpPrepTag element)

/-- `parse_tag_rra_cdp_prep_ds` -/
def parseTagRraCdpPrepDs (version : Text) (dsCnt k : ℕ) : Parser Reader CdpPrep :=
  bind (write ⟨.cdpPrep, univals * k, univals, univals * dsCnt⟩) fun _ =>
    bind (if CStr.atoi version = 1 then
        bind (write ⟨.cdpPrep, univals * k + 64, 8, univals * dsCnt⟩) fun _ =>
          write ⟨.cdpPrep, univals * k + 72, 8, univals * dsCnt⟩
      else ret ()) fun _ =>
    map (tags (fun s : Bool × CdpPrep => if s.1 then ret s else fail)
      (fun element s => if isTag element "/ds".toList then if s.1 then ret (.done s) else fail
        else closing element (map (parseTagRraCdpPrepField dsCnt k element s.2) fun c => (true, c)))
      (false, zeroCdp)) Prod.snd

/-- `parse_tag_rra_cdp_prep`, for the entries from `at_` on -/
def parseTagRraCdpPrep (version : Text) (dsCnt at_ : ℕ) (cdpPrep : ℕ → CdpPrep) : Parser Reader (ℕ → CdpPrep) :=
  bind (timesFrom dsCnt (fun k cdpPrep =>
      bind (expectElement "ds".toList) fun _ =>
        map (parseTagRraCdpPrepDs version dsCnt k) fun c => Function.update cdpPrep (at_ + k) c) cdpPrep) fun cdpPrep =>
    map (expectElement "/cdp_prep".toList) fun _ => cdpPrep

/-- The tags of an RRA. -/
def parseTagRraPass (version : Text) (dsCnt : ℕ) (before : List RraEntry) (element : Text) (f : RraFile) :
    Parser Reader (Pass RraFile) :=
  if isTag element "cf".toList then closing element (map (parseTagRraCf f.rra) fun rra => { f with rra := rra })
  else if isTag element "pdp_per_row".toList then
    closing element (map getXmlUlong fun n => { f with rra := { f.rra with pdpCnt := n } })
  else if CStr.atoi version = 1 ∧ isTag element "xff".toList then
    closing element (map (readPar 0 f.rra) fun rra => { f with rra := rra })
  else if 2 ≤ CStr.atoi version ∧ isTag element "params".toList then
    map (parseTagRraParams f.rra) fun rra => .next { f with rra := rra }
  else if isTag element "cdp_prep".toList then
    map (parseTagRraCdpPrep version dsCnt (dsCnt * before.length) f.cdpPrep) fun c => .next { f with cdpPrep := c }
  else if isTag element "database".toList then map (parseTagRraDatabase dsCnt before f) .next
  else if isTag element "/rra".toList then ret (.done f)
  else setError (.rraTag element)

/-- `parse_tag_rra` -/
def parseTagRra (random : ℕ) (f : RestoredFile) : Parser Reader RestoredFile :=
  let dsCnt := f.rrd.ds.length
  bind (write ⟨.cdpPrep, 0, univals * dsCnt, univals * dsCnt⟩) fun _ =>
    map (tags
      (fun g => if g.rra.rowCnt = 0 then fail
        else ret { g with rra := { g.rra with curRow := random % g.rra.rowCnt } })
      (parseTagRraPass f.rrd.version dsCnt f.rrd.rras)
      ⟨RraEntry.zero, Fill.fill f.cdpPrep (dsCnt * f.rrd.rras.length) dsCnt fun _ => zeroCdp, f.rrdValue⟩)
      fun g => ⟨{ f.rrd with rras := f.rrd.rras ++ [g.rra] }, g.cdpPrep, g.rrdValue⟩

/-- The tags of the document. -/
def parseTagRrdPass (random : ℕ) (element : Text) (f : RestoredFile) : Parser Reader (Pass RestoredFile) :=
  if isTag element "version".toList then
    closing element (map (getXmlString 5) fun s => { f with rrd := { f.rrd with version := s } })
  else if isTag element "step".toList then
    closing element (map getXmlUlong fun n => { f with rrd := { f.rrd with pdpStep := n } })
  else if isTag element "lastupdate".toList then
    closing element (map getXmlTimeT fun z => { f with rrd := { f.rrd with lastUp := z } })
  else if isTag element "ds".toList then map (parseTagDs f.rrd) fun rrd => .next { f with rrd := rrd }
  else if isTag element "rra".toList then map (parseTagRra random f) .next
  else if isTag element "/rrd".toList then ret (.done f)
  else setError (.rrdTag element)

/-- `parse_tag_rrd` -/
def parseTagRrd (random : ℕ) : Parser Reader RestoredFile :=
  tags ret (parseTagRrdPass random) ⟨⟨[], 0, 0, [], []⟩, fun _ => zeroCdp, fun _ => .num 0⟩

/-- `parse_file` -/
def parseFile (random : ℕ) : Parser Reader RestoredFile :=
  bind (expectElement "rrd".toList) fun _ => parseTagRrd random

end Values

/-! ## The file -/

/-- The two `fwrite`s for an RRA, of which the rows begin at row `rraOffset` of `rrd_value`. -/
def writtenRra (dsCnt : ℕ) (values : ℕ → RrdValue) (rraOffset : ℕ) (rra : RraEntry) : List RrdValue :=
  if 0 < rra.rowCnt then
    ((List.range ((rra.curRow + 1) * dsCnt)).map fun p =>
      values ((rraOffset + rra.rowCnt - 1 - rra.curRow) * dsCnt + p)) ++
    (List.range ((rra.rowCnt - 1 - rra.curRow) * dsCnt)).map fun p => values (rraOffset * dsCnt + p)
  else []

/-- The loop at the end of `write_file`. -/
def writtenValues (dsCnt : ℕ) (values : ℕ → RrdValue) : ℕ → List RraEntry → List RrdValue
  | _, [] => []
  | rraOffset, rra :: rras =>
    writtenRra dsCnt values rraOffset rra ++ writtenValues dsCnt values ((rraOffset + rra.rowCnt) % 2 ^ 32) rras

/-- The `par` array of a DS, by the last store of each kind; it has been cleared before. -/
def parOf (stores : List ParStore) : DsPar :=
  match stores with
  | .cdef _ _ prog :: _ => .cdef prog
  | _ => .generic
    ((stores.findSome? fun | .mrhb n => some n | _ => none).getD 0)
    ((stores.findSome? fun | .min v => some v | _ => none).getD (.num 0))
    ((stores.findSome? fun | .max v => some v | _ => none).getD (.num 0))

/-- `ds_def_t`; a DS without a type has none of the names. -/
def DsEntry.toDsDef (d : DsEntry) : DsDef := ⟨d.dsNam, (dstConv d.dst).getD .gauge, parOf d.par⟩

/-- `pdp_prep_t` -/
def DsEntry.toPdpPrep (d : DsEntry) : PdpPrep := ⟨d.lastDs, d.unknSecCnt, d.pdpVal⟩

/-- `rra_def_t`; an RRA without a consolidation function has none of the names. -/
def RraEntry.toRraDef (rra : RraEntry) : RraDef :=
  ⟨(cfConv rra.cfNam).getD .average, rra.rowCnt, rra.pdpCnt, rra.xffVal, rra.hwAlpha, rra.hwBeta,
    rra.dependentRraIdx, rra.seasonalSmoothIdx, rra.failureThreshold⟩

/-- **`write_file`**: the file that is written. `last_up_usec` has been cleared, and no tag sets it. -/
def RestoredFile.write (f : RestoredFile) : Rrd :=
  let rrd := writeFile f.rrd
  let values := writtenValues rrd.ds.length f.rrdValue 0 rrd.rras
  { version := (CStr.atoi rrd.version).toNat
    dsCnt := rrd.ds.length
    rraCnt := rrd.rras.length
    pdpStep := rrd.pdpStep
    dsDef := fun d => (rrd.ds.getD d DsEntry.zero).toDsDef
    rraDef := fun i => (rrd.rras.getD i RraEntry.zero).toRraDef
    lastUp := rrd.lastUp.toNat
    lastUpUsec := 0
    pdpPrep := fun d => (rrd.ds.getD d DsEntry.zero).toPdpPrep
    cdpPrep := f.cdpPrep
    curRow := fun i => (rrd.rras.getD i RraEntry.zero).curRow
    values := fun p => values.getD p (.num 0)
    valueCnt := values.length }

/-- **`rrd_restore`** of a document: the file that is written. -/
def rrdRestoreFile (random : ℕ) (doc : List XmlNode) : Option Rrd :=
  (Values.parseFile random ⟨doc, none, none, []⟩).1.map RestoredFile.write

/-! ## The arrays apart -/

theorem map_timesFrom {α : Type} {n : ℕ} {f : ℕ → α → Parser Reader α} {g : ℕ → Parser Reader Unit}
    (h : ∀ i a, map (f i a) (fun _ => ()) = g i) (a : α) : map (timesFrom n f a) (fun _ => ()) = times n g := by
  induction n with
  | zero => rfl
  | succ n ih =>
    rw [timesFrom, times, ← ih, map_bind, bind_map]
    simp only [h]

/-- The loop, when only a part of its value is looked at. -/
theorem map_tags {α β : Type} {onEnd : α → Parser Reader α} {body : Text → α → Parser Reader (Pass α)}
    {onEnd' : β → Parser Reader β} {body' : Text → β → Parser Reader (Pass β)} (f : α → β)
    (hend : ∀ a, map (onEnd a) f = onEnd' (f a)) (hbody : ∀ b a, map (body b a) (Pass.map f) = body' b (f a)) (a : α) :
    map (tags onEnd body a) f = tags onEnd' body' (f a) := by
  funext r
  exact congrFun (map_loop f hend hbody r.rest.length a) r

theorem map_closing {α β : Type} (element : Text) (x : Parser Reader α) (f : α → β) :
    map (closing element x) (Pass.map f) = closing element (map x f) := by
  rw [closing, closing, map_bind, bind_map]
  simp only [map_map]
  rfl

/-- What a value is, does not matter where it is not used. -/
theorem bind_const {α β : Type} (x : Parser Reader α) (y : Parser Reader β) :
    bind x (fun _ => y) = bind (map x fun _ => ()) fun _ => y := (bind_map x (fun _ => ()) fun _ => y).symm

theorem map_parseTagRraDatabaseRow (dsCnt at_ size : ℕ) (values : ℕ → RrdValue) :
    map (Values.parseTagRraDatabaseRow dsCnt at_ size values) (fun _ => ()) =
      parseTagRraDatabaseRow dsCnt (8 * at_) size := by
  refine map_timesFrom (fun j values => ?_) values
  simp only [map_bind, map_map, map_unit]

theorem map_parseTagRraRow (dsCnt : ℕ) (s : ℕ × RraEntry × (ℕ → RrdValue)) :
    map (Values.parseTagRraRow dsCnt s) (fun s => (s.1, s.2.1)) = parseTagRraRow dsCnt (s.1, s.2.1) := by
  unfold Values.parseTagRraRow parseTagRraRow
  simp only [map_bind, map_map]
  congr 1
  funext _
  rw [bind_const, map_parseTagRraDatabaseRow]

theorem map_parseTagRraDatabase (dsCnt : ℕ) (before : List RraEntry) (f : RraFile) :
    map (Values.parseTagRraDatabase dsCnt before f) RraFile.rra = parseTagRraDatabase dsCnt before f.rra := by
  unfold Values.parseTagRraDatabase parseTagRraDatabase
  rw [map_map]
  refine Eq.trans (map_map _ (fun s : ℕ × RraEntry × (ℕ → RrdValue) => (s.1, s.2.1)) Prod.snd).symm
    (congrArg (map · Prod.snd) (map_tags _ (fun _ => rfl) (fun element s => ?_) _))
  rw [map_ite, map_ite, map_map, ← map_parseTagRraRow, map_map]
  rfl

theorem map_readNumber (count : Bool) (i : ℕ) (w : Write) (c : CdpPrep) :
    map (Values.readNumber count i w c) (fun _ => ()) = readNumber count w := by
  unfold Values.readNumber readNumber
  rw [map_ite]
  simp only [map_bind, map_map]
  rfl

theorem map_parseTagRraCdpPrepField (dsCnt k : ℕ) (element : Text) (c : CdpPrep) :
    map (Values.parseTagRraCdpPrepField dsCnt k element c) (fun _ => ()) = parseTagRraCdpPrepField dsCnt k element := by
  unfold Values.parseTagRraCdpPrepField parseTagRraCdpPrepField
  rw [map_ite]
  split_ifs
  · simp only [map_bind, map_map]
    rfl
  · cases cdpPrepNumbers.find? fun p => isTag element p.1.toList with
    | none => rfl
    | some p => exact map_readNumber _ _ _ c

theorem map_parseTagRraCdpPrepDs (version : Text) (dsCnt k : ℕ) :
    map (Values.parseTagRraCdpPrepDs version dsCnt k) (fun _ => ()) = parseTagRraCdpPrepDs version dsCnt k := by
  unfold Values.parseTagRraCdpPrepDs parseTagRraCdpPrepDs
  simp only [map_bind]
  congr 1
  funext _
  congr 1
  funext _
  rw [map_map]
  refine Eq.trans (map_map _ (Prod.fst : Bool × CdpPrep → Bool) fun _ => ()).symm
    (congrArg (map · fun _ => ()) (map_tags _ (fun s => ?_) (fun element s => ?_) _))
  · rw [map_ite]
    rfl
  · rw [map_ite, map_closing, map_map, ← map_parseTagRraCdpPrepField dsCnt k element s.2, map_map, map_ite]
    rfl

theorem map_parseTagRraCdpPrep (version : Text) (dsCnt at_ : ℕ) (cdpPrep : ℕ → CdpPrep) :
    map (Values.parseTagRraCdpPrep version dsCnt at_ cdpPrep) (fun _ => ()) = parseTagRraCdpPrep version dsCnt := by
  unfold Values.parseTagRraCdpPrep parseTagRraCdpPrep
  have hpass (k : ℕ) (c : ℕ → CdpPrep) :
      map (bind (expectElement "ds".toList) fun _ =>
        map (Values.parseTagRraCdpPrepDs version dsCnt k) fun a => Function.update c (at_ + k) a) (fun _ => ()) =
      bind (expectElement "ds".toList) fun _ => parseTagRraCdpPrepDs version dsCnt k := by
    rw [← map_parseTagRraCdpPrepDs]
    simp only [map_bind, map_map]
  simp only [map_bind, map_map, map_unit]
  rw [bind_const, map_timesFrom hpass]

theorem map_parseTagRraPass (version : Text) (dsCnt : ℕ) (before : List RraEntry) (element : Text) (f : RraFile) :
    map (Values.parseTagRraPass version dsCnt before element f) (Pass.map RraFile.rra) =
      parseTagRraPass version dsCnt before element f.rra := by
  unfold Values.parseTagRraPass parseTagRraPass
  simp only [map_ite, map_closing, map_map]
  rw [← map_parseTagRraCdpPrep version dsCnt (dsCnt * before.length) f.cdpPrep, ← map_parseTagRraDatabase]
  simp only [map_map, map_id]
  rfl

theorem map_parseTagRra (random : ℕ) (f : RestoredFile) :
    map (Values.parseTagRra random f) RestoredFile.rrd = parseTagRra random f.rrd := by
  unfold Values.parseTagRra parseTagRra
  simp only [map_bind, map_map]
  congr 1
  funext _
  refine Eq.trans (map_map _ RraFile.rra fun rra => { f.rrd with rras := f.rrd.rras ++ [rra] }).symm
    (congrArg (map · _) (map_tags _ (fun g => ?_) (map_parseTagRraPass _ _ _) _))
  rw [map_ite]
  rfl

/-- **Without the arrays**, this is the descent of `Restore`. -/
theorem map_parseTagRrd (random : ℕ) : map (Values.parseTagRrd random) RestoredFile.rrd = parseTagRrd random := by
  refine map_tags _ (fun _ => rfl) (fun element f => ?_) _
  unfold Values.parseTagRrdPass parseTagRrdPass
  simp only [map_ite, map_closing, map_map, ← map_parseTagRra]
  rfl

theorem map_parseFile (random : ℕ) : map (Values.parseFile random) RestoredFile.rrd = parseFile random := by
  rw [Values.parseFile, map_bind, map_parseTagRrd]
  rfl

end Rrdtool.Restore
