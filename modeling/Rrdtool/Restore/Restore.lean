import Rrdtool.Restore.Reader

/-!
# `rrd_restore`

The recursive descent of `rrd_restore.c`: one function for each block of the document. Tags may come in any order,
and as often as one likes; what a tag says replaces what one before has said. Memory is always found.

What a row holds and what is in `cdp_prep` is read and checked, but not kept here. The writes into the arrays are.
-/

namespace Rrdtool.Restore

open Parse

/-! ## What is read -/

/-- What has been stored into the `par` array of a DS. -/
inductive ParStore : Type where
  /-- `par[DS_mrhb_cnt].u_cnt` -/
  | mrhb (n : ℕ)
  /-- `par[DS_min_val].u_val` -/
  | min (v : RrdValue)
  /-- `par[DS_max_val].u_val` -/
  | max (v : RrdValue)
  /-- `parseCDEF_DS`: the name that the DS had, the text, and the program -/
  | cdef (name expr : Text) (prog : List RpnCdefds)
  deriving DecidableEq

/-- `ds_def_t` with its `pdp_prep_t`. -/
structure DsEntry : Type where
  /-- `ds_nam` -/
  dsNam : Text
  /-- `dst` -/
  dst : Text
  /-- the stores into `par`, the last one first; it has been cleared before -/
  par : List ParStore
  /-- `last_ds` -/
  lastDs : Text
  /-- `scratch[PDP_val]` -/
  pdpVal : RrdValue
  /-- `scratch[PDP_unkn_sec_cnt]` -/
  unknSecCnt : ℕ
  deriving DecidableEq

/-- `rra_def_t` with its `rra_ptr_t`. -/
structure RraEntry : Type where
  /-- `cf_nam` -/
  cfNam : Text
  /-- `row_cnt` -/
  rowCnt : ℕ
  /-- `pdp_cnt` -/
  pdpCnt : ℕ
  /-- `par[RRA_cdp_xff_val]` -/
  xffVal : RrdValue
  /-- `par[RRA_hw_alpha]` -/
  hwAlpha : RrdValue
  /-- `par[RRA_hw_beta]` -/
  hwBeta : RrdValue
  /-- `par[RRA_dependent_rra_idx]` -/
  dependentRraIdx : ℕ
  /-- `par[RRA_seasonal_smooth_idx]`, also `RRA_window_len` -/
  seasonalSmoothIdx : ℕ
  /-- `par[RRA_failure_threshold]` -/
  failureThreshold : ℕ
  /-- `cur_row` -/
  curRow : ℕ
  deriving DecidableEq

/-- `rrd_t` -/
structure RestoredRrd : Type where
  /-- `stat_head.version` -/
  version : Text
  /-- `stat_head.pdp_step` -/
  pdpStep : ℕ
  /-- `live_head.last_up` -/
  lastUp : ℤ
  /-- `ds_def` and `pdp_prep` -/
  ds : List DsEntry
  /-- `rra_def` and `rra_ptr` -/
  rras : List RraEntry
  deriving DecidableEq

/-- A DS that has been cleared. -/
def DsEntry.zero : DsEntry := ⟨[], [], [], [], .num 0, 0⟩

/-- An RRA that has been cleared. -/
def RraEntry.zero : RraEntry := ⟨[], 0, 0, .num 0, .num 0, .num 0, 0, 0, 0, 0⟩

/-- `DS_NAM_SIZE`, also `DST_SIZE` and `CF_NAM_SIZE` -/
def dsNamSize : ℕ := 20

/-- `ds_nam` as a string: a name that fills it goes on in `dst`. -/
def DsEntry.name (d : DsEntry) : Text := if d.dsNam.length < dsNamSize then d.dsNam else d.dsNam ++ d.dst

/-- The bytes of an array of ten `unival`s: `par`, `scratch`. -/
def univals : ℕ := 80

/-! ## The loops -/

/-- `while ((element = get_xml_element(reader)) != NULL)`; every pass takes a node. -/
def tags {α : Type} (onEnd : α → Parser Reader α) (body : Text → α → Parser Reader (Pass α)) (a : α) : Parser Reader α :=
  fun r => loop getXmlElement onEnd body r.rest.length a r

/-- The end of a pass: the end of the element is expected. -/
def closing {α : Type} (element : Text) (x : Parser Reader α) : Parser Reader (Pass α) :=
  bind x fun a => map (expectElementEnd element) fun _ => .next a

theorem closing_eq_some {α : Type} {element : Text} {x : Parser Reader α} {p : Pass α} {r r' : Reader}
    (h : closing element x r = (some p, r')) : ∃ a r₁, x r = (some a, r₁) ∧ p = .next a := by
  obtain ⟨a, r₁, ha, h⟩ := bind_eq_some.mp h
  obtain ⟨_, -, rfl⟩ := map_eq_some.mp h
  exact ⟨a, r₁, ha, rfl⟩

/-! ## Data sources -/

/-- `lookup_DS` -/
def lookupName (names : List Text) (name : Text) : Option ℕ := names.findIdx? fun n => n = name

/-- `parse_tag_ds_cdef`: the DS has been counted already. -/
def parseTagDsCdef (names : List Text) (d : DsEntry) : Parser Reader DsEntry :=
  bind getXmlText fun cdef =>
    match parseCdefDs (lookupName (names ++ [d.name])) cdef with
    | .error e => setError (.cdef e)
    | .ok prog =>
      bind (write ⟨.dsPar, 0, 4 * (prog.length + 1), univals⟩) fun _ r =>
        -- `rrd_test_error`: the error may be an old one
        if r.error = none then (some { d with par := .cdef d.name cdef prog :: d.par }, r) else (none, r)

/-- `parse_tag_ds_type` -/
def parseTagDsType (d : DsEntry) : Parser Reader DsEntry :=
  bind getXmlText fun dst =>
    match dstConv dst with
    | none => setError (.unknownDst dst)
    | some _ => ret { d with dst := dst.take (dsNamSize - 1) }

/-- The tags of a DS. -/
def parseTagDsField (names : List Text) (element : Text) (d : DsEntry) : Parser Reader DsEntry :=
  if isTag element "name".toList then map (getXmlString dsNamSize) fun s => { d with dsNam := s }
  else if isTag element "type".toList then parseTagDsType d
  else if isTag element "minimal_heartbeat".toList then
    bind getXmlUlong fun n => map (write ⟨.dsPar, 0, 8, univals⟩) fun _ => { d with par := .mrhb n :: d.par }
  else if isTag element "min".toList then
    bind getXmlDouble fun v => map (write ⟨.dsPar, 8, 8, univals⟩) fun _ => { d with par := .min v :: d.par }
  else if isTag element "max".toList then
    bind getXmlDouble fun v => map (write ⟨.dsPar, 16, 8, univals⟩) fun _ => { d with par := .max v :: d.par }
  else if isTag element "cdef".toList then parseTagDsCdef names d
  else if isTag element "last_ds".toList then map (getXmlString lastDsLen) fun s => { d with lastDs := s }
  else if isTag element "value".toList then map getXmlDouble fun v => { d with pdpVal := v }
  else if isTag element "unknown_sec".toList then map getXmlUlong fun n => { d with unknSecCnt := n }
  else setError (.dsTag element)

/-- `parse_tag_ds` -/
def parseTagDs (rrd : RestoredRrd) : Parser Reader RestoredRrd :=
  if rrd.rras ≠ [] then setError .dsAfterRra
  else
    map (tags ret (fun element d => if isTag element "/ds".toList then ret (.done d)
        else closing element (parseTagDsField (rrd.ds.map DsEntry.name) element d)) DsEntry.zero)
      fun d => { rrd with ds := rrd.ds ++ [d] }

/-! ## Round robin archives -/

/-- A row of the database, from the byte `first` on. -/
def parseTagRraDatabaseRow (dsCnt first size : ℕ) : Parser Reader Unit :=
  times dsCnt fun j =>
    bind (expectElement "v".toList) fun _ => bind getXmlDouble fun _ =>
      bind (write ⟨.rows, first + 8 * j, 8, size⟩) fun _ => expectElement "/v".toList

/-- A `<row>`: `total_row_cnt` and the RRA. The size of the array is an `unsigned int`, as the count is. -/
def parseTagRraRow (dsCnt : ℕ) (s : ℕ × RraEntry) : Parser Reader (ℕ × RraEntry) :=
  let first := 8 * (dsCnt * s.1)
  let size := 8 * (dsCnt * ((s.1 + 1) % 2 ^ 32) % 2 ^ 32)
  bind (write ⟨.rows, first, 8 * dsCnt, size⟩) fun _ => bind (parseTagRraDatabaseRow dsCnt first size) fun _ =>
    map (expectElement "/row".toList) fun _ =>
      ((s.1 + 1) % 2 ^ 32, { s.2 with rowCnt := (s.2.rowCnt + 1) % 2 ^ 64 })

/-- `parse_tag_rra_database`: the rows come behind those of the RRAs in front. -/
def parseTagRraDatabase (dsCnt : ℕ) (before : List RraEntry) (rra : RraEntry) : Parser Reader RraEntry :=
  map (tags ret (fun element s => if isTag element "row".toList then map (parseTagRraRow dsCnt s) .next
      else if isTag element "/database".toList then ret (.done s)
      else setError (.databaseTag element))
    ((before.map RraEntry.rowCnt).sum % 2 ^ 32, rra)) Prod.snd

/-- The numbers of `cdp_prep`: the tag, the index in `scratch`, and whether it is a count. -/
def cdpPrepNumbers : List (String × ℕ × Bool) :=
  [("primary_value", 8, false), ("secondary_value", 9, false), ("intercept", 2, false), ("last_intercept", 3, false),
   ("slope", 4, false), ("last_slope", 5, false), ("nan_count", 6, true), ("last_nan_count", 7, true),
   ("seasonal", 2, false), ("last_seasonal", 3, false), ("init_flag", 6, true), ("value", 0, false),
   ("unknown_datapoints", 1, true)]

/-- A number, of which only where it goes is kept. -/
def readNumber (count : Bool) (w : Write) : Parser Reader Unit :=
  if count then bind getXmlUlong fun _ => write w else bind getXmlDouble fun _ => write w

/-- The tags of a DS in `cdp_prep`; it is the `k`-th one. -/
def parseTagRraCdpPrepField (dsCnt k : ℕ) (element : Text) : Parser Reader Unit :=
  if isTag element "history".toList then
    bind getXmlText fun history => write ⟨.history, univals * k, history.length, univals * dsCnt⟩
  else
    match cdpPrepNumbers.find? fun p => isTag element p.1.toList with
    | some p => readNumber p.2.2 ⟨.cdpPrep, univals * k + 8 * p.2.1, 8, univals * dsCnt⟩
    | none => setError (.cdpPrepTag element)

/-- `parse_tag_rra_cdp_prep_ds`: the status is bad until a tag has been read. -/
def parseTagRraCdpPrepDs (version : Text) (dsCnt k : ℕ) : Parser Reader Unit :=
  bind (write ⟨.cdpPrep, univals * k, univals, univals * dsCnt⟩) fun _ =>
    bind (if CStr.atoi version = 1 then
        bind (write ⟨.cdpPrep, univals * k + 64, 8, univals * dsCnt⟩) fun _ =>
          write ⟨.cdpPrep, univals * k + 72, 8, univals * dsCnt⟩
      else ret ()) fun _ =>
    map (tags (fun status => if status then ret status else fail)
      (fun element status => if isTag element "/ds".toList then if status then ret (.done status) else fail
        else closing element (map (parseTagRraCdpPrepField dsCnt k element) fun _ => true)) false) fun _ => ()

/-- `parse_tag_rra_cdp_prep` -/
def parseTagRraCdpPrep (version : Text) (dsCnt : ℕ) : Parser Reader Unit :=
  bind (times dsCnt fun k =>
      bind (expectElement "ds".toList) fun _ => parseTagRraCdpPrepDs version dsCnt k) fun _ =>
    expectElement "/cdp_prep".toList

/-- A store into `rra_def->par`. What is behind the sixth place is not used. -/
def RraEntry.setPar (rra : RraEntry) : ℕ → ℕ → RrdValue → RraEntry
  | 0, _, v => { rra with xffVal := v }
  | 1, _, v => { rra with hwAlpha := v }
  | 2, _, v => { rra with hwBeta := v }
  | 3, n, _ => { rra with dependentRraIdx := n }
  | 4, n, _ => { rra with seasonalSmoothIdx := n }
  | 5, n, _ => { rra with failureThreshold := n }
  | _, _, _ => rra

/-- The number for `rra_def->par[i]`. -/
def readPar (i : ℕ) (rra : RraEntry) : Parser Reader RraEntry :=
  if i = 3 ∨ i = 4 ∨ i = 5 then
    bind getXmlUlong fun n => map (write ⟨.rraPar, 8 * i, 8, univals⟩) fun _ => rra.setPar i n (.num 0)
  else bind getXmlDouble fun v => map (write ⟨.rraPar, 8 * i, 8, univals⟩) fun _ => rra.setPar i 0 v

/-- The tags of `<params>`, with the index in `par`. -/
def paramsTags : List (String × ℕ) :=
  [("hw_alpha", 1), ("hw_beta", 2), ("dependent_rra_idx", 3), ("seasonal_gamma", 1), ("seasonal_smooth_idx", 4),
   ("smoothing_window", 2), ("delta_pos", 1), ("delta_neg", 2), ("window_len", 4), ("failure_threshold", 5),
   ("xff", 0)]

/-- The loop of the `value`s of version 1.0.49, from place `10 - n` on. What has been stored stays where it breaks off. -/
def parseTagRraParamsValues : ℕ → RraEntry → Parser Reader RraEntry
  | 0, rra, r => (some rra, r)
  | n + 1, rra, r =>
    match readPar (9 - n) rra r with
    | (none, r) => (some rra, r)
    | (some rra, r) =>
      -- an end is not expected behind the first one: `i - 1` is unsigned
      let between : Parser Reader Unit :=
        if n = 9 then ret () else bind (expectElement "/value".toList) fun _ => expectElement "value".toList
      match between r with
      | (none, r) => (some rra, r)
      | (some _, r) => parseTagRraParamsValues n rra r

/-- `parse_tag_rra_params`: the status of a tag is forgotten when its end is expected. -/
def parseTagRraParams (rra : RraEntry) : Parser Reader RraEntry :=
  map (tags (fun s : Bool × RraEntry => if s.1 then ret s else fail)
    (fun element s =>
      if isTag element "/params".toList then if s.1 then ret (.done s) else fail
      else closing element
        (map
          (match paramsTags.find? fun p => isTag element p.1.toList with
            | some p => orElse (readPar p.2 s.2) s.2
            | none =>
              if isTag element "value".toList then parseTagRraParamsValues 10 s.2
              else orElse (setError (.paramsTag element)) s.2)
          fun rra => (true, rra)))
    (false, rra)) Prod.snd

/-- `parse_tag_rra_cf` -/
def parseTagRraCf (rra : RraEntry) : Parser Reader RraEntry :=
  bind (getXmlString dsNamSize) fun name =>
    if cfConv name = none then setError (.unknownCf name) else ret { rra with cfNam := name }

/-- The tags of an RRA. -/
def parseTagRraPass (version : Text) (dsCnt : ℕ) (before : List RraEntry) (element : Text) (rra : RraEntry) :
    Parser Reader (Pass RraEntry) :=
  if isTag element "cf".toList then closing element (parseTagRraCf rra)
  else if isTag element "pdp_per_row".toList then closing element (map getXmlUlong fun n => { rra with pdpCnt := n })
  else if CStr.atoi version = 1 ∧ isTag element "xff".toList then closing element (readPar 0 rra)
  else if 2 ≤ CStr.atoi version ∧ isTag element "params".toList then map (parseTagRraParams rra) .next
  else if isTag element "cdp_prep".toList then map (parseTagRraCdpPrep version dsCnt) fun _ => .next rra
  else if isTag element "database".toList then map (parseTagRraDatabase dsCnt before rra) .next
  else if isTag element "/rra".toList then ret (.done rra)
  else setError (.rraTag element)

/-- `parse_tag_rra`. Only where the loop finds no further element the row pointer is set; without rows, the processor
ends the process there. -/
def parseTagRra (random : ℕ) (rrd : RestoredRrd) : Parser Reader RestoredRrd :=
  bind (write ⟨.cdpPrep, 0, univals * rrd.ds.length, univals * rrd.ds.length⟩) fun _ =>
    map (tags (fun rra => if rra.rowCnt = 0 then fail else ret { rra with curRow := random % rra.rowCnt })
      (parseTagRraPass rrd.version rrd.ds.length rrd.rras) RraEntry.zero)
      fun rra => { rrd with rras := rrd.rras ++ [rra] }

/-! ## The document -/

/-- The tags of the document. -/
def parseTagRrdPass (random : ℕ) (element : Text) (rrd : RestoredRrd) : Parser Reader (Pass RestoredRrd) :=
  if isTag element "version".toList then closing element (map (getXmlString 5) fun s => { rrd with version := s })
  else if isTag element "step".toList then closing element (map getXmlUlong fun n => { rrd with pdpStep := n })
  else if isTag element "lastupdate".toList then closing element (map getXmlTimeT fun z => { rrd with lastUp := z })
  else if isTag element "ds".toList then map (parseTagDs rrd) .next
  else if isTag element "rra".toList then map (parseTagRra random rrd) .next
  else if isTag element "/rrd".toList then ret (.done rrd)
  else setError (.rrdTag element)

/-- `parse_tag_rrd` -/
def parseTagRrd (random : ℕ) : Parser Reader RestoredRrd :=
  tags ret (parseTagRrdPass random) ⟨[], 0, 0, [], []⟩

/-- `parse_file` -/
def parseFile (random : ℕ) : Parser Reader RestoredRrd :=
  bind (expectElement "rrd".toList) fun _ => parseTagRrd random

/-- `write_file`, as far as it changes something. -/
def writeFile (rrd : RestoredRrd) : RestoredRrd :=
  if CStr.atoi rrd.version < 3 then { rrd with version := "0003".toList } else rrd

/-- **`rrd_restore`** of a document: what is written, and the reader that has read it. -/
def rrdRestore (random : ℕ) (doc : List XmlNode) : Option RestoredRrd × Reader :=
  map (parseFile random) writeFile ⟨doc, none, none, []⟩

end Rrdtool.Restore
