import Rrdtool.FetchWindow
import Rrdtool.Lib.Scientific
import Rrdtool.Lib.Xml
import Rrdtool.Rpn.Print

/-!
# `rrd_dump`

The document that `rrd_dump_cb_r` writes for a database, piece by piece. The lines are written through a buffer of 256
bytes, which none of them fills; the local time in the comments is a parameter.
-/

namespace Rrdtool

open Xml

/-! ## Numbers and lines -/

/-- `%0.10e` -/
def printDouble : RrdValue → Text
  | .nan => "nan".toList
  | .neginf => "-inf".toList
  | .num q => Scientific.print 10 q
  | .inf => "inf".toList

/-- The same, but for NaN. -/
def printValue (v : RrdValue) : Text := if v.isnan then "NaN".toList else printDouble v

/-- `%lu` -/
def printUlong (n : ℕ) : Text := Decimal.printNat n

/-- White space in front of a tag. -/
def tabs (n : ℕ) : Piece := .blank (List.replicate n '\t')

/-- The end of a line. -/
def newline : Piece := .blank ['\n']

/-- The start of an element. -/
def openTag (name : String) : Piece := .start name.toList []

/-- The end of an element. -/
def closeTag (name : String) : Piece := .stop name.toList

/-- A line with one element. -/
def leafLine (n : ℕ) (name : String) (value : Text) : List Piece := [tabs n, .leaf name.toList value, newline]

/-- A line with one element and a comment. -/
def notedLine (n : ℕ) (name : String) (value comment : Text) : List Piece :=
  [tabs n, .leaf name.toList value, .blank [' '], .comment comment, newline, newline]

/-- The name of a type. -/
def dstName : Dst → String
  | .counter => "COUNTER"
  | .absolute => "ABSOLUTE"
  | .gauge => "GAUGE"
  | .derive => "DERIVE"
  | .cdef => "COMPUTE"

/-- The name of a consolidation function. -/
def cfName : Cf → String
  | .average => "AVERAGE"
  | .minimum => "MIN"
  | .maximum => "MAX"
  | .last => "LAST"
  | .hwpredict => "HWPREDICT"
  | .seasonal => "SEASONAL"
  | .devpredict => "DEVPREDICT"
  | .devseasonal => "DEVSEASONAL"
  | .failures => "FAILURES"
  | .mhwpredict => "MHWPREDICT"

/-! ## Data sources -/

/-- `ds_def`, as a list -/
def Rrd.dsDefs (r : Rrd) : List DsDef := (List.range r.dsCnt).map r.dsDef

/-- The lines of a DS that depend on its type. -/
def dsLines (r : Rrd) (d : ℕ) : Option (List Piece) :=
  if (r.dsDef d).dst = .cdef then
    (rpnCompact2str r.dsDefs (r.dsDef d).cdef).map fun s => leafLine 2 "cdef" (' ' :: (s.str ++ [' ']))
  else
    some (leafLine 2 "minimal_heartbeat" (printUlong (r.dsDef d).mrhbCnt) ++
      leafLine 2 "min" (printValue (r.dsDef d).minVal) ++ leafLine 2 "max" (printValue (r.dsDef d).maxVal))

/-- A DS. -/
def dsPieces (r : Rrd) (d : ℕ) : Option (List Piece) :=
  (dsLines r d).map fun lines =>
    [tabs 1, openTag "ds", newline] ++ leafLine 2 "name" (' ' :: ((r.dsDef d).dsNam ++ [' '])) ++
      leafLine 2 "type" (' ' :: ((dstName (r.dsDef d).dst).toList ++ [' '])) ++ lines ++
      [newline, tabs 2, .comment " PDP Status ".toList, newline] ++ leafLine 2 "last_ds" (r.pdpPrep d).lastDs ++
      leafLine 2 "value" (printValue (r.pdpPrep d).pdpVal) ++
      leafLine 2 "unknown_sec" (' ' :: (printUlong (r.pdpPrep d).unknSecCnt ++ [' '])) ++
      [tabs 1, closeTag "ds", newline, newline]

/-! ## Round robin archives -/

/-- The lines in `<params>`. -/
def paramLines (version : ℕ) (rra : RraDef) : List Piece :=
  let dependent := leafLine 2 "dependent_rra_idx" (printUlong rra.dependentRraIdx)
  match rra.cf with
  | .hwpredict | .mhwpredict =>
    leafLine 2 "hw_alpha" (printDouble rra.hwAlpha) ++ leafLine 2 "hw_beta" (printDouble rra.hwBeta) ++ dependent
  | .seasonal | .devseasonal =>
    leafLine 2 "seasonal_gamma" (printDouble rra.seasonalGamma) ++
      leafLine 2 "seasonal_smooth_idx" (printUlong rra.seasonalSmoothIdx) ++
      (if 4 ≤ version then leafLine 2 "smoothing_window" (printDouble rra.smoothingWindow) else []) ++ dependent
  | .failures =>
    leafLine 2 "delta_pos" (printDouble rra.deltaPos) ++ leafLine 2 "delta_neg" (printDouble rra.deltaNeg) ++
      leafLine 2 "window_len" (printUlong rra.windowLen) ++
      leafLine 2 "failure_threshold" (printUlong rra.failureThreshold) ++ dependent
  | .devpredict => dependent
  | _ => leafLine 2 "xff" (printDouble rra.xffVal)

/-- The lines of a DS in `<cdp_prep>`. -/
def cdpLines (rra : RraDef) (c : CdpPrep) : List Piece :=
  leafLine 3 "primary_value" (printValue c.primaryVal) ++ leafLine 3 "secondary_value" (printValue c.secondaryVal) ++
  match rra.cf with
  | .hwpredict | .mhwpredict =>
    leafLine 3 "intercept" (printValue c.hwIntercept) ++ leafLine 3 "last_intercept" (printValue c.hwLastIntercept) ++
      leafLine 3 "slope" (printValue c.hwSlope) ++ leafLine 3 "last_slope" (printValue c.hwLastSlope) ++
      leafLine 3 "nan_count" (printUlong c.nullCount) ++ leafLine 3 "last_nan_count" (printUlong c.lastNullCount)
  | .seasonal | .devseasonal =>
    leafLine 3 "seasonal" (printValue c.hwSeasonal) ++ leafLine 3 "last_seasonal" (printValue c.hwLastSeasonal) ++
      leafLine 3 "init_flag" (printUlong c.initSeasonal)
  | .devpredict => []
  | .failures =>
    leafLine 3 "history" ((List.range rra.windowLen).map fun vidx => if c.violations vidx then '1' else '0')
  | _ => leafLine 3 "value" (printValue c.cdpVal) ++ leafLine 3 "unknown_datapoints" (printUlong c.unknPdpCnt)

/-- A DS in `<cdp_prep>`. -/
def cdpPieces (r : Rrd) (i d : ℕ) : List Piece :=
  [tabs 3, openTag "ds", newline] ++ cdpLines (r.rraDef i) (r.cdpPrep (r.cdpIdx i d)) ++ [tabs 3, closeTag "ds", newline]

/-- `now`: the time of a row. -/
def Rrd.dumpTime (r : Rrd) (i : ℕ) (timer : ℤ) : ℤ :=
  long (r.lastUp - umod r.lastUp (r.rowSecsU i) + timer * (r.rraDef i).pdpCnt * r.pdpStep)

/-- A row, of which the values begin at `pos`. -/
def rowPieces (stamp : ℤ → Text) (r : Rrd) (now : ℤ) (pos : ℕ) : List Piece :=
  [tabs 3, .comment (' ' :: (stamp now ++ " / ".toList ++ Decimal.printInt now ++ [' '])), .blank [' '], openTag "row"] ++
    (List.range r.dsCnt).map (fun d => .leaf "v".toList (printValue (r.values (pos + d)))) ++ [closeTag "row", newline]

/-- The loop over the rows: `n` of them are left, `ii` is the last one that has been written, and the file is
positioned at `pos`. -/
def rowsPieces (stamp : ℤ → Text) (r : Rrd) (i : ℕ) : ℕ → ℤ → ℕ → ℕ → List Piece
  | 0, _, _, _ => []
  | n + 1, timer, ii, pos =>
    let next := (ii + 1) % 2 ^ 32
    let wrap : Bool := (r.rraDef i).rowCnt ≤ next
    let pos := if wrap then r.rraStart i else pos
    rowPieces stamp r (r.dumpTime i timer) pos ++
      rowsPieces stamp r i n (timer + 1) (if wrap then 0 else next) (pos + r.dsCnt)

/-- An RRA. A row without a length ends the process, as a time is divided by it. -/
def rraPieces (stamp : ℤ → Text) (r : Rrd) (i : ℕ) : Option (List Piece) :=
  let rra := r.rraDef i
  if 0 < rra.rowCnt ∧ r.rowSecsU i = 0 then none
  else some (
    [tabs 1, openTag "rra", newline] ++ leafLine 2 "cf" (cfName rra.cf).toList ++
    notedLine 2 "pdp_per_row" (printUlong rra.pdpCnt)
      (' ' :: (printUlong (ulong (rra.pdpCnt * r.pdpStep)) ++ " seconds ".toList)) ++
    [tabs 2, openTag "params", newline] ++ paramLines r.version rra ++ [tabs 2, closeTag "params", newline] ++
    [tabs 2, openTag "cdp_prep", newline] ++ (List.range r.dsCnt).flatMap (cdpPieces r i) ++
    [tabs 2, closeTag "cdp_prep", newline] ++
    [tabs 2, openTag "database", newline] ++
    rowsPieces stamp r i rra.rowCnt (-long (rra.rowCnt - 1)) (r.curRow i % 2 ^ 32)
      (r.rraStart i + (r.curRow i + 1) * r.dsCnt) ++
    [tabs 2, closeTag "database", newline, tabs 1, closeTag "rra", newline])

/-! ## The document -/

/-- The declarations, for the value of `--header`. -/
def headerPieces : ℕ → List Piece
  | 1 => [.declaration "?xml version=\"1.0\" encoding=\"utf-8\"?".toList, newline,
      .declaration "!DOCTYPE rrd SYSTEM \"http://oss.oetiker.ch/rrdtool/rrdtool.dtd\"".toList, newline]
  | 2 => [.declaration "?xml version=\"1.0\" encoding=\"utf-8\"?".toList, newline]
  | _ => []

/-- The attributes of the root. -/
def rootAttributes : ℕ → Text
  | 2 => (" xmlns=\"http://oss.oetiker.ch/rrdtool/rrdtool-dump.xml\"" ++
      " xmlns:xsi=\"http://www.w3.org/2001/XMLSchema-instance\"\n\txsi:schemaLocation=\"" ++
      "http://oss.oetiker.ch/rrdtool/rrdtool-dump.xml http://oss.oetiker.ch/rrdtool/rrdtool-dump.xsd\"").toList
  | _ => []

/-- `RRD_VERSION3` or `RRD_VERSION` -/
def versionText (version : ℕ) : Text := if version ≤ 3 then "0003".toList else "0004".toList

/-- What stands in the root. -/
def rootPieces (stamp : ℤ → Text) (r : Rrd) (ds rras : List (List Piece)) : List Piece :=
  newline :: (leafLine 1 "version" (versionText r.version) ++
  [tabs 1, .leaf "step".toList (printUlong r.pdpStep), .blank [' '], .comment " Seconds ".toList, newline] ++
  notedLine 1 "lastupdate" (Decimal.printInt r.lastUp) (' ' :: (stamp r.lastUp ++ [' '])) ++ ds.flatten ++
  [tabs 1, .comment " Round Robin Archives ".toList, newline] ++ rras.flatten)

/-- The pieces of the whole document. -/
def dumpPieces (stamp : ℤ → Text) (header : ℕ) (r : Rrd) : Option (List Piece) :=
  ((List.range r.dsCnt).mapM (dsPieces r)).bind fun ds =>
    ((List.range r.rraCnt).mapM (rraPieces stamp r)).map fun rras =>
      headerPieces header ++ [.comment " Round Robin Database Dump ".toList, newline] ++
        .start "rrd".toList (rootAttributes header) :: (rootPieces stamp r ds rras ++ [closeTag "rrd", newline])

/-- **`rrd_dump_cb_r`** on an open file: what is written, unless the process ends. -/
def rrdDump (stamp : ℤ → Text) (header : ℕ) (r : Rrd) : Option Text := (dumpPieces stamp header r).map render

end Rrdtool
