import Rrdtool.Graph.Align
import Mathlib.Data.Rat.Floor

/-!
# `rrd_xport_fn`

The exported rows run over the window of the command line in the common step of the columns, and each value is
taken from the row of its variable that the time falls into. Nothing compares the time with the window of the
variable; `data_proc` does so before it draws.

* `xportFn` — the export, with the element that each value was read from;
* `hasRow_xportPos_iff` — one value;
* `xport_inside_iff` — all values.
-/

namespace Rrdtool

open Loop

/-! ## The export -/

/-- What `rrd_xport_fn` works on, after `data_fetch`. -/
structure XportCall : Type where
  /-- the elements -/
  im : ImageDesc
  /-- `gf == GF_XPORT`, of elements that `data_calc` passes over -/
  isXport : ℕ → Bool
  /-- `im->start` -/
  start : ℤ
  /-- `im->end` -/
  stop : ℤ

/-- How `rrd_xport_fn` fails. -/
inductive XportError : Type where
  | calc (e : GraphError)
  /-- `no XPORT found, nothing to do` -/
  | noXport
  /-- `malloc xport data area` -/
  | malloc
  deriving DecidableEq

/-- An exported value. -/
structure XportCell : Type where
  /-- `vidx` -/
  vidx : ℕ
  /-- `now` -/
  now : ℤ
  /-- the index into `data` -/
  pos : ℤ
  /-- `*dstptr` -/
  value : RrdValue

/-- `*start`, `*end`, `*step`, and the rows that the loop runs over. -/
structure XportWindow : Type where
  /-- `*start` -/
  start : ℤ
  /-- `*end` -/
  stop : ℤ
  /-- `*step` -/
  step : ℕ
  /-- `row_cnt` -/
  rowCnt : ℕ

/-- The result. -/
structure XportResult : Type where
  /-- the window -/
  window : XportWindow
  /-- `*col_cnt` -/
  colCnt : ℕ
  /-- `*data` -/
  cells : List XportCell

namespace XportCall

/-- `ref_list` -/
def refList (x : XportCall) : List ℕ := (List.range x.im.gdesC).filter x.isXport

/-- The variable of a column. -/
def column (im : ImageDesc) (i : ℕ) : GraphDesc := im.gdes (im.gdes i).vidx

/-- The exported window. The remainders are those of `unsigned long`s. -/
def window (x : XportCall) (im : ImageDesc) : XportWindow :=
  let step := lcd (x.refList.map fun i => (column im i).step)
  let start := x.start - (toUlong x.start % step : ℕ)
  let stop := x.stop - (toUlong x.stop % step : ℕ) + step
  ⟨start, stop, step, toUlong (stop - start) / step⟩

end XportCall

/-- How often the loop runs: both numbers are compared as `int`s. -/
def XportWindow.rows (w : XportWindow) : ℕ := ((w.rowCnt : ℤ).bmod (2 ^ 32)).toNat

/-- `*start + dst_row * *step` -/
def XportWindow.now (w : XportWindow) (row : ℕ) : ℤ := w.start + row * w.step

/-- The index that a time is looked up at. A quotient below zero stays below zero: the index then runs around
with the pointer. -/
def xportPos (v : GraphDesc) (now : ℤ) : ℤ := ⌊((now - v.start : ℤ) : ℚ) / v.step⌋ * v.dsCnt + v.ds

/-- One value. -/
def xportCell (im : ImageDesc) (now : ℤ) (i : ℕ) : XportCell :=
  let pos := xportPos (XportCall.column im i) now
  ⟨(im.gdes i).vidx, now, pos, (XportCall.column im i).data pos⟩

/-- The two loops that fill the data. -/
def xportCells (x : XportCall) (im : ImageDesc) : List XportCell :=
  (List.range (x.window im).rows).flatMap fun row => x.refList.map (xportCell im ((x.window im).now row))

/-- `rrd_xport_fn`, after `data_fetch`. There is memory for the lists of the columns. -/
def xportFn (env : GraphEnv) (x : XportCall) : Except XportError XportResult :=
  match dataCalc env x.im with
  | .error e => .error (.calc e)
  | .ok im =>
    if x.refList = [] then .error .noXport
    else if env.malloc (x.refList.length * (x.window im).rowCnt) = false then .error .malloc
    else .ok ⟨x.window im, x.refList.length, xportCells x im⟩

/-! ## One value -/

/-- **The value of a row**: the row is one of the variable's, its interval contains the time, and this is its index. -/
def GraphDesc.HasRow (v : GraphDesc) (now pos : ℤ) : Prop :=
  ∃ row : ℕ, row < v.rows ∧ v.start + row * v.step ≤ now ∧ now < v.start + (row + 1) * v.step ∧
    v.start + (row + 1) * v.step ≤ v.stop ∧ pos = row * v.dsCnt + v.ds

theorem xportPos_eq (v : GraphDesc) (now : ℤ) : xportPos v now = (now - v.start) / v.step * v.dsCnt + v.ds := by
  rw [xportPos, Rat.floor_intCast_div_natCast]

/-- **The index is that of the row**, for the times of the variable's window. -/
theorem hasRow_xportPos_iff {v : GraphDesc} (hv : v.Regular) {now : ℤ} :
    v.HasRow now (xportPos v now) ↔ v.start ≤ now ∧ now < v.stop := by
  have hs : (0 : ℤ) < v.step := by exact_mod_cast hv.step
  rw [xportPos_eq]
  constructor
  · rintro ⟨row, -, hlo, hhi, hstop, -⟩
    have hrow : (0 : ℤ) ≤ row * v.step := by positivity
    exact ⟨by omega, hhi.trans_le hstop⟩
  · rintro ⟨hlo, hhi⟩
    obtain ⟨row, hrow⟩ := Int.eq_ofNat_of_zero_le (Int.ediv_nonneg (sub_nonneg.mpr hlo) hs.le)
    obtain ⟨m, hm⟩ := Int.dvd_sub hv.stop hv.start
    have hfloor := Int.ediv_mul_le (now - v.start) hs.ne'
    have hceil := Int.lt_ediv_add_one_mul_self (now - v.start) hs
    rw [hrow] at hfloor hceil ⊢
    -- the row is in front of the end
    have hlt : (row : ℤ) < m := by
      have : row * v.step < m * v.step := by
        rw [mul_comm m, ← hm]
        omega
      exact lt_of_mul_lt_mul_right this hs.le
    have hrows := hv.rows (hlo.trans hhi.le)
    rw [hm, Int.mul_ediv_cancel_left m hs.ne'] at hrows
    have hend : (row + 1 : ℤ) * v.step ≤ m * v.step := mul_le_mul_of_nonneg_right hlt hs.le
    rw [mul_comm m, ← hm] at hend
    exact ⟨row, by omega, by omega, by omega, by omega, rfl⟩

/-! ## What `data_calc` leaves alone -/

variable {env : GraphEnv} {im im' : ImageDesc} {k : ℕ}

/-- An element stays what it is. -/
def SameKinds (im im' : ImageDesc) : Prop :=
  ∀ i, (im'.gdes i).gf = (im.gdes i).gf ∧ (im'.gdes i).vidx = (im.gdes i).vidx

theorem SameKinds.trans {im₁ : ImageDesc} (h : SameKinds im im₁) (h' : SameKinds im₁ im') : SameKinds im im' :=
  fun i => ⟨(h' i).1.trans (h i).1, (h' i).2.trans (h i).2⟩

theorem sameKinds_update {gdes : ℕ → GraphDesc} {gdesC n : ℕ} {stack stack' : RpnStack} {g : GraphDesc}
    (hgf : g.gf = (gdes n).gf) (hvidx : g.vidx = (gdes n).vidx) :
    SameKinds ⟨gdes, gdesC, stack⟩ ⟨Function.update gdes n g, gdesC, stack'⟩ := by
  intro i
  dsimp only
  by_cases hi : i = n
  · rw [hi, Function.update_self]
    exact ⟨hgf, hvidx⟩
  · rw [Function.update_of_ne hi]
    exact ⟨rfl, rfl⟩

theorem sameKinds_calcEntry (hrun : calcEntry env im k = .ok im') : SameKinds im im' := by
  rw [calcEntry] at hrun
  cases hgf : (im.gdes k).gf with
  | shift =>
    simp only [hgf] at hrun
    obtain rfl := Except.ok.inj hrun
    exact sameKinds_update rfl rfl
  | vdef =>
    simp only [hgf] at hrun
    rw [calcVdef] at hrun
    cases hval : env.vdefCalc (Function.update im.gdes k { im.gdes k with dsCnt := 0 }) k with
    | none => simp [hval] at hrun
    | some val =>
      simp only [hval] at hrun
      obtain rfl := Except.ok.inj hrun
      have hunset : SameKinds im { im with gdes := Function.update im.gdes k { im.gdes k with dsCnt := 0 } } :=
        sameKinds_update rfl rfl
      exact hunset.trans (sameKinds_update rfl rfl)
  | cdef =>
    simp only [hgf] at hrun
    obtain ⟨-, s, -, rfl⟩ := calcCdef_eq_ok hrun
    exact sameKinds_update rfl rfl
  | gfDef =>
    simp only [hgf] at hrun
    obtain rfl := Except.ok.inj hrun
    exact fun i => ⟨rfl, rfl⟩
  | other =>
    simp only [hgf] at hrun
    obtain rfl := Except.ok.inj hrun
    exact fun i => ⟨rfl, rfl⟩

theorem sameKinds_calcEntries (hrun : calcEntries env k im = .ok im') : SameKinds im im' := by
  induction k generalizing im' with
  | zero =>
    obtain rfl := Except.ok.inj hrun
    exact fun i => ⟨rfl, rfl⟩
  | succ k ih =>
    obtain ⟨im₁, hrun₁, hentry⟩ := bind_eq_ok.mp hrun
    exact (ih hrun₁).trans (sameKinds_calcEntry hentry)

/-! ## All values -/

/-- **A script that has been accepted**: an export begins after 1980, and a column names a `DEF` or a `CDEF` in
front of it. -/
structure XportCall.Valid (x : XportCall) : Prop extends x.im.Valid where
  first : 3600 * 24 * 365 * 10 ≤ x.start
  order : x.start ≤ x.stop
  fits : x.stop < 2 ^ 63
  column : ∀ i, i < x.im.gdesC → x.isXport i = true → (x.im.gdes i).vidx < i ∧
    ((x.im.gdes (x.im.gdes i).vidx).gf = .gfDef ∨ (x.im.gdes (x.im.gdes i).vidx).gf = .cdef)

variable {x : XportCall}

theorem mem_refList {i : ℕ} : i ∈ x.refList ↔ i < x.im.gdesC ∧ x.isXport i = true := by
  rw [XportCall.refList, List.mem_filter, List.mem_range]

/-- The variable of a column has data. -/
theorem regular_column (hx : x.Valid) (hcalc : dataCalc env x.im = .ok im) {i : ℕ} (hi : i ∈ x.refList) :
    (XportCall.column im i).Regular := by
  obtain ⟨hlt, hxport⟩ := mem_refList.mp hi
  obtain ⟨hvidx, hgf⟩ := hx.column i hlt hxport
  obtain ⟨hvalid, hcount⟩ := validFrom_calcEntries hx.toValidFrom le_rfl hcalc
  have hkinds := sameKinds_calcEntries hcalc
  rw [XportCall.column, (hkinds i).2]
  refine hvalid.regular _ (by omega) ?_
  rw [(hkinds _).1]
  exact hgf.imp_right fun hcdef => ⟨hcdef, hvidx.trans hlt⟩

/-- **The columns cover the exported window**: each begins by the first exported time, and ends after the last. -/
def XportCall.Covered (x : XportCall) (im : ImageDesc) : Prop :=
  ∀ i ∈ x.refList, (x.window im).rows ≠ 0 →
    (XportCall.column im i).start ≤ (x.window im).now 0 ∧
      (x.window im).now ((x.window im).rows - 1) < (XportCall.column im i).stop

theorem mem_xportCells {c : XportCell} :
    c ∈ xportCells x im ↔
      ∃ row < (x.window im).rows, ∃ i ∈ x.refList, xportCell im ((x.window im).now row) i = c := by
  simp only [xportCells, List.mem_flatMap, List.mem_range, List.mem_map]

theorem xportFn_eq_ok {r : XportResult} :
    xportFn env x = .ok r ↔
      ∃ im, dataCalc env x.im = .ok im ∧ x.refList ≠ [] ∧
        env.malloc (x.refList.length * (x.window im).rowCnt) = true ∧
        r = ⟨x.window im, x.refList.length, xportCells x im⟩ := by
  rw [xportFn]
  cases dataCalc env x.im with
  | error e => simp
  | ok im =>
    dsimp only
    by_cases href : x.refList = []
    · simp [href]
    · by_cases hmalloc : env.malloc (x.refList.length * (x.window im).rowCnt) = true
      · rw [if_neg href, hmalloc, if_neg (by decide)]
        constructor
        · intro h
          exact ⟨im, rfl, href, hmalloc, (Except.ok.inj h).symm⟩
        · rintro ⟨im', him, -, -, rfl⟩
          obtain rfl := Except.ok.inj him
          rfl
      · simp [href, hmalloc]

theorem now_mono (w : XportWindow) {a b : ℕ} (hab : a ≤ b) : w.now a ≤ w.now b := by
  rw [XportWindow.now, XportWindow.now]
  have : (a : ℤ) * w.step ≤ b * w.step := mul_le_mul_of_nonneg_right (by exact_mod_cast hab) (by positivity)
  omega

/-- **All exported values are values of the rows that their times are in** exactly if the columns cover the
window. -/
theorem xport_inside_iff {r : XportResult} (hx : x.Valid) (hcalc : dataCalc env x.im = .ok im)
    (hrun : xportFn env x = .ok r) :
    (∀ c ∈ r.cells, (im.gdes c.vidx).HasRow c.now c.pos ∧ c.value = (im.gdes c.vidx).data c.pos) ↔ x.Covered im := by
  obtain ⟨im₁, hcalc₁, -, -, rfl⟩ := xportFn_eq_ok.mp hrun
  obtain rfl := Except.ok.inj (hcalc.symm.trans hcalc₁)
  have hcell (row i : ℕ) (hi : i ∈ x.refList) :
      (im.gdes (xportCell im ((x.window im).now row) i).vidx).HasRow (xportCell im ((x.window im).now row) i).now
          (xportCell im ((x.window im).now row) i).pos ↔
        (XportCall.column im i).start ≤ (x.window im).now row ∧ (x.window im).now row < (XportCall.column im i).stop :=
    hasRow_xportPos_iff (regular_column hx hcalc hi)
  simp only [mem_xportCells]
  constructor
  · intro h i hi hrows
    have hfirst := (h _ ⟨0, Nat.pos_of_ne_zero hrows, i, hi, rfl⟩).1
    have hlast := (h _ ⟨(x.window im).rows - 1, Nat.sub_one_lt hrows, i, hi, rfl⟩).1
    rw [hcell 0 i hi] at hfirst
    rw [hcell _ i hi] at hlast
    exact ⟨hfirst.1, hlast.2⟩
  · rintro h c ⟨row, hrow, i, hi, rfl⟩
    obtain ⟨hfirst, hlast⟩ := h i hi (Nat.ne_zero_of_lt hrow)
    refine ⟨(hcell row i hi).mpr ⟨?_, ?_⟩, rfl⟩
    · exact hfirst.trans (now_mono _ (Nat.zero_le row))
    · exact (now_mono _ (Nat.le_sub_one_of_lt hrow)).trans_lt hlast

/-! ## Windows that are fetched -/

/-- The variable has rows from `first` to `last`. -/
def GraphDesc.Covers (v : GraphDesc) (first last : ℤ) : Prop := v.start ≤ first ∧ last < v.stop

theorem kind_of_mem_dataVars (h : im.ValidFrom k) (hk : k < im.gdesC) (hcdef : (im.gdes k).gf = .cdef) {i : ℕ}
    (hi : i ∈ dataVars im.gdes (im.gdes k).rpnp) : i < k ∧ ((im.gdes i).gf = .gfDef ∨ (im.gdes i).gf = .cdef) := by
  obtain ⟨n, hn, rfl⟩ := List.mem_map.mp hi
  obtain ⟨hmem, hdata⟩ := List.mem_filter.mp hn
  obtain ⟨hlt, hnamed⟩ := (h.cdef k le_rfl hk hcdef).2 n hmem (of_decide_eq_true hdata).1
  refine ⟨hlt, hnamed.imp_right fun hkind => hkind.resolve_left fun hvdef => ?_⟩
  exact absurd (h.vdef n.ptr hlt hvdef) (of_decide_eq_true hdata).2

variable {first last : ℤ}

/-- A `CDEF` covers what its variables do. -/
theorem covers_calcCdef (hfirst : 0 ≤ first) (h : im.ValidFrom k) (hk : k < im.gdesC)
    (hcdef : (im.gdes k).gf = .cdef)
    (hcovers : ∀ i < k, (im.gdes i).gf = .gfDef ∨ (im.gdes i).gf = .cdef → (im.gdes i).Covers first last)
    (hrun : calcCdef env im k = .ok im') : (im'.gdes k).Covers first last := by
  obtain ⟨hvars, s, -, rfl⟩ := calcCdef_eq_ok hrun
  have hmem (i : ℕ) (hi : i ∈ dataVars im.gdes (im.gdes k).rpnp) : (im.gdes i).Covers first last := by
    obtain ⟨hlt, hkind⟩ := kind_of_mem_dataVars h hk hcdef hi
    exact hcovers i hlt hkind
  dsimp only
  rw [Function.update_self, GraphDesc.Covers]
  dsimp only
  rw [cdefJob, scanNodes_eq]
  constructor
  · rcases (Extent.latest_spec ((dataVars im.gdes (im.gdes k).rpnp).map fun i => (im.gdes i).start)).1 with hzero | hstart
    · rw [hzero]
      exact hfirst
    · obtain ⟨i, hi, hstart⟩ := List.mem_map.mp hstart
      rw [← hstart]
      exact (hmem i hi).1
  · have hne : ((dataVars im.gdes (im.gdes k).rpnp).map fun i => (im.gdes i).stop) ≠ [] :=
      fun hnil => hvars (List.map_eq_nil_iff.mp hnil)
    obtain ⟨i, hi, hstop⟩ := List.mem_map.mp (Extent.earliest_mem hne)
    rw [← hstop]
    exact (hmem i hi).2

/-- One element that is no `SHIFT`. -/
theorem covers_calcEntry (hfirst : 0 ≤ first) (h : im.ValidFrom k) (hk : k < im.gdesC)
    (hshift : (im.gdes k).gf ≠ .shift)
    (hcovers : ∀ i, (im.gdes i).gf = .gfDef ∧ i < im.gdesC ∨ (im.gdes i).gf = .cdef ∧ i < k →
      (im.gdes i).Covers first last) (hrun : calcEntry env im k = .ok im') :
    ∀ i, (im.gdes i).gf = .gfDef ∧ i < im.gdesC ∨ (im.gdes i).gf = .cdef ∧ i < k + 1 →
      (im'.gdes i).Covers first last := by
  intro i hkind
  have hbefore (hne : i ≠ k) : (im.gdes i).Covers first last :=
    hcovers i (hkind.imp_right fun hcdef => ⟨hcdef.1, by omega⟩)
  -- an element that is not calculated keeps its window
  have hother (hgf : (im.gdes k).gf ≠ .cdef) : (im.gdes i).Covers first last :=
    hcovers i (hkind.imp_right fun hcdef => ⟨hcdef.1, lt_of_le_of_ne (Nat.le_of_lt_succ hcdef.2) fun hik =>
      hgf (hik ▸ hcdef.1)⟩)
  rw [calcEntry] at hrun
  cases hgf : (im.gdes k).gf with
  | shift => exact absurd hgf hshift
  | vdef =>
    simp only [hgf] at hrun
    have hwindow := hother (by rw [hgf]; decide)
    rw [calcVdef] at hrun
    cases hval : env.vdefCalc (Function.update im.gdes k { im.gdes k with dsCnt := 0 }) k with
    | none => simp [hval] at hrun
    | some val =>
      simp only [hval] at hrun
      obtain rfl := Except.ok.inj hrun
      dsimp only
      by_cases hik : i = k
      · subst hik
        rw [Function.update_self, Function.update_self]
        exact hwindow
      · rw [Function.update_of_ne hik, Function.update_of_ne hik]
        exact hwindow
  | cdef =>
    simp only [hgf] at hrun
    by_cases hik : i = k
    · subst hik
      refine covers_calcCdef hfirst h hk hgf (fun j hj hjkind => hcovers j ?_) hrun
      exact hjkind.imp (fun hdef => ⟨hdef, hj.trans hk⟩) fun hcdef => ⟨hcdef, hj⟩
    · obtain ⟨-, s, -, rfl⟩ := calcCdef_eq_ok hrun
      dsimp only
      rw [Function.update_of_ne hik]
      exact hbefore hik
  | gfDef =>
    simp only [hgf] at hrun
    obtain rfl := Except.ok.inj hrun
    exact hother (by rw [hgf]; decide)
  | other =>
    simp only [hgf] at hrun
    obtain rfl := Except.ok.inj hrun
    exact hother (by rw [hgf]; decide)

/-- **All elements.** -/
theorem covers_calcEntries (hfirst : 0 ≤ first) (h : im.ValidFrom 0) (hk : k ≤ im.gdesC)
    (hshift : ∀ i, i < im.gdesC → (im.gdes i).gf ≠ .shift)
    (hdefs : ∀ i, i < im.gdesC → (im.gdes i).gf = .gfDef → (im.gdes i).Covers first last)
    (hrun : calcEntries env k im = .ok im') :
    ∀ i, (im.gdes i).gf = .gfDef ∧ i < im.gdesC ∨ (im.gdes i).gf = .cdef ∧ i < k → (im'.gdes i).Covers first last := by
  induction k generalizing im' with
  | zero =>
    obtain rfl := Except.ok.inj hrun
    rintro i (⟨hdef, hi⟩ | ⟨-, hi⟩)
    · exact hdefs i hi hdef
    · exact absurd hi (Nat.not_lt_zero i)
  | succ k ih =>
    obtain ⟨im₁, hrun₁, hentry⟩ := bind_eq_ok.mp hrun
    have hkinds := sameKinds_calcEntries hrun₁
    obtain ⟨hvalid, hcount⟩ := validFrom_calcEntries h (by omega) hrun₁
    have hstep := covers_calcEntry hfirst hvalid (by omega) (by rw [(hkinds k).1]; exact hshift k (by omega))
      (by simpa only [(hkinds _).1, hcount] using ih (by omega) hrun₁) hentry
    simpa only [(hkinds _).1, hcount] using hstep

theorem toUlong_of_nonneg {z : ℤ} (hlo : 0 ≤ z) (hhi : z < 2 ^ 64) : (toUlong z : ℤ) = z := by
  rw [toUlong, Int.emod_eq_of_lt hlo (by exact_mod_cast hhi), Int.toNat_of_nonneg hlo]

theorem XportWindow.rows_eq {w : XportWindow} (h : w.rowCnt < 2 ^ 31) : w.rows = w.rowCnt := by
  have hmod : (w.rowCnt : ℤ).bmod (2 ^ 32) = w.rowCnt := Int.bmod_eq_of_le (by omega) (by omega)
  exact congrArg Int.toNat hmod

/-- The exported rows begin at a multiple of the step, and end by the end of the command line. -/
theorem window_inside (hx : x.Valid) (hrows : (x.window im).rowCnt < 2 ^ 31) (hne : (x.window im).rows ≠ 0) :
    (x.window im).now 0 = x.start - x.start % (x.window im).step ∧
      (x.window im).now ((x.window im).rows - 1) ≤ x.stop := by
  have hlo : 0 ≤ x.start := le_trans (by norm_num) hx.first
  have hle := hx.order
  have hfits := hx.fits
  rw [XportWindow.rows_eq hrows] at hne ⊢
  simp only [XportWindow.now, XportCall.window] at hne ⊢
  generalize lcd (x.refList.map fun i => (XportCall.column im i).step) = g at hne ⊢
  rw [Int.natCast_mod, Int.natCast_mod, toUlong_of_nonneg hlo (by omega), toUlong_of_nonneg (hlo.trans hle) (by omega)]
    at hne ⊢
  refine ⟨by rw [Nat.cast_zero, zero_mul, add_zero], ?_⟩
  have hg : 0 < g := Nat.pos_of_ne_zero fun hzero => hne (by rw [hzero, Nat.div_zero])
  have hstop := Int.emod_nonneg x.stop (by omega : (g : ℤ) ≠ 0)
  have hstop' := Int.emod_lt_of_pos x.stop (by omega : (0 : ℤ) < g)
  have hstart := Int.emod_nonneg x.start (by omega : (g : ℤ) ≠ 0)
  generalize hz : x.stop - x.stop % g + g - (x.start - x.start % g) = z at hne ⊢
  have hpos : 0 ≤ z := by omega
  have hcount : ((toUlong z / g : ℕ) : ℤ) * g ≤ z := by
    have hdiv : toUlong z / g * g ≤ toUlong z := Nat.div_mul_le_self _ _
    have hmod : (toUlong z : ℤ) ≤ z := by
      rw [toUlong]
      omega
    exact le_trans (by exact_mod_cast hdiv) hmod
  generalize toUlong z / g = n at hne hcount ⊢
  rw [Nat.cast_sub (by omega), Nat.cast_one, sub_mul, one_mul]
  omega

/-- **Without shifts, an export is inside of its columns** where every `DEF` has rows for the whole time of the
command line. -/
theorem covered_of_covers (hx : x.Valid) (hcalc : dataCalc env x.im = .ok im)
    (hshift : ∀ i, i < x.im.gdesC → (x.im.gdes i).gf ≠ .shift)
    (hdefs : ∀ i, i < x.im.gdesC → (x.im.gdes i).gf = .gfDef → (x.im.gdes i).Covers x.start x.stop)
    (hrows : (x.window im).rowCnt < 2 ^ 31) : x.Covered im := by
  have hcovers := covers_calcEntries (by have := hx.first; omega) hx.toValidFrom le_rfl hshift hdefs hcalc
  have hkinds := sameKinds_calcEntries hcalc
  intro i hi hne
  obtain ⟨hfirst, hlast⟩ := window_inside hx hrows hne
  have hv := regular_column hx hcalc hi
  have hcolumn : (XportCall.column im i).Covers x.start x.stop := by
    obtain ⟨hlt, hxport⟩ := mem_refList.mp hi
    obtain ⟨hvidx, hkind⟩ := hx.column i hlt hxport
    rw [XportCall.column, (hkinds i).2]
    exact hcovers _ (hkind.imp (fun hdef => ⟨hdef, hvidx.trans hlt⟩) fun hcdef => ⟨hcdef, hvidx.trans hlt⟩)
  refine ⟨?_, hlast.trans_lt hcolumn.2⟩
  -- the common step divides the start of the column
  have hsteps : 0 < (x.window im).step ∧ (x.window im).step ∣ (XportCall.column im i).step := by
    have hlcd := @lcd_isGreatest (x.refList.map fun i => (XportCall.column im i).step)
      (List.ne_nil_of_mem (List.mem_map_of_mem hi)) (List.forall_mem_map.mpr fun j hj => (regular_column hx hcalc hj).step)
    exact ⟨hlcd.1, hlcd.2.1 _ (List.mem_map_of_mem hi)⟩
  obtain ⟨m, hm⟩ := (Int.natCast_dvd_natCast.mpr hsteps.2).trans hv.start
  have hg : (0 : ℤ) < (x.window im).step := by exact_mod_cast hsteps.1
  have hle : m ≤ x.start / (x.window im).step := by
    rw [Int.le_ediv_iff_mul_le hg, mul_comm, ← hm]
    exact hcolumn.1
  have hfloor : x.start - x.start % (x.window im).step = (x.window im).step * (x.start / (x.window im).step) := by
    have := Int.emod_add_mul_ediv x.start (x.window im).step
    omega
  rw [hfirst, hfloor, hm]
  exact mul_le_mul_of_nonneg_left hle hg.le

/-! ## An export of one column -/

/-- `DEF:a=..` with `n` rows of 300 seconds from 1200000000 on, `XPORT:a`, exported until 1200000600. -/
def exportedGraph (n : ℕ) : XportCall where
  im :=
    { gdes := fun i =>
        if i = 0 then { blankDesc .gfDef with start := 1200000000, stop := 1200000000 + n * 300, rows := n }
        else blankDesc .other
      gdesC := 2
      stack := ⟨fun _ => dnan, fun _ => false, 0, fun _ => 0⟩ }
  isXport := fun i => i = 1
  start := 1200000000
  stop := 1200000600

theorem exportedGraph_regular (n : ℕ) : ((exportedGraph n).im.gdes 0).Regular := by
  refine ⟨Nat.succ_pos 299, ?_, ?_, dvd_zero _, Nat.one_pos, fun _ => ?_⟩
  · exact (by decide : (300 : ℤ) ∣ 1200000000)
  · change (300 : ℤ) ∣ 1200000000 + n * 300
    omega
  · change (n : ℤ) = (1200000000 + n * 300 - 1200000000) / 300
    omega

theorem exportedGraph_valid (n : ℕ) : (exportedGraph n).Valid := by
  have hgf : ∀ i, i < 2 → i = 0 ∨ i = 1 := by omega
  refine ⟨⟨⟨?_, fun i hi => absurd hi (Nat.not_lt_zero i), ?_, ?_⟩, ?_⟩, ?_, ?_, ?_, ?_⟩
  · intro i hi hkind
    rcases hgf i hi with rfl | rfl
    · exact exportedGraph_regular n
    · rcases hkind with hkind | ⟨hkind, -⟩
      · cases hkind
      · cases hkind
  · intro i _ hi hkind
    rcases hgf i hi with rfl | rfl
    · cases hkind
    · cases hkind
  · intro i _ hi hkind
    rcases hgf i hi with rfl | rfl
    · cases hkind
    · cases hkind
  · intro i hi hkind
    rcases hgf i hi with rfl | rfl
    · change (0 : ℤ) < 1200000000 ∧ (0 : ℤ) < 1200000000 + n * 300
      omega
    · cases hkind
  · exact (by decide : (3600 * 24 * 365 * 10 : ℤ) ≤ 1200000000)
  · exact (by decide : (1200000000 : ℤ) ≤ 1200000600)
  · exact (by decide : (1200000600 : ℤ) < 2 ^ 63)
  · intro i hi hxport
    obtain rfl : i = 1 := of_decide_eq_true hxport
    exact ⟨Nat.one_pos, .inl rfl⟩

theorem xportFn_exportedGraph (n : ℕ) : xportFn plainEnv (exportedGraph n) =
    .ok ⟨(exportedGraph n).window (exportedGraph n).im, 1, xportCells (exportedGraph n) (exportedGraph n).im⟩ :=
  xportFn_eq_ok.mpr ⟨_, rfl, List.cons_ne_nil 1 [], rfl, rfl⟩

/-- Three rows cover the export. -/
theorem xport_inside_exportedGraph : ∃ r, xportFn plainEnv (exportedGraph 3) = .ok r ∧
    ∀ c ∈ r.cells, ((exportedGraph 3).im.gdes c.vidx).HasRow c.now c.pos ∧
      c.value = ((exportedGraph 3).im.gdes c.vidx).data c.pos := by
  refine ⟨_, xportFn_exportedGraph 3, (xport_inside_iff (exportedGraph_valid 3) rfl (xportFn_exportedGraph 3)).mpr ?_⟩
  intro i hi _
  obtain rfl : i = 1 := of_decide_eq_true (mem_refList.mp hi).2
  exact ⟨by decide, by decide⟩

/-- One row does not: the last value is read behind the data. -/
theorem xport_reads_behind : ¬ ∀ (env : GraphEnv) (x : XportCall) (im : ImageDesc) (r : XportResult), x.Valid →
    dataCalc env x.im = .ok im → xportFn env x = .ok r →
    ∀ c ∈ r.cells, (im.gdes c.vidx).HasRow c.now c.pos ∧ c.value = (im.gdes c.vidx).data c.pos := by
  intro h
  have hmem : xportCell (exportedGraph 1).im (((exportedGraph 1).window (exportedGraph 1).im).now 2) 1 ∈
      xportCells (exportedGraph 1) (exportedGraph 1).im := mem_xportCells.mpr ⟨2, by decide, 1, by decide, rfl⟩
  have hcell := h plainEnv _ _ _ (exportedGraph_valid 1) rfl (xportFn_exportedGraph 1) _ hmem
  have hinside := (hasRow_xportPos_iff (exportedGraph_regular 1)).mp hcell.1
  exact absurd hinside.2 (by decide)

end Rrdtool
