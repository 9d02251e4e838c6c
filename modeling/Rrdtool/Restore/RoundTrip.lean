import Rrdtool.Reach
import Rrdtool.Restore.DumpDocument

/-!
# Dump and restore

What `rrd_restore` writes for the document that `rrd_dump` has written: values are rounded to eleven digits, the ring
begins with its newest row, and what is not in the document has been cleared. A dump of the new file is the same
document again.

* `writtenRra_eq` — the two writes turn the ring;
* `Migrated` — the file that comes back;
* `restore_dump` — dump and restore;
* `roundTrips_iff` — which of the files that can be dumped come back as they were;
* `restore_fetch` — what a fetch returns from the file that comes back.
-/

namespace Rrdtool

open Xml

/-! ## What is written -/

namespace Restore

variable {r : Rrd}

/-- **The two writes turn the ring**: the last row comes first. -/
theorem writtenRra_eq (dsCnt rraOffset : ℕ) (values : ℕ → RrdValue) {rra : RraEntry} (hcur : rra.curRow = 0)
    (hrows : 0 < rra.rowCnt) : writtenRra dsCnt values rraOffset rra = (List.range (rra.rowCnt * dsCnt)).map fun p =>
      values (rraOffset * dsCnt + (p + (rra.rowCnt - 1) * dsCnt) % (rra.rowCnt * dsCnt)) := by
  obtain ⟨n, hn⟩ := Nat.exists_eq_succ_of_ne_zero hrows.ne'
  have hsplit : rra.rowCnt * dsCnt = dsCnt + n * dsCnt := by rw [hn, Nat.succ_mul, Nat.add_comm]
  have hlast : (rraOffset + rra.rowCnt - 1) * dsCnt = rraOffset * dsCnt + n * dsCnt := by
    rw [hn, ← Nat.add_mul]
    rfl
  rw [writtenRra, if_pos hrows, hcur, Nat.zero_add, Nat.one_mul, Nat.sub_zero, Nat.sub_zero, hlast, hsplit,
    List.range_add, List.map_append, List.map_map, hn, Nat.succ_sub_one]
  congr 1
  · refine List.map_congr_left fun p hp => ?_
    rw [Nat.mod_eq_of_lt (Nat.add_lt_add_right (List.mem_range.mp hp) _), Nat.add_assoc, Nat.add_comm p]
  · refine List.map_congr_left fun p hp => ?_
    have hwrap : dsCnt + p + n * dsCnt = p + (dsCnt + n * dsCnt) := by
      rw [Nat.add_comm dsCnt p, Nat.add_assoc]
    rw [Function.comp, hwrap, Nat.add_mod_right,
      Nat.mod_eq_of_lt ((List.mem_range.mp hp).trans_le (Nat.le_add_left _ _))]

/-- One more RRA. -/
theorem writtenValues_append (dsCnt : ℕ) (values : ℕ → RrdValue) (rraOffset : ℕ) (rras : List RraEntry) (rra : RraEntry)
    (h : rraOffset + (rras.map RraEntry.rowCnt).sum < 2 ^ 32) : writtenValues dsCnt values rraOffset (rras ++ [rra]) =
      writtenValues dsCnt values rraOffset rras ++
        writtenRra dsCnt values (rraOffset + (rras.map RraEntry.rowCnt).sum) rra := by
  induction rras generalizing rraOffset with
  | nil => simp [writtenValues]
  | cons first rras ih =>
    rw [List.map_cons, List.sum_cons, ← Nat.add_assoc] at h
    have hfirst : (rraOffset + first.rowCnt) % 2 ^ 32 = rraOffset + first.rowCnt :=
      Nat.mod_eq_of_lt (Nat.lt_of_le_of_lt (Nat.le_add_right _ _) h)
    rw [List.cons_append, writtenValues, writtenValues, hfirst, ih _ h, List.append_assoc, List.map_cons, List.sum_cons,
      Nat.add_assoc]

/-- **The values of the file**: they are as many as the definitions ask for, and each RRA has its own, turned. -/
theorem writtenValues_restored (h : Dumpable r) (values : ℕ → RrdValue) {n : ℕ} (hn : n ≤ r.rraCnt) :
    (writtenValues r.dsCnt values 0 ((List.range n).map (rraEntry r))).length = r.rraStart n ∧
      ∀ i < n, ∀ p < (r.rraDef i).rowCnt * r.dsCnt,
        (writtenValues r.dsCnt values 0 ((List.range n).map (rraEntry r)))[r.rraStart i + p]? =
          some (values (r.rraStart i +
            (p + ((r.rraDef i).rowCnt - 1) * r.dsCnt) % ((r.rraDef i).rowCnt * r.dsCnt))) := by
  induction n with
  | zero => exact ⟨rfl, fun i hi => absurd hi (Nat.not_lt_zero i)⟩
  | succ n ih =>
    obtain ⟨hlen, hget⟩ := ih (Nat.le_of_succ_le hn)
    have hsum : ((List.range n).map (rraEntry r)).map RraEntry.rowCnt = (List.range n).map fun i => (r.rraDef i).rowCnt := by
      rw [List.map_map]
      rfl
    have hrows : 0 + (((List.range n).map (rraEntry r)).map RraEntry.rowCnt).sum < 2 ^ 32 := by
      rw [hsum, Nat.zero_add]
      exact (r.rowSum_mono (Nat.le_of_succ_le hn)).trans_lt h.rows_lt
    have hstart : r.rowSum n * r.dsCnt = r.rraStart n := by rw [Rrd.rraStart_eq_rowSum, Nat.mul_comm]
    have hcount : (rraEntry r n).rowCnt = (r.rraDef n).rowCnt := rfl
    have hrra := writtenRra_eq r.dsCnt (r.rowSum n) values (show (rraEntry r n).curRow = 0 from rfl)
      (hcount.symm ▸ (h.rra n hn).rowCnt)
    rw [hstart, hcount] at hrra
    rw [List.range_succ, List.map_append, List.map_singleton, writtenValues_append _ _ _ _ _ hrows, hsum, Nat.zero_add]
    rw [Rrd.rowSum] at hrra
    rw [hrra]
    constructor
    · rw [List.length_append, hlen, List.length_map, List.length_range]
      rfl
    · intro i hi p hp
      rcases Nat.lt_succ_iff_lt_or_eq.mp hi with hlt | rfl
      · have hbefore : r.rraStart i + p < r.rraStart n :=
          (Nat.add_lt_add_left hp _).trans_le (r.rraStart_mono hlt)
        rw [List.getElem?_append_left (hlen.symm ▸ hbefore), hget i hlt p hp]
      · rw [List.getElem?_append_right (hlen.symm ▸ Nat.le_add_right _ _), hlen, Nat.add_sub_cancel_left,
          List.getElem?_map, List.getElem?_range hp, Option.map_some]

end Restore

/-! ## The file that comes back -/

/-- **The file that comes back from a dump.** -/
structure Migrated (r r' : Rrd) : Prop where
  version : r'.version = if r.version ≤ 3 then 3 else 4
  dsCnt : r'.dsCnt = r.dsCnt
  rraCnt : r'.rraCnt = r.rraCnt
  pdpStep : r'.pdpStep = r.pdpStep
  lastUp : r'.lastUp = r.lastUp
  lastUpUsec : r'.lastUpUsec = 0
  dsDef : ∀ d < r.dsCnt, r'.dsDef d = (r.dsDef d).dumped
  pdpPrep : ∀ d < r.dsCnt, r'.pdpPrep d = (r.pdpPrep d).dumped
  rraDef : ∀ i < r.rraCnt, r'.rraDef i = (r.rraDef i).dumped r.version
  cdpPrep : ∀ i < r.rraCnt, ∀ d < r.dsCnt,
    r'.cdpPrep (r'.cdpIdx i d) = (r.cdpPrep (r.cdpIdx i d)).dumped (r.rraDef i)
  curRow : ∀ i < r.rraCnt, r'.curRow i = 0
  values : ∀ i < r.rraCnt, ∀ k < (r.rraDef i).rowCnt, ∀ d < r.dsCnt,
    r'.values (r'.cellPos i (r'.rowByAge i k) d) = dumped (r.values (r.cellPos i (r.rowByAge i k) d))
  valueCnt : r'.valueCnt = r.wantedCnt

/-- The blocks are where they are by the rows in front. -/
theorem Rrd.rraStart_of_rowCnt {r s : Rrd} {n : ℕ} (hd : r.dsCnt = s.dsCnt)
    (h : ∀ i < n, (r.rraDef i).rowCnt = (s.rraDef i).rowCnt) : r.rraStart n = s.rraStart n := by
  induction n with
  | zero => rfl
  | succ n ih =>
    rw [Rrd.rraStart_succ, Rrd.rraStart_succ, ih fun i hi => h i (Nat.lt_succ_of_lt hi), h n n.lt_succ_self, hd]

@[simp] theorem RraDef.dumped_cf (version : ℕ) (rra : RraDef) : (rra.dumped version).cf = rra.cf := by
  unfold RraDef.dumped
  cases rra.cf <;> rfl

@[simp] theorem RraDef.dumped_rowCnt (version : ℕ) (rra : RraDef) : (rra.dumped version).rowCnt = rra.rowCnt := by
  unfold RraDef.dumped
  cases rra.cf <;> rfl

@[simp] theorem RraDef.dumped_pdpCnt (version : ℕ) (rra : RraDef) : (rra.dumped version).pdpCnt = rra.pdpCnt := by
  unfold RraDef.dumped
  cases rra.cf <;> rfl

namespace Restore

variable {r r' : Rrd}

theorem toDsDef_dsEntry {d : ℕ} (h : ReadableDs r d) : (dsEntry r d).toDsDef = (r.dsDef d).dumped := by
  have hdst : (dstConv (dsEntry r d).dst).getD .gauge = (r.dsDef d).dst := by
    rw [dsEntry, dstConv_dstName]
    rfl
  rw [DsEntry.toDsDef, hdst]
  by_cases hcdef : (r.dsDef d).dst = .cdef
  · obtain ⟨prog, s, hpar, -⟩ := h.cdef hcdef
    have hprog : (r.dsDef d).cdef = prog := by rw [DsDef.cdef, hpar]
    rw [dsEntry, if_pos hcdef, DsDef.dumped, hpar, hprog]
    rfl
  · obtain ⟨n, lo, hi, hpar, -⟩ := h.limits hcdef
    have hmrhb : (r.dsDef d).mrhbCnt = n := by rw [DsDef.mrhbCnt, hpar]
    have hmin : (r.dsDef d).minVal = lo := by rw [DsDef.minVal, hpar]
    have hmax : (r.dsDef d).maxVal = hi := by rw [DsDef.maxVal, hpar]
    rw [dsEntry, if_neg hcdef, DsDef.dumped, hpar, hmrhb, hmin, hmax]
    rfl

theorem toRraDef_rraEntry (r : Rrd) (i : ℕ) : (rraEntry r i).toRraDef = (r.rraDef i).dumped r.version := by
  have hcf : (cfConv (rraEntry r i).cfNam).getD .average = (r.rraDef i).cf := by
    have hname : (rraEntry r i).cfNam = (cfName (r.rraDef i).cf).toList := rfl
    rw [hname, cfConv_cfName]
    rfl
  rw [RraEntry.toRraDef, hcf]
  have hrest : (r.rraDef i).dumped r.version = ⟨((r.rraDef i).dumped r.version).cf, ((r.rraDef i).dumped r.version).rowCnt,
      ((r.rraDef i).dumped r.version).pdpCnt, (rraEntry r i).xffVal, (rraEntry r i).hwAlpha, (rraEntry r i).hwBeta,
      (rraEntry r i).dependentRraIdx, (rraEntry r i).seasonalSmoothIdx, (rraEntry r i).failureThreshold⟩ := rfl
  rw [hrest]
  simp only [RraDef.dumped_cf, RraDef.dumped_rowCnt, RraDef.dumped_pdpCnt]
  rfl

/-- A column of a row, in a table of `n` rows. -/
theorem column_lt {c d n row : ℕ} (hd : d < c) (hrow : row < n) : c * row + d < c * n := by
  calc c * row + d < c * (row + 1) := Nat.add_lt_add_left hd _
    _ ≤ c * n := Nat.mul_le_mul_left _ hrow

/-- The `cdp_prep` of an RRA and a DS. -/
theorem restored_cdpPrep (r : Rrd) {i d : ℕ} (hi : i < r.rraCnt) (hd : d < r.dsCnt) :
    (restored r r.dsCnt r.rraCnt).cdpPrep (r.cdpIdx i d) = (r.cdpPrep (r.cdpIdx i d)).dumped (r.rraDef i) := by
  have hlt : r.cdpIdx i d < r.dsCnt * r.rraCnt := by
    rw [Rrd.cdpIdx, Nat.mul_comm i]
    exact column_lt hd hi
  have hfill : Fill.fill (fun _ => zeroCdp) 0 (r.dsCnt * r.rraCnt) r.dumpedCdp (0 + r.cdpIdx i d) =
      r.dumpedCdp (r.cdpIdx i d) := Fill.fill_get hlt
  have hrra : r.cdpIdx i d / r.dsCnt = i := by
    rw [Rrd.cdpIdx, Nat.add_comm, Nat.add_mul_div_right _ _ (Nat.zero_lt_of_lt hd), Nat.div_eq_of_lt hd, Nat.zero_add]
  rw [Nat.zero_add, Rrd.dumpedCdp, hrra] at hfill
  exact hfill

/-- The value of a DS, `k` rows behind the oldest one. -/
theorem restored_values (h : Dumpable r) {i k d : ℕ} (hi : i < r.rraCnt) (hk : k < (r.rraDef i).rowCnt)
    (hd : d < r.dsCnt) : ((writtenValues r.dsCnt (r.dumpedValues r.rraCnt) 0 ((List.range r.rraCnt).map (rraEntry r)))[
      r.rraStart i + r.dsCnt * ((0 + 1 + k) % (r.rraDef i).rowCnt) + d]?).getD (.num 0) =
        dumped (r.values (r.cellPos i (r.rowByAge i k) d)) := by
  obtain ⟨-, hget⟩ := writtenValues_restored h (r.dumpedValues r.rraCnt) le_rfl
  -- the rows are turned by one, and turned back
  have hturn : (r.dsCnt * ((0 + 1 + k) % (r.rraDef i).rowCnt) + d + ((r.rraDef i).rowCnt - 1) * r.dsCnt) %
      ((r.rraDef i).rowCnt * r.dsCnt) = r.dsCnt * k + d := by
    obtain ⟨n, hn⟩ := Nat.exists_eq_succ_of_ne_zero (Nat.zero_lt_of_lt hk).ne'
    rw [hn] at hk ⊢
    have hlt : r.dsCnt * k + d < (n + 1) * r.dsCnt := Nat.mul_comm r.dsCnt _ ▸ column_lt hd hk
    rw [Nat.succ_sub_one]
    rcases Nat.lt_succ_iff_lt_or_eq.mp hk with hkn | rfl
    · have hsum : r.dsCnt * (0 + 1 + k) + d + n * r.dsCnt = r.dsCnt * k + d + (n + 1) * r.dsCnt := by ring
      rw [Nat.mod_eq_of_lt (show 0 + 1 + k < n.succ by omega), hsum, Nat.add_mod_right, Nat.mod_eq_of_lt hlt]
    · have hzero : (0 + 1 + k) % k.succ = 0 := by rw [Nat.zero_add, Nat.add_comm, Nat.mod_self]
      rw [hzero, Nat.mul_zero, Nat.zero_add, Nat.add_comm d, Nat.mul_comm k, Nat.mod_eq_of_lt hlt]
  have hrow : (0 + 1 + k) % (r.rraDef i).rowCnt < (r.rraDef i).rowCnt := Nat.mod_lt _ (Nat.zero_lt_of_lt hk)
  have hin := column_lt hd hrow
  rw [Nat.mul_comm r.dsCnt (r.rraDef i).rowCnt] at hin
  rw [Nat.add_assoc, hget i hi _ hin, hturn, Rrd.dumpedValues_get r hi (column_lt hd hk), dumpedRows_row r i k hd]
  rfl

/-- **What has been read is written** as the file that comes back. -/
theorem migrated_write (h : Dumpable r) : Migrated r (restored r r.dsCnt r.rraCnt).write := by
  have hatoi := atoi_versionText r.version
  have hwrite : writeFile (restored r r.dsCnt r.rraCnt).rrd = (restored r r.dsCnt r.rraCnt).rrd := by
    refine if_neg ?_
    rw [restored, hatoi]
    split_ifs <;> decide
  have hds : (restored r r.dsCnt r.rraCnt).rrd.ds.length = r.dsCnt := by simp [restored]
  have hrras : (restored r r.dsCnt r.rraCnt).rrd.rras.length = r.rraCnt := by simp [restored]
  have hgetDs (d : ℕ) (hd : d < r.dsCnt) :
      (restored r r.dsCnt r.rraCnt).rrd.ds.getD d DsEntry.zero = dsEntry r d := by
    rw [restored, List.getD_eq_getElem?_getD, List.getElem?_map, List.getElem?_range hd]
    rfl
  have hgetRra (i : ℕ) (hi : i < r.rraCnt) :
      (restored r r.dsCnt r.rraCnt).rrd.rras.getD i RraEntry.zero = rraEntry r i := by
    rw [restored, List.getD_eq_getElem?_getD, List.getElem?_map, List.getElem?_range hi]
    rfl
  obtain ⟨hlen, hget⟩ := writtenValues_restored h (r.dumpedValues r.rraCnt) le_rfl
  have hrowCnt (i : ℕ) (hi : i < r.rraCnt) :
      ((restored r r.dsCnt r.rraCnt).write.rraDef i).rowCnt = (r.rraDef i).rowCnt := by
    dsimp only [RestoredFile.write]
    rw [hwrite, hgetRra i hi, toRraDef_rraEntry, RraDef.dumped_rowCnt]
  have hcurRow (i : ℕ) (hi : i < r.rraCnt) : (restored r r.dsCnt r.rraCnt).write.curRow i = 0 := by
    dsimp only [RestoredFile.write]
    rw [hwrite, hgetRra i hi]
    rfl
  have hdsCnt : (restored r r.dsCnt r.rraCnt).write.dsCnt = r.dsCnt := by
    dsimp only [RestoredFile.write]
    rw [hwrite, hds]
  have hstart (i : ℕ) (hi : i ≤ r.rraCnt) : (restored r r.dsCnt r.rraCnt).write.rraStart i = r.rraStart i :=
    Rrd.rraStart_of_rowCnt hdsCnt fun j hj => hrowCnt j (hj.trans_le hi)
  refine ⟨?_, hdsCnt, ?_, ?_, ?_, rfl, ?_, ?_, ?_, ?_, hcurRow, ?_, ?_⟩
  · dsimp only [RestoredFile.write]
    rw [hwrite, restored, hatoi]
    split_ifs <;> rfl
  · dsimp only [RestoredFile.write]
    rw [hwrite, hrras]
  · dsimp only [RestoredFile.write]
    rw [hwrite]
    rfl
  · dsimp only [RestoredFile.write]
    rw [hwrite]
    rfl
  · intro d hd
    dsimp only [RestoredFile.write]
    rw [hwrite, hgetDs d hd, toDsDef_dsEntry (h.ds d hd)]
  · intro d hd
    dsimp only [RestoredFile.write]
    rw [hwrite, hgetDs d hd]
    rfl
  · intro i hi
    dsimp only [RestoredFile.write]
    rw [hwrite, hgetRra i hi, toRraDef_rraEntry]
  · intro i hi d hd
    rw [Rrd.cdpIdx, hdsCnt]
    exact restored_cdpPrep r hi hd
  · intro i hi k hk d hd
    rw [Rrd.cellPos, Rrd.rowByAge, hcurRow i hi, hrowCnt i hi, hdsCnt, hstart i hi.le, ← restored_values h hi hk hd]
    dsimp only [RestoredFile.write]
    rw [hwrite, hds, List.getD_eq_getElem?_getD]
    rfl
  · dsimp only [RestoredFile.write]
    rw [hwrite, hds]
    exact hlen

/-! ## A dump of the file that comes back -/

/-- Only the names are printed. -/
theorem printLoop_congr {ds ds' : List DsDef} (h : ds'.map DsDef.dsNam = ds.map DsDef.dsNam) (i : ℕ)
    (prog : List RpnCdefds) (s : PrintSt) : printLoop ds' i prog s = printLoop ds i prog s := by
  have hname (c : RpnCdefds) : (ds'[c.val.toNat]?).map DsDef.dsNam = (ds[c.val.toNat]?).map DsDef.dsNam := by
    rw [← List.getElem?_map, h, List.getElem?_map]
  have hnode (c : RpnCdefds) (s : PrintSt) : printNode ds' c s = printNode ds c s := by
    have hvariable : ((ds'[c.val.toNat]?).bind fun d => addop2str c.op .variable d.dsNam s) =
        (ds[c.val.toNat]?).bind fun d => addop2str c.op .variable d.dsNam s := by
      have hbind := congrArg (fun o : Option Text => o.bind fun n => addop2str c.op .variable n s) (hname c)
      simp only [Option.bind_map] at hbind
      exact hbind
    unfold printNode
    split
    · rfl
    · rw [hvariable]
    · rfl
  induction prog generalizing i s with
  | nil => rfl
  | cons c prog ih =>
    rw [printLoop, printLoop, hnode]
    exact congrArg _ (funext fun t => ih (i + 1) t)

theorem rpnCompact2str_congr {ds ds' : List DsDef} (h : ds'.map DsDef.dsNam = ds.map DsDef.dsNam)
    (prog : List RpnCdefds) : rpnCompact2str ds' prog = rpnCompact2str ds prog := by
  rw [rpnCompact2str, rpnCompact2str, printLoop_congr h]

theorem paramLines_dumped {version version' : ℕ} (h : 4 ≤ version' ↔ 4 ≤ version) (rra : RraDef) :
    paramLines version' (rra.dumped version) = paramLines version rra := by
  unfold paramLines
  rw [RraDef.dumped_cf]
  unfold RraDef.dumped
  cases rra.cf with
  | seasonal | devseasonal =>
    by_cases hversion : 4 ≤ version
    · simp [RraDef.seasonalGamma, RraDef.smoothingWindow, h, hversion]
    · simp [RraDef.seasonalGamma, h, hversion]
  | failures => simp [RraDef.deltaPos, RraDef.deltaNeg, RraDef.windowLen]
  | hwpredict | mhwpredict => simp
  | devpredict => rfl
  | average | minimum | maximum | last => simp

theorem cdpLines_dumped (version : ℕ) (rra : RraDef) (c : CdpPrep) :
    cdpLines (rra.dumped version) (c.dumped rra) = cdpLines rra c := by
  unfold cdpLines
  rw [RraDef.dumped_cf]
  unfold RraDef.dumped CdpPrep.dumped
  cases rra.cf with
  | seasonal | devseasonal => simp [CdpPrep.hwSeasonal, CdpPrep.hwLastSeasonal, CdpPrep.initSeasonal]
  | failures =>
    have hhistory : ((List.range rra.windowLen).map fun i => if i < rra.windowLen && c.violations i then '1' else '0') =
        (List.range rra.windowLen).map fun i => if c.violations i then '1' else '0' := by
      refine List.map_congr_left fun i hi => ?_
      rw [decide_eq_true (List.mem_range.mp hi), Bool.true_and]
    simp only [printValue_dumped]
    rw [← hhistory]
  | hwpredict | mhwpredict => simp
  | devpredict => simp
  | average | minimum | maximum | last => simp

theorem dsPieces_dumped (h : Migrated r r') {d : ℕ} (hd : d < r.dsCnt) : dsPieces r' d = dsPieces r d := by
  have hdefs : r'.dsDefs.map DsDef.dsNam = r.dsDefs.map DsDef.dsNam := by
    rw [Rrd.dsDefs, Rrd.dsDefs, h.dsCnt, List.map_map, List.map_map]
    refine List.map_congr_left fun j hj => ?_
    rw [Function.comp, Function.comp, h.dsDef j (List.mem_range.mp hj)]
    rfl
  have hlimits : (r.dsDef d).dumped.mrhbCnt = (r.dsDef d).mrhbCnt ∧
      printValue (r.dsDef d).dumped.minVal = printValue (r.dsDef d).minVal ∧
      printValue (r.dsDef d).dumped.maxVal = printValue (r.dsDef d).maxVal ∧
      (r.dsDef d).dumped.cdef = (r.dsDef d).cdef := by
    unfold DsDef.dumped DsDef.mrhbCnt DsDef.minVal DsDef.maxVal DsDef.cdef DsPar.dumped
    cases (r.dsDef d).par with
    | generic n lo hi => simp
    | cdef prog => simp
  obtain ⟨hmrhb, hmin, hmax, hcdef⟩ := hlimits
  have hlines : dsLines r' d = dsLines r d := by
    rw [dsLines, dsLines, h.dsDef d hd, hmrhb, hmin, hmax, hcdef, rpnCompact2str_congr hdefs]
    rfl
  rw [dsPieces, dsPieces, hlines, h.dsDef d hd, h.pdpPrep d hd]
  simp only [PdpPrep.dumped, DsDef.dumped, printValue_dumped]

theorem rraPieces_dumped (h : Dumpable r) (hm : Migrated r r') (stamp : ℤ → Text) {i : ℕ} (hi : i < r.rraCnt) :
    rraPieces stamp r' i = rraPieces stamp r i := by
  have hdef := hm.rraDef i hi
  have hsecs : r'.rowSecsU i = r.rowSecsU i := by rw [Rrd.rowSecsU, Rrd.rowSecsU, hdef, RraDef.dumped_pdpCnt, hm.pdpStep]
  have htime (timer : ℤ) : r'.dumpTime i timer = r.dumpTime i timer := by
    rw [Rrd.dumpTime, Rrd.dumpTime, hsecs, hdef, RraDef.dumped_pdpCnt, hm.pdpStep, hm.lastUp]
  have hversion : 4 ≤ r'.version ↔ 4 ≤ r.version := by
    rw [hm.version]
    split_ifs <;> omega
  have hcur : r'.curRow i < (r'.rraDef i).rowCnt := by
    rw [hm.curRow i hi, hdef, RraDef.dumped_rowCnt]
    exact (h.rra i hi).rowCnt
  have hrows : (r'.rraDef i).rowCnt < 2 ^ 32 := by
    rw [hdef, RraDef.dumped_rowCnt]
    exact rowCnt_lt h hi
  have hrow (now : ℤ) (k : ℕ) (hk : k < (r.rraDef i).rowCnt) :
      rowPieces stamp r' now (r'.cellPos i (r'.rowByAge i k) 0) =
        rowPieces stamp r now (r.cellPos i (r.rowByAge i k) 0) := by
    have hvalues : (List.range r.dsCnt).map (fun d =>
        Piece.leaf "v".toList (printValue (r'.values (r'.cellPos i (r'.rowByAge i k) 0 + d)))) =
        (List.range r.dsCnt).map fun d =>
          Piece.leaf "v".toList (printValue (r.values (r.cellPos i (r.rowByAge i k) 0 + d))) := by
      refine List.map_congr_left fun d hd => ?_
      have hvalue : r'.values (r'.cellPos i (r'.rowByAge i k) 0 + d) =
          dumped (r.values (r.cellPos i (r.rowByAge i k) 0 + d)) := hm.values i hi k hk d (List.mem_range.mp hd)
      rw [hvalue, printValue_dumped]
    rw [rowPieces, rowPieces, hm.dsCnt, hvalues]
  have hcdp : (List.range r.dsCnt).flatMap (cdpPieces r' i) = (List.range r.dsCnt).flatMap (cdpPieces r i) := by
    refine List.flatMap_congr fun d hd => ?_
    rw [cdpPieces, cdpPieces, hm.cdpPrep i hi d (List.mem_range.mp hd), hdef, cdpLines_dumped]
  have hall : (List.range (r.rraDef i).rowCnt).flatMap (fun k : ℕ =>
      rowPieces stamp r' (r'.dumpTime i (-long ((r.rraDef i).rowCnt - 1) + k)) (r'.cellPos i (r'.rowByAge i k) 0)) =
      (List.range (r.rraDef i).rowCnt).flatMap fun k : ℕ =>
        rowPieces stamp r (r.dumpTime i (-long ((r.rraDef i).rowCnt - 1) + k)) (r.cellPos i (r.rowByAge i k) 0) := by
    refine List.flatMap_congr fun k hk => ?_
    rw [htime, hrow _ k (List.mem_range.mp hk)]
  have hlast := rowsPieces_dump stamp hcur hrows
  rw [hdef, RraDef.dumped_rowCnt, hall] at hlast
  rw [rraPieces, rraPieces, rowsPieces_dump stamp (h.curRow i hi) (rowCnt_lt h hi)]
  simp only [hdef, RraDef.dumped_rowCnt, RraDef.dumped_cf, RraDef.dumped_pdpCnt, hsecs, hm.dsCnt, hm.pdpStep, hcdp,
    paramLines_dumped hversion] at hlast ⊢
  rw [hlast]

/-- **A dump of the file that comes back** is the same document. -/
theorem dumpPieces_dumped (h : Dumpable r) (hm : Migrated r r') (stamp : ℤ → Text) (header : ℕ) :
    dumpPieces stamp header r' = dumpPieces stamp header r := by
  have hds : (List.range r.dsCnt).mapM (dsPieces r') = (List.range r.dsCnt).mapM (dsPieces r) :=
    mapM_congr fun d hd => dsPieces_dumped hm (List.mem_range.mp hd)
  have hrras : (List.range r.rraCnt).mapM (rraPieces stamp r') = (List.range r.rraCnt).mapM (rraPieces stamp r) :=
    mapM_congr fun i hi => rraPieces_dumped h hm stamp (List.mem_range.mp hi)
  have hversion : versionText r'.version = versionText r.version := by
    rw [hm.version]
    unfold versionText
    split_ifs with h3 h4 h5
    · rfl
    · exact absurd h4 (by decide)
    · exact absurd h5 (by decide)
    · rfl
  rw [dumpPieces, dumpPieces, hm.dsCnt, hm.rraCnt, hds, hrras]
  simp only [rootPieces, hversion, hm.pdpStep, hm.lastUp]

end Restore

/-! ## Dump and restore -/

/-- The document of a dump is restored. -/
theorem Restore.restore_document {read : Text → List Restore.XmlNode} (hread : Faithful Restore.XmlNode.event read)
    {stamp : ℤ → Text} (hstamp : IsStamp stamp) {r : Rrd} (h : Dumpable r) (header random : ℕ) :
    ∃ pieces, dumpPieces stamp header r = some pieces ∧ rrdDump stamp header r = some (render pieces) ∧
      Restore.rrdRestoreFile random (read (render pieces)) = some (Restore.restored r r.dsCnt r.rraCnt).write := by
  obtain ⟨pieces, hpieces, hdoc, hevents⟩ := Restore.dumpPieces_document h hstamp header
  refine ⟨pieces, hpieces, ?_, ?_⟩
  · rw [rrdDump, hpieces]
    rfl
  · have hleft : Restore.view.left ⟨read (render pieces), none, none, []⟩ = Restore.docEvents r ++ [] := by
      rw [List.append_nil, ← hevents]
      exact hread pieces hdoc
    obtain ⟨t, ht, -⟩ := Restore.takes_parseFile h random ⟨read (render pieces), none, none, []⟩ [] rfl hleft
    rw [Restore.rrdRestoreFile, ht]
    rfl

theorem readable_half : Readable (.num (1 / 2)) := by
  have hhalf : |(1 / 2 : ℚ)| = 1 / 2 := abs_of_pos one_half_pos
  have hfour : (2 : ℚ) ^ 2 ≤ 2 ^ 1022 := pow_le_pow_right₀ one_le_two (by norm_num)
  have hone : (1 : ℚ) < 2 ^ 970 := one_lt_pow₀ one_lt_two (by norm_num)
  have htwice : (2 : ℚ) ^ 971 ≤ 2 ^ 1024 := pow_le_pow_right₀ one_le_two (by norm_num)
  refine readable_num ?_ ?_
  · rw [hhalf, CStr.dblMin]
    calc (1 : ℚ) / 2 ^ 1022 ≤ 1 / 2 ^ 2 := one_div_le_one_div_of_le (by norm_num) hfour
      _ = 1 / 2 / 2 := by norm_num
  · rw [hhalf, CStr.dblOverflow, mul_one_div_cancel two_ne_zero]
    refine lt_sub_iff_add_lt.mpr ?_
    calc (1 : ℚ) + 2 ^ 970 < 2 ^ 970 + 2 ^ 970 := by gcongr
      _ = 2 ^ 971 := by rw [← two_mul, ← pow_succ']
      _ ≤ 2 ^ 1024 := htwice

theorem isStamp_single : IsStamp fun _ => "2020-01-01 00:00:00 UTC".toList := by
  intro now
  dsimp only
  exact ⟨by decide, by decide⟩

/-- A new file can be dumped. -/
theorem dumpable_single : Dumpable (rrdCreateFn CreateArgs.single fun _ => 0) where
  pdpStep := by decide
  lastUp := by decide
  ds := by
    intro d hd
    obtain rfl : d = 0 := Nat.lt_one_iff.mp hd
    exact {
      name := ⟨by decide, by decide⟩
      name_length := by decide
      limits := fun _ => ⟨600, dnan, dnan, rfl, by decide, trivial, trivial⟩
      cdef := fun h => absurd h (by decide)
      lastDs := ⟨by decide, by decide⟩
      lastDs_length := by decide
      pdpVal := readable_zero
      unknSecCnt := by decide }
  rra := by
    intro i hi
    obtain rfl : i = 0 := Nat.lt_one_iff.mp hi
    exact {
      rowCnt := by decide
      pdpCnt := by decide
      xffVal := readable_half
      hwAlpha := readable_zero
      hwBeta := readable_zero
      dependentRraIdx := by decide
      seasonalSmoothIdx := by decide
      failureThreshold := by decide
      windowLen := fun h => absurd h (by decide) }
  rowSecs := fun _ _ => (by decide : ulong (1 * 300) ≠ 0)
  curRow := fun _ _ => (by decide : 0 % 3 < 3)
  cdp := by
    intro i hi d hd
    obtain rfl : i = 0 := Nat.lt_one_iff.mp hi
    obtain rfl : d = 0 := Nat.lt_one_iff.mp hd
    exact {
      cdpVal := trivial
      unknPdpCnt := by decide
      hwIntercept := readable_zero
      hwLastIntercept := readable_zero
      hwSlope := readable_zero
      hwLastSlope := readable_zero
      nullCount := by decide
      lastNullCount := by decide
      primaryVal := readable_zero
      secondaryVal := readable_zero }
  values := by
    intro p _
    dsimp only [rrdCreateFn]
    split_ifs
    · trivial
    · exact readable_zero
  rows_lt := by decide
  wantedCnt_lt := by decide

/-- **The same file after rounding**: the definitions with the parameters of their consolidation functions, the last
update to the microsecond, the preparation areas, and the rows of each ring from the oldest one on. -/
structure SameRounded (r r' : Rrd) : Prop where
  dsCnt : r'.dsCnt = r.dsCnt
  rraCnt : r'.rraCnt = r.rraCnt
  pdpStep : r'.pdpStep = r.pdpStep
  lastUp : r'.lastUp = r.lastUp
  lastUpUsec : r'.lastUpUsec = r.lastUpUsec
  dsDef : ∀ d < r.dsCnt, r'.dsDef d = (r.dsDef d).dumped
  pdpPrep : ∀ d < r.dsCnt, r'.pdpPrep d = (r.pdpPrep d).dumped
  rraDef : ∀ i < r.rraCnt, r'.rraDef i = (r.rraDef i).dumped 4
  cdpPrep : ∀ i < r.rraCnt, ∀ d < r.dsCnt,
    r'.cdpPrep (r'.cdpIdx i d) = (r.cdpPrep (r.cdpIdx i d)).dumped (r.rraDef i)
  values : ∀ i < r.rraCnt, ∀ k < (r.rraDef i).rowCnt, ∀ d < r.dsCnt,
    r'.values (r'.cellPos i (r'.rowByAge i k) d) = dumped (r.values (r.cellPos i (r.rowByAge i k) d))

/-- **The round trip**: what is restored from the dump of a file is the same file. -/
def RoundTrips (read : Text → List Restore.XmlNode) (stamp : ℤ → Text) (header random : ℕ) (r : Rrd) : Prop :=
  ∃ doc r', rrdDump stamp header r = some doc ∧ Restore.rrdRestoreFile random (read doc) = some r' ∧ SameRounded r r'

/-- No smoothing window is lost: it is printed, or it is the zero that is restored without it. -/
def RraDef.WindowKept (version : ℕ) (rra : RraDef) : Prop :=
  rra.cf = .seasonal ∨ rra.cf = .devseasonal → 4 ≤ version ∨ Rrdtool.dumped rra.smoothingWindow = .num 0

theorem RraDef.dumped_seasonal_iff (version : ℕ) {rra : RraDef} (hcf : rra.cf = .seasonal ∨ rra.cf = .devseasonal) :
    rra.dumped version = rra.dumped 4 ↔
      (if 4 ≤ version then Rrdtool.dumped rra.smoothingWindow else .num 0) = Rrdtool.dumped rra.smoothingWindow := by
  unfold RraDef.dumped
  rcases hcf with hcf | hcf <;> simp [hcf]

theorem RraDef.dumped_four_iff (version : ℕ) (rra : RraDef) :
    rra.dumped version = rra.dumped 4 ↔ rra.WindowKept version := by
  by_cases hcf : rra.cf = .seasonal ∨ rra.cf = .devseasonal
  · rw [RraDef.dumped_seasonal_iff version hcf, RraDef.WindowKept, forall_prop_of_true hcf]
    split_ifs with hversion
    · exact ⟨fun _ => .inl hversion, fun _ => rfl⟩
    · rw [or_iff_right hversion]
      exact eq_comm
  · have hother : rra.dumped version = rra.dumped 4 := by
      unfold RraDef.dumped
      cases hc : rra.cf with
      | seasonal => exact absurd (.inl hc) hcf
      | devseasonal => exact absurd (.inr hc) hcf
      | _ => rfl
    exact ⟨fun _ h => absurd h hcf, fun _ => hother⟩

/-- What is restored was last updated on a full second. -/
theorem Restore.restored_usec {random : ℕ} {doc : List Restore.XmlNode} {r : Rrd}
    (h : Restore.rrdRestoreFile random doc = some r) : r.lastUpUsec = 0 := by
  obtain ⟨f, -, rfl⟩ := Option.map_eq_some_iff.mp h
  rfl

/-- The rows of an RRA by their age. -/
theorem Rrd.rowFor_eq_rowByAge (r : Rrd) {i : ℕ} (hs : 0 < r.rowSecs i) (t : ℤ) : r.rowFor i t =
    if r.rraEndTime i - (((r.rraDef i).rowCnt : ℤ) - 1) * r.rowSecs i ≤ t ∧ t ≤ r.rraEndTime i then
      fun d => r.values (r.cellPos i
        (r.rowByAge i ((r.rraDef i).rowCnt - 1 - ((r.rraEndTime i - t) / r.rowSecs i).toNat)) d)
    else fun _ => dnan := by
  have hs : (0 : ℤ) < r.rowSecs i := by exact_mod_cast hs
  rw [Rrd.rowFor]
  split_ifs with hin
  · obtain ⟨hlo, hhi⟩ := hin
    have hnn : 0 ≤ (r.rraEndTime i - t) / (r.rowSecs i : ℤ) := Int.ediv_nonneg (by omega) hs.le
    have hle : (r.rraEndTime i - t) / (r.rowSecs i : ℤ) ≤ (r.rraDef i).rowCnt - 1 :=
      Int.ediv_le_of_le_mul hs (by omega)
    -- one round of the ring lies between the two ways to count
    have hround : (r.curRow i : ℤ) - (r.rraEndTime i - t) / r.rowSecs i + (r.rraDef i).rowCnt =
        (r.curRow i + 1 + ((r.rraDef i).rowCnt - 1 - ((r.rraEndTime i - t) / r.rowSecs i).toNat) : ℕ) := by
      omega
    have hrow : ((r.curRow i - (r.rraEndTime i - t) / r.rowSecs i) % (r.rraDef i).rowCnt : ℤ).toNat =
        r.rowByAge i ((r.rraDef i).rowCnt - 1 - ((r.rraEndTime i - t) / r.rowSecs i).toNat) := by
      rw [← Int.add_emod_right, hround, ← Int.natCast_mod, Int.toNat_natCast, Rrd.rowByAge]
    rw [hrow]
  · rfl

/-- **An answer from the file that comes back**: the same but for the values, which are as a dump prints them. -/
inductive SameAnswer (dsCnt : ℕ) : Except MachineError MachineFetched → Except MachineError MachineFetched → Prop where
  | error (e : MachineError) : SameAnswer dsCnt (.error e) (.error e)
  | ok {rra step allocated : ℕ} {start stop : ℤ} {data data' : List (ℕ → RrdValue)}
      (values : List.Forall₂ (fun row row' => ∀ d < dsCnt, row' d = dumped (row d)) data data') :
      SameAnswer dsCnt (.ok ⟨⟨rra, start, stop, step, data⟩, allocated⟩) (.ok ⟨⟨rra, start, stop, step, data'⟩, allocated⟩)

namespace Migrated

variable {r r' : Rrd} {i : ℕ}

theorem rowSecs (h : Migrated r r') (hi : i < r.rraCnt) : r'.rowSecs i = r.rowSecs i := by
  rw [Rrd.rowSecs, Rrd.rowSecs, h.rraDef i hi, RraDef.dumped_pdpCnt, h.pdpStep]

theorem rraEndTime (h : Migrated r r') (hi : i < r.rraCnt) : r'.rraEndTime i = r.rraEndTime i := by
  rw [Rrd.rraEndTime, Rrd.rraEndTime, h.lastUp, h.rowSecs hi]

theorem wantedCnt (h : Migrated r r') : r'.wantedCnt = r.wantedCnt := by
  rw [Rrd.wantedCnt, Rrd.wantedCnt, h.rraCnt]
  exact Rrd.rraStart_of_rowCnt h.dsCnt fun i hi => by rw [h.rraDef i hi, RraDef.dumped_rowCnt]

/-- The same RRA is chosen. -/
theorem choice (h : Migrated r r') (cf : Cf) (start stop : ℤ) (step : ℕ) :
    chooseRra r' cf start stop step = chooseRra r cf start stop step := by
  have hloop : Loop.forLoop r.rraCnt (fetchConsider r' cf start stop step) ⟨false, 0, 0, false, 0, 0, 0⟩ =
      Loop.forLoop r.rraCnt (fetchConsider r cf start stop step) ⟨false, 0, 0, false, 0, 0, 0⟩ := by
    refine Loop.forLoop_rel (fun _ m m' => m = m') rfl fun i m m' hi hm => ?_
    unfold fetchConsider
    rw [hm, h.rraEndTime hi, h.rraDef i hi, RraDef.dumped_cf, RraDef.dumped_pdpCnt, RraDef.dumped_rowCnt, h.pdpStep]
  rw [chooseRra, chooseRra, h.rraCnt, hloop]

theorem fetchable (h : Migrated r r') {cf : Cf} {start stop : ℤ} {step : ℕ} (hf : Fetchable r cf start stop step) :
    Fetchable r' cf start stop step := by
  have hcf (i : ℕ) (hi : i < r'.rraCnt) (hc : (r'.rraDef i).cf = cf) : i < r.rraCnt ∧ (r.rraDef i).cf = cf := by
    rw [h.rraCnt] at hi
    rw [h.rraDef i hi, RraDef.dumped_cf] at hc
    exact ⟨hi, hc⟩
  refine ⟨hf.start_nonneg, hf.le, hf.stop_lt, hf.step_lt, h.lastUp ▸ hf.lastUp_lt, ?_, ?_, ?_, ?_, ?_, ?_⟩
  · intro i hi hc
    obtain ⟨hi, hc⟩ := hcf i hi hc
    rw [h.curRow i hi, h.rraDef i hi, RraDef.dumped_rowCnt]
    exact hf.rowCnt_pos hi hc
  · intro i hi hc
    obtain ⟨hi, hc⟩ := hcf i hi hc
    rw [h.rraDef i hi, RraDef.dumped_rowCnt]
    exact hf.rowCnt_lt i hi hc
  · intro i hi hc
    obtain ⟨hi, hc⟩ := hcf i hi hc
    rw [h.rowSecs hi]
    exact hf.secs_pos i hi hc
  · intro i hi hc
    obtain ⟨hi, hc⟩ := hcf i hi hc
    rw [h.rowSecs hi, h.rraDef i hi, RraDef.dumped_rowCnt]
    exact hf.span_lt i hi hc
  · rw [h.wantedCnt, h.valueCnt]
  · rw [h.valueCnt]
    exact (Nat.mul_le_mul_left 8 hf.file).trans_lt hf.file_lt

theorem windowFits (h : Migrated r r') (hi : i < r.rraCnt) (start stop : ℤ) :
    r'.WindowFits i start stop ↔ r.WindowFits i start stop := by
  unfold Rrd.WindowFits Rrd.windowStart Rrd.windowStop
  rw [h.rowSecs hi, h.rraEndTime hi, h.rraDef i hi, RraDef.dumped_rowCnt, h.dsCnt]

theorem dataSize (h : Migrated r r') (hi : i < r.rraCnt) (start stop : ℤ) :
    r'.dataSize i start stop = r.dataSize i start stop := by
  unfold Rrd.dataSize Rrd.rowSecsU
  rw [h.rraDef i hi, RraDef.dumped_pdpCnt, h.pdpStep, h.dsCnt]

/-- A row is found where it was, by its age. -/
theorem rowFor (h : Migrated r r') (hi : i < r.rraCnt) (hs : 0 < r.rowSecs i) (hrows : 0 < (r.rraDef i).rowCnt) (t : ℤ)
    {d : ℕ} (hd : d < r.dsCnt) : r'.rowFor i t d = dumped (r.rowFor i t d) := by
  rw [r'.rowFor_eq_rowByAge ((h.rowSecs hi).symm ▸ hs), r.rowFor_eq_rowByAge hs, h.rowSecs hi, h.rraEndTime hi,
    h.rraDef i hi, RraDef.dumped_rowCnt]
  split_ifs
  · exact h.values i hi _ (by omega) d hd
  · rfl

/-- **A fetch** from the file that comes back. -/
theorem fetch (h : Migrated r r') {cf : Cf} {start stop : ℤ} {step : ℕ} (hf : Fetchable r cf start stop step)
    (hfits : ∀ i, r.Chosen cf start stop step i → r.WindowFits i start stop) (malloc : ℕ → Bool) :
    SameAnswer r.dsCnt (rrdFetchMachine malloc r cf start stop step) (rrdFetchMachine malloc r' cf start stop step) := by
  have hchoice := h.choice cf start stop step
  cases hj : chooseRra r cf start stop step with
  | none =>
    rw [rrdFetchMachine_eq hf, rrdFetchMachine_eq (h.fetchable hf), hchoice, hj]
    exact .error .noMatch
  | some i =>
    have hch := chooseRra_chosen hj
    have hi := hch.lt
    have hs := hf.secs_pos i hi hch.cf_eq
    have hrows := hf.rowCnt_pos hi hch.cf_eq
    rw [rrdFetchMachine_of_fits hf hj (hfits i hch),
      rrdFetchMachine_of_fits (h.fetchable hf) (hchoice.trans hj) ((h.windowFits hi start stop).mpr (hfits i hch)),
      h.rowSecs hi, h.dataSize hi]
    split_ifs
    · refine .ok (List.forall₂_map_left_iff.mpr (List.forall₂_map_right_iff.mpr (List.forall₂_same.mpr ?_)))
      exact fun k _ d hd => h.rowFor hi hs hrows _ hd
    · exact .error .malloc

end Migrated

theorem windowFits_single (i : ℕ) (hch : (rrdCreateFn CreateArgs.single fun _ => 0).Chosen .average 600 899 300 i) :
    (rrdCreateFn CreateArgs.single fun _ => 0).WindowFits i 600 899 := by
  obtain rfl : i = 0 := Nat.lt_one_iff.mp hch.lt
  unfold Rrd.WindowFits
  decide

end Rrdtool
