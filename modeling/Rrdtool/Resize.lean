import Rrdtool.Create
import Rrdtool.Lib.Copy
import Rrdtool.Lib.Ring

/-!
# `rrd_resize`

One RRA gets more or fewer rows. The new file is written in a single pass: the header of the
old file, the values of the RRAs before, the rows of the target with some left out or some
unknown rows put in behind the current one, and the rest. `cur_row`, `row_cnt` and `modify`
change while rows are skipped; definitions and row pointers are written a second time at the
end.

The size of the new file is computed by `rrd_open` from the definitions **before** a version 1
header is turned into a version 3 one, whose live head is eight bytes longer, and in a
`size_t`. Writes beyond that size are refused, and nobody looks.
-/

namespace Rrdtool

open Loop

/-- `rrd_get_header_size`, with the sizes of the structures on a 64 bit machine. -/
def Rrd.headerSize (r : Rrd) : ℕ :=
  128 + 120 * r.dsCnt + 120 * r.rraCnt + (if r.version < 3 then 8 else 16) + 112 * r.dsCnt +
    80 * r.dsCnt * r.rraCnt + 8 * r.rraCnt

/-- The RRD with another row count for one RRA. -/
def Rrd.withRowCnt (r : Rrd) (target rowCnt : ℕ) : Rrd :=
  { r with rraDef :=
      Function.update r.rraDef target { r.rraDef target with rowCnt := rowCnt } }

/-- The errors of `rrd_resize`. -/
inductive ResizeError : Type where
  /-- `resize.rrd is a reserved name` -/
  | reservedName
  /-- `I can only GROW or SHRINK` -/
  | growOrShrink
  /-- `Please grow or shrink with at least 1 row` -/
  | atLeastOneRow
  /-- `rrd_open` refuses the old file -/
  | openOld
  /-- `no such RRA in this RRD` -/
  | noSuchRra
  /-- `This RRA is not that big` -/
  | notThatBig
  /-- `Can't create '%s': %s` -/
  | cantCreate
  /-- `Do not know how to handle RRD version %s` -/
  | version
  deriving DecidableEq

/-- The working variables of `rrd_resize` while it copies. -/
structure Resizing : Type where
  /-- the two files -/
  file : Copy RrdValue
  /-- `rra_ptr[target_rra].cur_row` -/
  curRow : ℕ
  /-- `rra_def[target_rra].row_cnt` -/
  rowCnt : ℕ
  /-- `modify` -/
  modify : ℤ

section Pass

variable (r : Rrd) (outCnt : ℕ)

/-- Copy `l` values. -/
def moveValues (l : ℕ) (f : Copy RrdValue) : Copy RrdValue :=
  forLoop l (fun _ => Copy.move r.values r.valueCnt outCnt) f

/-- The target RRA for `GROW`. -/
def growRra (s : Resizing) : Resizing :=
  let f := moveValues r outCnt (r.dsCnt * (s.curRow + 1)) s.file
  let f := { f with buffer := dnan }
  { s with file := forLoop (r.dsCnt * s.modify.toNat) (fun _ => Copy.write outCnt) f }

/-- One row of the target RRA is left out. -/
def dropRow (s : Resizing) : Resizing :=
  { s with file := s.file.skip r.dsCnt, rowCnt := s.rowCnt - 1, modify := s.modify + 1 }

/-- The rows that are left out before the current one, when the range wraps. -/
def dropFront (s : Resizing) : Resizing :=
  let removeEnd := (s.curRow + (-s.modify).toNat) % s.rowCnt
  if removeEnd ≤ s.curRow then
    forLoop (removeEnd + 1) (fun _ s => { dropRow r s with curRow := s.curRow - 1 }) s
  else s

/-- The target RRA for `SHRINK`. -/
def shrinkRra (s : Resizing) : Resizing :=
  let s := dropFront r s
  let f := forLoop (s.curRow + 1)
    (fun _ => forLoop r.dsCnt fun _ => Copy.move r.values r.valueCnt outCnt) s.file
  let s := { s with file := f }
  forLoop (-s.modify).toNat (fun _ => dropRow r) s

/-- The RRAs before the target are copied. -/
def startPass (target : ℕ) (modify : ℤ) : Resizing where
  file := moveValues r outCnt
    (forLoop target (fun i l => l + r.dsCnt * (r.rraDef i).rowCnt) 0) ⟨0, dnan, []⟩
  curRow := r.curRow target
  rowCnt := (r.rraDef target).rowCnt
  modify := modify

/-- The pass over the data, from the first value to the end of the old file. -/
def resizePass (target : ℕ) (modify : ℤ) : Resizing :=
  let s := startPass r outCnt target modify
  let s := if 0 < modify then growRra r outCnt s else shrinkRra r outCnt s
  { s with file := moveValues r outCnt (r.valueCnt - s.file.inPos) s.file }

end Pass

/-- `newfile_size` of `rrd_open`. -/
def Rrd.newfileSize (r : Rrd) : ℕ := (r.headerSize + 8 * r.wantedCnt) % 2 ^ 64

/-- The version the new file gets. -/
def resizeVersion (version : ℕ) : ℕ := if version = 1 then 3 else version

/-- The room for values in the new file, behind the header that is written there. -/
def Rrd.resizeRoom (r : Rrd) : ℕ :=
  (r.newfileSize - { r with version := resizeVersion r.version }.headerSize) / 8

/-- `rrd_resize` after its checks. What is not written is zero. -/
def resizeTo (r : Rrd) (target : ℕ) (modify : ℤ) : Rrd :=
  let outCnt := (r.withRowCnt target ((r.rraDef target).rowCnt + modify).toNat).resizeRoom
  let s := resizePass r outCnt target modify
  { r.withRowCnt target (s.rowCnt + s.modify).toNat with
    version := resizeVersion r.version
    curRow := Function.update r.curRow target s.curRow
    values := fun p => s.file.out.getD p (.num 0)
    valueCnt := outCnt }

/-- `target_rra`: a `long` in an `unsigned long`. -/
def targetRra (rraNum : Text) : ℕ := (CStr.strtol rraNum % 2 ^ 64).toNat

/-- `rrd_resize` on its four arguments. -/
def rrdResize (infilename rraNum mode rows : Text) (r : Rrd) : Except ResizeError Rrd :=
  let target := targetRra rraNum
  let modify := CStr.strtol rows
  let shrink := mode = "SHRINK".toList
  let modify' := if shrink then -modify else modify
  if infilename = "resize.rrd".toList then .error .reservedName
  else if mode ≠ "GROW".toList ∧ ¬shrink then .error .growOrShrink
  else if modify < 1 then .error .atLeastOneRow
  else if 4 < r.version ∨ r.valueCnt < r.wantedCnt then .error .openOld
  else if r.rraCnt ≤ target then .error .noSuchRra
  else if shrink ∧ ((r.rraDef target).rowCnt : ℤ) ≤ modify then .error .notThatBig
  else if (r.withRowCnt target ((r.rraDef target).rowCnt + modify').toNat).newfileSize = 0 then
    .error .cantCreate
  else if r.version ≠ 1 ∧ r.version ≠ 3 ∧ r.version ≠ 4 then .error .version
  else .ok (resizeTo r target modify')

/-! ## The layout of the new file -/

namespace Rrd

variable (r : Rrd) (target rowCnt : ℕ)

@[simp] theorem withRowCnt_dsCnt : (r.withRowCnt target rowCnt).dsCnt = r.dsCnt := rfl
@[simp] theorem withRowCnt_rraCnt : (r.withRowCnt target rowCnt).rraCnt = r.rraCnt := rfl
@[simp] theorem withRowCnt_version : (r.withRowCnt target rowCnt).version = r.version := rfl

/-- The RRAs up to the target start where they did. -/
theorem rraStart_withRowCnt_le {i : ℕ} (h : i ≤ target) :
    (r.withRowCnt target rowCnt).rraStart i = r.rraStart i := by
  induction i with
  | zero => rfl
  | succ i ih =>
    rw [rraStart_succ, rraStart_succ, ih (by omega)]
    simp only [withRowCnt, Function.update_of_ne (by omega : i ≠ target)]

/-- The RRAs behind the target have moved by the change of its size. -/
theorem rraStart_withRowCnt_gt {i : ℕ} (h : target < i) :
    (r.withRowCnt target rowCnt).rraStart i + (r.rraDef target).rowCnt * r.dsCnt =
      r.rraStart i + rowCnt * r.dsCnt := by
  induction i with
  | zero => omega
  | succ i ih =>
    rw [rraStart_succ, rraStart_succ]
    rcases Nat.lt_succ_iff_lt_or_eq.mp h with hlt | rfl
    · have hi := ih hlt
      simp only [withRowCnt, Function.update_of_ne (by omega : i ≠ target)] at hi ⊢
      omega
    · rw [rraStart_withRowCnt_le r target rowCnt le_rfl]
      simp only [withRowCnt, Function.update_self]
      omega

/-- The block of an RRA is inside the data area. -/
theorem rraStart_block {i : ℕ} (hi : i < r.rraCnt) :
    r.rraStart i + (r.rraDef i).rowCnt * r.dsCnt ≤ r.wantedCnt := by
  have h := r.rraStart_mono hi
  rwa [rraStart_succ] at h

/-- The value of DS `d` in the `j`-th newest row of RRA `i`. -/
def newest (i j d : ℕ) : RrdValue :=
  r.values (r.rraStart i + Ring.before (r.rraDef i).rowCnt (r.curRow i) j * r.dsCnt + d)

end Rrd

/-! ## The pass, in closed form -/

section Closed

variable {r : Rrd} {target outCnt : ℕ}

theorem forLoop_dropRow (r : Rrd) (m : ℕ) (s : Resizing) :
    forLoop m (fun _ => dropRow r) s =
      { s with
        file := s.file.skip (m * r.dsCnt), rowCnt := s.rowCnt - m, modify := s.modify + m } := by
  induction m with
  | zero => simp [Copy.skip]
  | succ m ih =>
    rw [forLoop_succ, ih]
    simp only [dropRow, Copy.skip, Nat.add_mul, Nat.one_mul, Nat.sub_sub, Nat.cast_add,
      Nat.cast_one, ← add_assoc]

/-- The rows dropped in front of the current one when the oldest `n` rows of a ring wrap. -/
def frontRows (rowCnt curRow n : ℕ) : ℕ :=
  if curRow + n < rowCnt then 0 else curRow + n + 1 - rowCnt

theorem dropFront_eq (r : Rrd) {s : Resizing} {n : ℕ} (hn : 0 < n) (hs : s.modify = -n)
    (hc : s.curRow < s.rowCnt) (hlt : n < s.rowCnt) :
    dropFront r s =
      { file := s.file.skip (frontRows s.rowCnt s.curRow n * r.dsCnt)
        curRow := s.curRow - frontRows s.rowCnt s.curRow n
        rowCnt := s.rowCnt - frontRows s.rowCnt s.curRow n
        modify := -n + frontRows s.rowCnt s.curRow n } := by
  have hloop (m : ℕ) : forLoop m (fun _ s => { dropRow r s with curRow := s.curRow - 1 }) s =
      { file := s.file.skip (m * r.dsCnt), curRow := s.curRow - m, rowCnt := s.rowCnt - m,
        modify := s.modify + m } := by
    induction m with
    | zero => simp [Copy.skip]
    | succ m ih =>
      rw [forLoop_succ, ih]
      simp only [dropRow, Copy.skip, Nat.add_mul, Nat.one_mul, Nat.sub_sub, Nat.cast_add,
        Nat.cast_one, ← add_assoc]
  have hmod : (-s.modify).toNat = n := by omega
  unfold dropFront frontRows
  simp only [hmod]
  by_cases hw : s.curRow + n < s.rowCnt
  · rw [Nat.mod_eq_of_lt hw, if_neg (by omega), if_pos hw]
    cases s
    simp_all [Copy.skip]
  · have hrem : (s.curRow + n) % s.rowCnt = s.curRow + n - s.rowCnt := by
      rw [Nat.mod_eq_sub_mod (by omega), Nat.mod_eq_of_lt (by omega)]
    have hk : s.curRow + n - s.rowCnt + 1 = s.curRow + n + 1 - s.rowCnt := by omega
    rw [hrem, if_pos (by omega), hloop, if_neg hw, hk, hs]

theorem moveValues_wrote {f : Copy RrdValue} {pos l : ℕ} {xs : List RrdValue}
    (h : f.Wrote outCnt pos xs) (hl : pos + l ≤ r.valueCnt) :
    (moveValues r outCnt l f).Wrote outCnt (pos + l) (xs ++ Copy.segment r.values pos l) :=
  h.move hl

/-- The RRAs before the target are copied as they are. -/
theorem startPass_wrote (hopen : r.wantedCnt ≤ r.valueCnt) (ht : target < r.rraCnt)
    (modify : ℤ) :
    (startPass r outCnt target modify).file.Wrote outCnt (r.rraStart target)
      (Copy.segment r.values 0 (r.rraStart target)) := by
  have hl : forLoop target (fun i l => l + r.dsCnt * (r.rraDef i).rowCnt) 0 =
      r.rraStart target := by
    simp only [Rrd.rraStart, Nat.mul_comm]
  have hle : r.rraStart target ≤ r.valueCnt := by
    have := r.rraStart_block ht
    omega
  rw [startPass, hl]
  simpa using moveValues_wrote (Copy.Wrote.start outCnt dnan) (by omega : 0 + _ ≤ _)

/-- The rest of the old file follows. -/
theorem rest_wrote {f : Copy RrdValue} {pos : ℕ} {xs : List RrdValue}
    (h : f.Wrote outCnt pos xs) (hpos : pos ≤ r.valueCnt) :
    (moveValues r outCnt (r.valueCnt - f.inPos) f).out =
      (xs ++ Copy.segment r.values pos (r.valueCnt - pos)).take outCnt := by
  rw [h.inPos]
  exact (moveValues_wrote h (by omega)).out

theorem growRra_wrote {s : Resizing} {pos n : ℕ} {xs : List RrdValue}
    (h : s.file.Wrote outCnt pos xs) (hs : s.modify = n)
    (hl : pos + (s.curRow + 1) * r.dsCnt ≤ r.valueCnt) :
    (growRra r outCnt s).file.Wrote outCnt (pos + (s.curRow + 1) * r.dsCnt)
      (xs ++ Copy.segment r.values pos ((s.curRow + 1) * r.dsCnt) ++
        List.replicate (n * r.dsCnt) dnan) := by
  have hm := (moveValues_wrote h hl).fill dnan (n * r.dsCnt)
  simpa only [growRra, hs, Int.toNat_natCast, Nat.mul_comm r.dsCnt] using hm

/-- **`GROW`** puts unknown rows behind the current one. -/
theorem resizePass_grow (hopen : r.wantedCnt ≤ r.valueCnt) (ht : target < r.rraCnt)
    (hc : r.curRow target < (r.rraDef target).rowCnt) {n pos : ℕ} (hn : 0 < n)
    (hpos : pos = r.rraStart target + (r.curRow target + 1) * r.dsCnt) :
    (resizePass r outCnt target n).curRow = r.curRow target ∧
      (resizePass r outCnt target n).rowCnt = (r.rraDef target).rowCnt ∧
      (resizePass r outCnt target n).modify = n ∧
      (resizePass r outCnt target n).file.out =
        (Copy.segment r.values 0 pos ++ (List.replicate (n * r.dsCnt) dnan ++
          Copy.segment r.values pos (r.valueCnt - pos))).take outCnt := by
  have hblock := r.rraStart_block ht
  have hrows : (r.curRow target + 1) * r.dsCnt ≤ (r.rraDef target).rowCnt * r.dsCnt :=
    Nat.mul_le_mul_right _ hc
  have hmod : 0 < (n : ℤ) := by omega
  have hw : (growRra r outCnt (startPass r outCnt target n)).file.Wrote outCnt pos _ :=
    hpos ▸ growRra_wrote (startPass_wrote hopen ht n) rfl (by simp only [startPass]; omega)
  rw [resizePass, if_pos hmod]
  refine ⟨rfl, rfl, rfl, ?_⟩
  rw [rest_wrote hw (by omega), hpos, Copy.segment_add, Nat.zero_add]
  simp only [startPass, List.append_assoc]

theorem shrinkRra_eq {s : Resizing} {pos n : ℕ} {xs : List RrdValue}
    (h : s.file.Wrote outCnt pos xs) (hn : 0 < n) (hs : s.modify = -n)
    (hc : s.curRow < s.rowCnt) (hlt : n < s.rowCnt)
    (hl : pos + s.rowCnt * r.dsCnt ≤ r.valueCnt) {k : ℕ}
    (hk : k = frontRows s.rowCnt s.curRow n) :
    (shrinkRra r outCnt s).curRow = s.curRow - k ∧
      (shrinkRra r outCnt s).rowCnt = s.rowCnt - n ∧ (shrinkRra r outCnt s).modify = 0 ∧
      (shrinkRra r outCnt s).file.Wrote outCnt (pos + (s.curRow + 1 + n - k) * r.dsCnt)
        (xs ++ Copy.segment r.values (pos + k * r.dsCnt) ((s.curRow + 1 - k) * r.dsCnt)) := by
  have hkc : k ≤ s.curRow ∧ k ≤ n := by
    rw [hk, frontRows]
    split_ifs <;> omega
  have hfront := dropFront_eq r hn hs hc hlt
  rw [← hk] at hfront
  have hmod : (-(-(n : ℤ) + k)).toNat = n - k := by omega
  have hrows : s.curRow - k + 1 = s.curRow + 1 - k := by omega
  have hin : pos + k * r.dsCnt + (s.curRow + 1 - k) * r.dsCnt ≤ r.valueCnt := by
    rw [Nat.add_assoc, ← Nat.add_mul]
    have : (k + (s.curRow + 1 - k)) * r.dsCnt ≤ s.rowCnt * r.dsCnt :=
      Nat.mul_le_mul_right _ (by omega)
    omega
  have hm : (forLoop (s.curRow + 1 - k)
      (fun _ => forLoop r.dsCnt fun _ => Copy.move r.values r.valueCnt outCnt)
      (s.file.skip (k * r.dsCnt))).Wrote outCnt _ _ := (h.skip (k * r.dsCnt)).moveRows hin
  have hw := hm.skip ((n - k) * r.dsCnt)
  unfold shrinkRra
  simp only [hfront, hmod, hrows, forLoop_dropRow]
  refine ⟨trivial, by omega, by omega, ?_⟩
  have hpos : pos + k * r.dsCnt + (s.curRow + 1 - k) * r.dsCnt + (n - k) * r.dsCnt =
      pos + (s.curRow + 1 + n - k) * r.dsCnt := by
    have hsum : s.curRow + 1 + n - k = k + (s.curRow + 1 - k) + (n - k) := by omega
    rw [hsum, Nat.add_mul, Nat.add_mul]
    omega
  rwa [hpos] at hw

/-- **`SHRINK`** leaves out the oldest rows, on both sides of the current one. -/
theorem resizePass_shrink (hopen : r.wantedCnt ≤ r.valueCnt) (ht : target < r.rraCnt)
    (hc : r.curRow target < (r.rraDef target).rowCnt) {n k pos : ℕ} (hn : 0 < n)
    (hlt : n < (r.rraDef target).rowCnt)
    (hk : k = frontRows (r.rraDef target).rowCnt (r.curRow target) n)
    (hpos : pos = r.rraStart target + (r.curRow target + 1 + n - k) * r.dsCnt) :
    (resizePass r outCnt target (-n)).curRow = r.curRow target - k ∧
      (resizePass r outCnt target (-n)).rowCnt = (r.rraDef target).rowCnt - n ∧
      (resizePass r outCnt target (-n)).modify = 0 ∧
      (resizePass r outCnt target (-n)).file.out =
        (Copy.segment r.values 0 (r.rraStart target) ++
          (Copy.segment r.values (r.rraStart target + k * r.dsCnt)
            ((r.curRow target + 1 - k) * r.dsCnt) ++
            Copy.segment r.values pos (r.valueCnt - pos))).take outCnt := by
  have hblock := r.rraStart_block ht
  have hmod : ¬0 < (-n : ℤ) := by omega
  obtain ⟨hcur, hrow, hm, hw⟩ :=
    shrinkRra_eq (startPass_wrote hopen ht (-n)) hn rfl hc hlt (hblock.trans hopen) hk
  have hend : r.rraStart target + (r.curRow target + 1 + n - k) * r.dsCnt ≤ r.valueCnt := by
    have hle : r.curRow target + 1 + n - k ≤ (r.rraDef target).rowCnt := by
      rw [hk, frontRows]
      split_ifs <;> omega
    have := Nat.mul_le_mul_right r.dsCnt hle
    omega
  rw [resizePass, if_neg hmod]
  refine ⟨hcur, hrow, hm, ?_⟩
  rw [rest_wrote hw hend, List.append_assoc, hpos]
  rfl

/-- The values of the new file for `GROW`. -/
theorem grow_values (hopen : r.wantedCnt ≤ r.valueCnt) (ht : target < r.rraCnt)
    (hc : r.curRow target < (r.rraDef target).rowCnt) {n pos : ℕ} (hn : 0 < n)
    (hpos : pos = r.rraStart target + (r.curRow target + 1) * r.dsCnt) {p : ℕ} (hp : p < outCnt)
    (hend : p < r.valueCnt + n * r.dsCnt) :
    (resizePass r outCnt target n).file.out.getD p (.num 0) =
      if p < pos then r.values p
      else if p < pos + n * r.dsCnt then dnan else r.values (p - n * r.dsCnt) := by
  obtain ⟨-, -, -, hout⟩ := @resizePass_grow r target outCnt hopen ht hc n pos hn hpos
  rw [hout, Copy.getD_take hp, Copy.getD_segment_append, Copy.getD_replicate_append, Nat.zero_add]
  split_ifs with h1 h2 h3 h3
  · rfl
  · rfl
  · omega
  · omega
  · rw [Copy.getD_segment (by omega)]
    congr 1
    omega

/-- The values of the new file for `SHRINK`. -/
theorem shrink_values (hopen : r.wantedCnt ≤ r.valueCnt) (ht : target < r.rraCnt)
    (hc : r.curRow target < (r.rraDef target).rowCnt) {n k : ℕ} (hn : 0 < n)
    (hlt : n < (r.rraDef target).rowCnt)
    (hk : k = frontRows (r.rraDef target).rowCnt (r.curRow target) n) {p : ℕ} (hp : p < outCnt)
    (hend : p + n * r.dsCnt < r.valueCnt) :
    (resizePass r outCnt target (-n)).file.out.getD p (.num 0) =
      if p < r.rraStart target then r.values p
      else if p < r.rraStart target + (r.curRow target + 1 - k) * r.dsCnt then
        r.values (p + k * r.dsCnt) else r.values (p + n * r.dsCnt) := by
  obtain ⟨-, -, -, hout⟩ := @resizePass_shrink r target outCnt hopen ht hc n k _ hn hlt hk rfl
  have hkn : k ≤ r.curRow target := by
    rw [hk, frontRows]
    split_ifs <;> omega
  have hsum : (r.curRow target + 1 + n - k) * r.dsCnt =
      (r.curRow target + 1 - k) * r.dsCnt + n * r.dsCnt := by
    rw [← Nat.add_mul]
    congr 1
    omega
  rw [hout, Copy.getD_take hp, Copy.getD_segment_append, Copy.getD_segment_append, Nat.zero_add]
  split_ifs with h1 h2 h3 h3
  · rfl
  · congr 1
    omega
  · omega
  · omega
  · rw [Copy.getD_segment (by omega)]
    congr 1
    omega

end Closed

/-! ## The history of the target -/

/-- A well-formed RRD: it has a data source, and the rows are inside their rings. -/
structure Rrd.WellFormed (r : Rrd) : Prop where
  dsCnt_pos : 0 < r.dsCnt
  curRow_lt : ∀ i, i < r.rraCnt → r.curRow i < (r.rraDef i).rowCnt

/-- **Resizing keeps history.** `r'` is the RRD `r` with `n` rows more (or fewer) in RRA
`target`: a complete file with the same header and the same rows elsewhere, in which the rows
of the target, from the newest on, are the old ones followed by `n` unknown rows (or without
the `n` oldest). -/
structure Resized (r r' : Rrd) (target : ℕ) (grow : Bool) (n : ℕ) : Prop where
  dsCnt : r'.dsCnt = r.dsCnt
  rraCnt : r'.rraCnt = r.rraCnt
  pdpStep : r'.pdpStep = r.pdpStep
  dsDef : r'.dsDef = r.dsDef
  liveHead : r'.lastUp = r.lastUp ∧ r'.lastUpUsec = r.lastUpUsec
  pdpPrep : r'.pdpPrep = r.pdpPrep
  cdpPrep : r'.cdpPrep = r.cdpPrep
  otherDef : ∀ i, i ≠ target → r'.rraDef i = r.rraDef i
  otherRow : ∀ i, i ≠ target → r'.curRow i = r.curRow i
  other : ∀ i, i < r.rraCnt → i ≠ target → ∀ p, p < (r.rraDef i).rowCnt * r.dsCnt →
    r'.values (r'.rraStart i + p) = r.values (r.rraStart i + p)
  targetDef : r'.rraDef target = { r.rraDef target with rowCnt :=
    if grow then (r.rraDef target).rowCnt + n else (r.rraDef target).rowCnt - n }
  targetRow : r'.curRow target < (r'.rraDef target).rowCnt
  kept : ∀ j d, d < r.dsCnt → j < (r.rraDef target).rowCnt → j < (r'.rraDef target).rowCnt →
    r'.newest target j d = r.newest target j d
  added : ∀ j d, d < r.dsCnt → (r.rraDef target).rowCnt ≤ j → j < (r'.rraDef target).rowCnt →
    r'.newest target j d = dnan
  complete : r'.wantedCnt ≤ r'.valueCnt

/-- The new file has room for its values, unless its size was computed for a version 1 header
or does not fit into a `size_t`. -/
theorem wantedCnt_le_resizeRoom {r : Rrd} (hw : 0 < r.wantedCnt) :
    r.wantedCnt ≤ r.resizeRoom ↔ r.version ≠ 1 ∧ r.headerSize + 8 * r.wantedCnt < 2 ^ 64 := by
  have hnew : r.version ≠ 1 → { r with version := resizeVersion r.version }.headerSize =
      r.headerSize := by
    intro h
    simp only [Rrd.headerSize, resizeVersion, if_neg h]
  have hold : r.version = 1 → { r with version := resizeVersion r.version }.headerSize =
      r.headerSize + 8 := by
    intro h
    simp only [Rrd.headerSize, resizeVersion, h]
    simp only [if_true, if_pos (by decide : 1 < 3), if_neg (by decide : ¬3 < 3)]
    omega
  unfold Rrd.resizeRoom Rrd.newfileSize
  by_cases h1 : r.version = 1
  · rw [hold h1]
    omega
  · rw [hnew h1]
    omega

/-- A row and a column give a cell of the first `m` rows. -/
theorem cell_lt {row m d ds : ℕ} (hrow : row < m) (hd : d < ds) : row * ds + d < m * ds := by
  have h := Nat.mul_le_mul_right ds hrow
  rw [Nat.succ_mul] at h
  omega

/-- Inversion for a call that was accepted. -/
theorem rrdResize_eq_ok {infilename rraNum mode rows : Text} {r r' : Rrd}
    (h : rrdResize infilename rraNum mode rows r = .ok r') :
    ∃ n : ℕ, 0 < n ∧ CStr.strtol rows = n ∧ targetRra rraNum < r.rraCnt ∧
      r.wantedCnt ≤ r.valueCnt ∧ (r.version = 1 ∨ r.version = 3 ∨ r.version = 4) ∧
      ((mode = "GROW".toList ∧ r' = resizeTo r (targetRra rraNum) n) ∨
        (mode = "SHRINK".toList ∧ n < (r.rraDef (targetRra rraNum)).rowCnt ∧
          r' = resizeTo r (targetRra rraNum) (-n))) := by
  simp only [rrdResize] at h
  obtain ⟨n, hn⟩ : ∃ n : ℕ, CStr.strtol rows = n ∨ CStr.strtol rows < 1 := by
    by_cases hlt : CStr.strtol rows < 1
    · exact ⟨0, .inr hlt⟩
    · exact ⟨(CStr.strtol rows).toNat, .inl (by omega)⟩
  split_ifs at h with _ hmode hrows hopen htarget hbig hshrink _ hv _ hv
  all_goals
    have hn := hn.resolve_right hrows
    rw [hn] at h hrows hbig
    refine ⟨n, by omega, hn, by omega, by omega, by omega, ?_⟩
  · refine .inr ⟨hshrink, ?_, (Except.ok.inj h).symm⟩
    by_contra hle
    exact hbig ⟨hshrink, by omega⟩
  · refine .inl ⟨?_, (Except.ok.inj h).symm⟩
    by_contra hgrow
    exact hmode ⟨hgrow, hshrink⟩

/-! ## Both directions -/

section History

variable {r : Rrd} {target n : ℕ}

/-- What is left to show of `resizeTo` once its pass is known: what the new file has before
the target, behind it, and in it. -/
theorem resizeTo_resized {modify : ℤ} {grow : Bool} {rowCnt curRow : ℕ} {v : ℕ → RrdValue}
    (hnew : rowCnt = if grow then (r.rraDef target).rowCnt + n else (r.rraDef target).rowCnt - n)
    (hroom : (r.withRowCnt target rowCnt).wantedCnt ≤ (r.withRowCnt target rowCnt).resizeRoom)
    (hcur : curRow < rowCnt) (hto : resizeTo r target modify =
      { r.withRowCnt target rowCnt with
        version := resizeVersion r.version
        curRow := Function.update r.curRow target curRow
        values := v
        valueCnt := (r.withRowCnt target rowCnt).resizeRoom })
    (hbefore : ∀ p, p < r.rraStart target → v p = r.values p)
    (hafter : ∀ p, r.rraStart target + rowCnt * r.dsCnt ≤ p →
      p < (r.withRowCnt target rowCnt).wantedCnt →
      v p = r.values (p + (r.rraDef target).rowCnt * r.dsCnt - rowCnt * r.dsCnt))
    (hkept : ∀ j d, d < r.dsCnt → j < (r.rraDef target).rowCnt → j < rowCnt →
      v (r.rraStart target + Ring.before rowCnt curRow j * r.dsCnt + d) = r.newest target j d)
    (hadded : ∀ j d, d < r.dsCnt → (r.rraDef target).rowCnt ≤ j → j < rowCnt →
      v (r.rraStart target + Ring.before rowCnt curRow j * r.dsCnt + d) = dnan) :
    Resized r (resizeTo r target modify) target grow n := by
  set r' := resizeTo r target modify with hr'
  have hstart (i : ℕ) : r'.rraStart i = (r.withRowCnt target rowCnt).rraStart i := by
    rw [hto]
    rfl
  have hdef : r'.rraDef target = { r.rraDef target with rowCnt := rowCnt } := by
    rw [hto]
    simp [Rrd.withRowCnt]
  have hnewest (j d : ℕ) : r'.newest target j d =
      v (r.rraStart target + Ring.before rowCnt curRow j * r.dsCnt + d) := by
    rw [Rrd.newest, hstart, Rrd.rraStart_withRowCnt_le _ _ _ le_rfl, hdef, hto]
    simp
  have hother {i : ℕ} (hi : i ≠ target) : r'.rraDef i = r.rraDef i := by
    rw [hto]
    simp [Rrd.withRowCnt, hi]
  constructor
  case other =>
    intro i hi hne p hp
    have hval : r'.values (r'.rraStart i + p) =
        v ((r.withRowCnt target rowCnt).rraStart i + p) := by
      rw [hstart, hto]
    rw [hval]
    rcases Nat.lt_or_gt_of_ne hne with hlt | hgt
    · have hle := r.rraStart_mono hlt
      rw [Rrd.rraStart_succ] at hle
      rw [Rrd.rraStart_withRowCnt_le _ _ _ hlt.le]
      exact hbefore _ (by omega)
    · have hblock := (r.withRowCnt target rowCnt).rraStart_block hi
      have hsame : (r.withRowCnt target rowCnt).rraDef i = r.rraDef i :=
        Function.update_of_ne hne _ _
      have hfirst := (r.withRowCnt target rowCnt).rraStart_mono hgt
      have hmoved := r.rraStart_withRowCnt_gt target rowCnt hgt
      have hmoved' := r.rraStart_withRowCnt_gt target rowCnt (Nat.lt_succ_self target)
      rw [hsame, Rrd.withRowCnt_dsCnt] at hblock
      rw [r.rraStart_succ] at hmoved'
      rw [hafter _ (by omega) (by omega)]
      congr 1
      omega
  case targetDef => rw [hdef, hnew]
  case targetRow =>
    rw [hdef, hto]
    simpa using hcur
  case kept =>
    intro j d hd hj hj'
    rw [hdef] at hj'
    rw [hnewest]
    exact hkept j d hd hj hj'
  case added =>
    intro j d hd hj hj'
    rw [hdef] at hj'
    rw [hnewest]
    exact hadded j d hd hj hj'
  case complete =>
    rw [Rrd.wantedCnt, hstart, hto]
    exact hroom
  case otherDef => exact fun i hi => hother hi
  case otherRow =>
    intro i hi
    rw [hto]
    simp [hi]
  all_goals rw [hto]
  case liveHead => exact ⟨rfl, rfl⟩
  all_goals rfl

/-- `resizeTo`, for a pass that ends with `rowCnt` rows. -/
theorem resizeTo_eq {modify : ℤ} {rowCnt outCnt : ℕ}
    (hrow : ((r.rraDef target).rowCnt + modify).toNat = rowCnt)
    (hroom : outCnt = (r.withRowCnt target rowCnt).resizeRoom)
    (hpass : ((resizePass r outCnt target modify).rowCnt +
      (resizePass r outCnt target modify).modify).toNat = rowCnt) :
    resizeTo r target modify =
      { r.withRowCnt target rowCnt with
        version := resizeVersion r.version
        curRow := Function.update r.curRow target (resizePass r outCnt target modify).curRow
        values := fun p => (resizePass r outCnt target modify).file.out.getD p (.num 0)
        valueCnt := (r.withRowCnt target rowCnt).resizeRoom } := by
  subst hroom
  unfold resizeTo
  simp only [hrow, hpass]

/-- The values the definitions ask for, with another row count. -/
theorem wantedCnt_withRowCnt (ht : target < r.rraCnt) (rowCnt : ℕ) :
    (r.withRowCnt target rowCnt).wantedCnt + (r.rraDef target).rowCnt * r.dsCnt =
      r.wantedCnt + rowCnt * r.dsCnt :=
  r.rraStart_withRowCnt_gt target rowCnt ht

theorem resized_grow (hr : r.WellFormed) (hopen : r.wantedCnt ≤ r.valueCnt)
    (ht : target < r.rraCnt) (hn : 0 < n)
    (hroom : (r.withRowCnt target ((r.rraDef target).rowCnt + n)).wantedCnt ≤
      (r.withRowCnt target ((r.rraDef target).rowCnt + n)).resizeRoom) :
    Resized r (resizeTo r target n) target true n := by
  set R := (r.rraDef target).rowCnt with hR
  set c := r.curRow target with hcur
  have hc : c < R := hr.curRow_lt target ht
  have hblock : r.rraStart target + R * r.dsCnt ≤ r.wantedCnt := r.rraStart_block ht
  obtain ⟨outCnt, hout⟩ : ∃ outCnt, outCnt = (r.withRowCnt target (R + n)).resizeRoom := ⟨_, rfl⟩
  obtain ⟨hpc, hpr, hpm, -⟩ := @resizePass_grow r target outCnt hopen ht hc n _ hn rfl
  have hwanted := wantedCnt_withRowCnt ht (R + n)
  rw [← hR, Nat.add_mul] at hwanted
  have hval {p : ℕ} (hp : p < (r.withRowCnt target (R + n)).wantedCnt) :
      (resizePass r outCnt target n).file.out.getD p (.num 0) =
        if p < r.rraStart target + (c + 1) * r.dsCnt then r.values p
        else if p < r.rraStart target + (c + 1) * r.dsCnt + n * r.dsCnt then dnan
        else r.values (p - n * r.dsCnt) :=
    grow_values hopen ht hc hn rfl (by omega) (by omega)
  have hcell {row d : ℕ} (hrow : row < R + n) (hd : d < r.dsCnt) :
      r.rraStart target + row * r.dsCnt + d < (r.withRowCnt target (R + n)).wantedCnt := by
    have hlt := cell_lt hrow hd
    rw [Nat.add_mul] at hlt
    omega
  have hc1 : (c + 1) * r.dsCnt ≤ R * r.dsCnt := Nat.mul_le_mul_right r.dsCnt hc
  have hto := resizeTo_eq (by omega : ((R : ℤ) + n).toNat = R + n) hout (by rw [hpr, hpm]; omega)
  rw [hpc] at hto
  refine resizeTo_resized (by rw [← hR, if_pos rfl]) hroom (by omega : c < R + n) hto ?_ ?_ ?_ ?_
  · intro p hp
    rw [hval (by omega), if_pos (by omega)]
  · intro p hp hlt
    rw [Nat.add_mul] at hp ⊢
    rw [hval hlt, if_neg (by omega), if_neg (by omega), ← hR]
    congr 1
    omega
  · intro j d hd hj hj'
    rw [Rrd.newest, ← hcur, ← hR]
    rcases Nat.lt_or_ge c j with hjc | hjc
    · -- rows that wrapped: they have moved behind the unknown ones
      have hrow : c + 1 + n ≤ c + (R + n) - j := by omega
      have hge := Nat.mul_le_mul_right r.dsCnt hrow
      have hsplit : c + (R + n) - j = c + R - j + n := by omega
      rw [Ring.before_of_gt hjc (by omega), Ring.before_of_gt hjc (by omega),
        hval (hcell (by omega) hd), if_neg, if_neg]
      · rw [hsplit, Nat.add_mul]
        congr 1
        omega
      · rw [Nat.add_mul] at hge
        omega
      · rw [Nat.add_mul] at hge
        omega
    · have hlt := cell_lt (by omega : c - j < c + 1) hd
      rw [Ring.before_of_le (by omega) hjc, Ring.before_of_le hc hjc,
        hval (hcell (by omega) hd), if_pos (by omega)]
  · intro j d hd hj hj'
    have hlt := cell_lt (by omega : c + (R + n) - j < c + 1 + n) hd
    have hge := Nat.mul_le_mul_right r.dsCnt (by omega : c + 1 ≤ c + (R + n) - j)
    rw [Nat.add_mul _ n] at hlt
    rw [Ring.before_of_gt (by omega) (by omega), hval (hcell (by omega) hd),
      if_neg (by omega), if_pos (by omega)]

theorem resized_shrink (hr : r.WellFormed) (hopen : r.wantedCnt ≤ r.valueCnt)
    (ht : target < r.rraCnt) (hn : 0 < n) (hlt : n < (r.rraDef target).rowCnt)
    (hroom : (r.withRowCnt target ((r.rraDef target).rowCnt - n)).wantedCnt ≤
      (r.withRowCnt target ((r.rraDef target).rowCnt - n)).resizeRoom) :
    Resized r (resizeTo r target (-n)) target false n := by
  set R := (r.rraDef target).rowCnt with hR
  set c := r.curRow target with hcur
  obtain ⟨k, hk⟩ : ∃ k, k = frontRows R c n := ⟨_, rfl⟩
  have hc : c < R := hr.curRow_lt target ht
  have hblock : r.rraStart target + R * r.dsCnt ≤ r.wantedCnt := r.rraStart_block ht
  -- either nothing is dropped in front, or the current row becomes the last one
  have hfront : (k = 0 ∧ c + n < R) ∨ (k ≤ c ∧ c + 1 - k = R - n) := by
    rw [hk, frontRows]
    split_ifs <;> omega
  obtain ⟨outCnt, hout⟩ : ∃ outCnt, outCnt = (r.withRowCnt target (R - n)).resizeRoom := ⟨_, rfl⟩
  obtain ⟨hpc, hpr, hpm, -⟩ := @resizePass_shrink r target outCnt hopen ht hc n k _ hn hlt hk rfl
  have hwanted := wantedCnt_withRowCnt ht (R - n)
  have hRn : R * r.dsCnt = (R - n) * r.dsCnt + n * r.dsCnt := by
    rw [← Nat.add_mul]
    congr 1
    omega
  rw [← hR] at hwanted
  have hval {p : ℕ} (hp : p < (r.withRowCnt target (R - n)).wantedCnt) :
      (resizePass r outCnt target (-n)).file.out.getD p (.num 0) =
        if p < r.rraStart target then r.values p
        else if p < r.rraStart target + (c + 1 - k) * r.dsCnt then r.values (p + k * r.dsCnt)
        else r.values (p + n * r.dsCnt) :=
    shrink_values hopen ht hc hn hlt hk (by omega) (by omega)
  have hcell {row d : ℕ} (hrow : row < R - n) (hd : d < r.dsCnt) :
      r.rraStart target + row * r.dsCnt + d < (r.withRowCnt target (R - n)).wantedCnt := by
    have hlt := cell_lt hrow hd
    omega
  have hkeep : (c + 1 - k) * r.dsCnt ≤ (R - n) * r.dsCnt :=
    Nat.mul_le_mul_right r.dsCnt (by omega)
  have hto := resizeTo_eq (by omega : ((R : ℤ) + -n).toNat = R - n) hout
    (by rw [hpr, hpm]; omega)
  rw [hpc] at hto
  refine resizeTo_resized (by rw [← hR, if_neg (by decide)]) hroom
    (by omega : c - k < R - n) hto ?_ ?_ ?_ ?_
  · intro p hp
    rw [hval (by omega), if_pos hp]
  · intro p hp hlt'
    rw [hval hlt', if_neg (by omega), if_neg (by omega), ← hR]
    congr 1
    omega
  · intro j d hd hj hj'
    rw [Rrd.newest, ← hcur, ← hR]
    rcases Nat.lt_or_ge (c - k) j with hjc | hjc
    · -- a row behind the current one is only left when the range did not wrap
      obtain ⟨hk0, hcn⟩ : k = 0 ∧ c + n < R := by omega
      have hge := Nat.mul_le_mul_right r.dsCnt (by omega : c + 1 ≤ c + (R - n) - j)
      have hsplit : c + R - j = c + (R - n) - j + n := by omega
      rw [hk0, Nat.sub_zero, Ring.before_of_gt (by omega) (by omega),
        Ring.before_of_gt (by omega) (by omega), hval (hcell (by omega) hd), if_neg (by omega),
        if_neg (by rw [hk0, Nat.sub_zero]; omega), hsplit, Nat.add_mul]
      congr 1
      omega
    · have hcl := cell_lt (by omega : c - k - j < c + 1 - k) hd
      have hsplit : c - j = c - k - j + k := by omega
      rw [Ring.before_of_le (by omega) hjc, Ring.before_of_le hc (by omega),
        hval (hcell (by omega) hd), if_neg (by omega), if_pos (by omega), hsplit, Nat.add_mul]
      congr 1
      omega
  · intro j d hd hj hj'
    omega

/-- A file that keeps the history has room for it. -/
theorem Resized.room {modify : ℤ} {grow : Bool} {rowCnt : ℕ}
    (h : Resized r (resizeTo r target modify) target grow n)
    (hnew : rowCnt = if grow then (r.rraDef target).rowCnt + n else (r.rraDef target).rowCnt - n)
    (hrow : ((r.rraDef target).rowCnt + modify).toNat = rowCnt) :
    (r.withRowCnt target rowCnt).wantedCnt ≤ (r.withRowCnt target rowCnt).resizeRoom := by
  have hdef : (resizeTo r target modify).rraDef = (r.withRowCnt target rowCnt).rraDef := by
    funext i
    by_cases hi : i = target
    · subst hi
      rw [h.targetDef, ← hnew]
      simp [Rrd.withRowCnt]
    · rw [h.otherDef i hi]
      simp [Rrd.withRowCnt, hi]
  have hc := h.complete
  have hstart : (resizeTo r target modify).rraStart r.rraCnt =
      (r.withRowCnt target rowCnt).rraStart r.rraCnt :=
    Rrd.rraStart_congr (h.dsCnt.trans (r.withRowCnt_dsCnt target rowCnt).symm) hdef _
  rw [Rrd.wantedCnt, h.rraCnt, hstart] at hc
  subst hrow
  exact hc

/-- The rows of the target after the call. -/
def resizedRows (mode rows : Text) (rowCnt : ℕ) : ℕ :=
  if mode = "GROW".toList then rowCnt + (CStr.strtol rows).toNat
  else rowCnt - (CStr.strtol rows).toNat

/-- **Resizing.** On a well-formed RRD every accepted `rrd_resize` writes a file that keeps the
history, if and only if the RRD is not a version 1 file and the size of the new file fits into
64 bits. -/
theorem resize_keeps_history_iff {infilename rraNum mode rows : Text} {r' : Rrd}
    (hr : r.WellFormed) (h : rrdResize infilename rraNum mode rows r = .ok r') :
    Resized r r' (targetRra rraNum) (decide (mode = "GROW".toList)) (CStr.strtol rows).toNat ↔
      r.version ≠ 1 ∧ r.headerSize + 8 * (r.withRowCnt (targetRra rraNum)
        (resizedRows mode rows (r.rraDef (targetRra rraNum)).rowCnt)).wantedCnt < 2 ^ 64 := by
  obtain ⟨n, hn, hrows, ht, hopen, -, hmode⟩ := rrdResize_eq_ok h
  have hc := hr.curRow_lt _ ht
  have hn' : (CStr.strtol rows).toNat = n := by omega
  rw [hn', resizedRows, hn']
  have hpos (rowCnt : ℕ) (hcnt : 0 < rowCnt) :
      0 < (r.withRowCnt (targetRra rraNum) rowCnt).wantedCnt := by
    have hb := (r.withRowCnt (targetRra rraNum) rowCnt).rraStart_block ht
    have hmul : 0 < rowCnt * r.dsCnt := Nat.mul_pos hcnt hr.dsCnt_pos
    simp only [Rrd.withRowCnt, Function.update_self] at hb ⊢
    omega
  rcases hmode with ⟨rfl, rfl⟩ | ⟨rfl, hlt, rfl⟩
  · rw [if_pos rfl, decide_eq_true rfl]
    have hiff := wantedCnt_le_resizeRoom (hpos ((r.rraDef (targetRra rraNum)).rowCnt + n)
      (by omega))
    constructor
    · intro hres
      exact hiff.mp (hres.room (by simp) (by omega))
    · intro hcond
      exact resized_grow hr hopen ht hn (hiff.mpr hcond)
  · have hne : ¬("SHRINK".toList = "GROW".toList) := by decide
    rw [if_neg hne, decide_eq_false hne]
    have hiff := wantedCnt_le_resizeRoom (hpos ((r.rraDef (targetRra rraNum)).rowCnt - n)
      (by omega))
    constructor
    · intro hres
      exact hiff.mp (hres.room (by simp) (by omega))
    · intro hcond
      exact resized_shrink hr hopen ht hn hlt (hiff.mpr hcond)

end History

/-- `rrdtool resize a.rrd 0 SHRINK 1` on a new file with two data sources and three rows. -/
theorem pair_resize_keeps_history :
    ∃ r', rrdResize "a.rrd".toList ['0'] "SHRINK".toList ['1'] (rrdCreateFn .pair fun _ => 1) =
        .ok r' ∧
      Resized (rrdCreateFn .pair fun _ => 1) r' 0 false 1 := by
  have hr : (rrdCreateFn .pair fun _ => 1).WellFormed :=
    ⟨by decide, fun i hi => Nat.mod_lt _ (CreateArgs.pair.rowCnt_pos i hi)⟩
  have h : rrdResize "a.rrd".toList ['0'] "SHRINK".toList ['1']
      (rrdCreateFn .pair fun _ => 1) = .ok (resizeTo (rrdCreateFn .pair fun _ => 1) 0 (-1)) := rfl
  exact ⟨_, h, (resize_keeps_history_iff hr h).mpr (by decide)⟩

/-- The same file with a version 1 header loses its last value. -/
theorem version1_resize_short :
    ∃ r : Rrd, r.WellFormed ∧ r.version = 1 ∧
      ∃ r', rrdResize "a.rrd".toList ['0'] "GROW".toList ['1'] r = .ok r' ∧
        ¬Resized r r' 0 true 1 := by
  refine ⟨{ rrdCreateFn .pair fun _ => 1 with version := 1 },
    ⟨by decide, fun i hi => Nat.mod_lt _ (CreateArgs.pair.rowCnt_pos i hi)⟩, rfl, _, rfl, ?_⟩
  intro h
  have hroom := h.room rfl rfl
  exact absurd hroom (by decide)

end Rrdtool
