import Rrdtool.Created
import Rrdtool.Resize
import Rrdtool.Update
import Mathlib.Algebra.BigOperators.Ring.Finset
import Mathlib.Algebra.Order.BigOperators.Group.Finset

/-!
# Writing a new file

`rrd_open` gives a new file its length, and `rrd_create_fn` writes into it: the header first, then
blocks of unknown values until `unkn_cnt` of them are written. `rrd_open` computes the length in a
`size_t`, `rrd_create_fn` counts the values in an `int`.

* `createFile_eq` — what the file holds where its length does not wrap around;
* `created_whole_iff` — all of the data area is written only where its values fit into an `int`.
-/

namespace Rrdtool

open Loop
open scoped BigOperators

/-! ## The file -/

/-- A file that is being written, with its data area. -/
structure NewFile : Type where
  /-- `file_len` -/
  fileLen : ℕ
  /-- `pos` -/
  pos : ℕ
  /-- the doubles behind the header -/
  values : ℕ → RrdValue

/-- `rrd_open` for a new file of this length: a byte at the end, then pages of zero bytes, counted in an
`unsigned`. `memset` has turned `DNAN` into a zero byte; `none` says that the loop does not end. -/
def rrdOpenNew (newfileSize : ℕ) : Option NewFile :=
  if (newfileSize - 1) / 4096 < 2 ^ 32 then some ⟨newfileSize, 0, fun _ => .num 0⟩ else none

/-- `rrd_write` of `count` bytes of the header. Its result is not looked at. -/
def NewFile.writeHeader (f : NewFile) (count : ℕ) : NewFile :=
  if f.fileLen < ulong (f.pos + count) then f else { f with pos := ulong (f.pos + count) }

/-- `rrd_write` of `cnt` unknown values. -/
def NewFile.writeUnknown (headerLen cnt : ℕ) (f : NewFile) : Option NewFile :=
  if f.fileLen < ulong (f.pos + 8 * cnt) then none
  else some { f with
    pos := ulong (f.pos + 8 * cnt)
    values := fun p =>
      if f.pos ≤ headerLen + 8 * p ∧ headerLen + 8 * p < f.pos + 8 * cnt then dnan else f.values p }

/-- The loop over `unkn_cnt`. -/
def NewFile.writeUnknowns (headerLen : ℕ) (unknCnt : ℤ) (f : NewFile) : Option NewFile :=
  if 0 < unknCnt then
    match f.writeUnknown headerLen (min unknCnt 512).toNat with
    | none => none
    | some f => f.writeUnknowns headerLen (unknCnt - 512)
  else some f
termination_by unknCnt.toNat

/-- The writes of the header: `stat_head`, `ds_def`, `rra_def`, `live_head`, and one `pdp_prep`,
`cdp_prep` or `rra_ptr` at a time. -/
def CreateArgs.headerWrites (a : CreateArgs) : List ℕ :=
  [128, 120 * a.dsCnt, 120 * a.rraCnt, 16] ++ List.replicate a.dsCnt 112 ++
    List.replicate (a.rraCnt * a.dsCnt) 80 ++ List.replicate a.rraCnt 8

/-- **`rrd_create_fn`**, the bytes it writes. The header behind `writeHeader` is that of `rrdCreateFn`. -/
def createFile (a : CreateArgs) (random : ℕ → ℕ) : Option NewFile :=
  let r := rrdCreateFn a random
  (rrdOpenNew r.newfileSize).bind fun f =>
    (a.headerWrites.foldl NewFile.writeHeader f).writeUnknowns r.headerSize a.unknCnt

/-- `correct_len` of `rrd_open`, for a header that has been read. -/
def Rrd.correctLen (r : Rrd) : ℕ :=
  ulong (r.headerSize + ulong (8 * forLoop r.rraCnt (fun i cnt => ulong (cnt + (r.rraDef i).rowCnt)) 0
    * r.dsCnt))

/-- The number of values of all RRAs. -/
def Rrd.valueSum (r : Rrd) : ℕ := ∑ i ∈ Finset.range r.rraCnt, r.dsCnt * (r.rraDef i).rowCnt

/-- The whole data area is there and unknown, and `rrd_open` takes the file. -/
structure NewFile.Whole (r : Rrd) (f : NewFile) : Prop where
  fileLen : f.fileLen = r.headerSize + 8 * r.valueSum
  unknown : ∀ p, p < r.valueSum → f.values p = dnan
  opens : ¬f.fileLen < r.correctLen

/-! ## The loops -/

theorem ulong_of_le {n m : ℕ} (hle : n ≤ m) (hm : m < 2 ^ 64) : ulong n = n :=
  Nat.mod_eq_of_lt (hle.trans_lt hm)

/-- A block that fits. -/
theorem NewFile.writeUnknown_eq {headerLen k n : ℕ} {f : NewFile} (hpos : f.pos = headerLen + 8 * k)
    (hfits : headerLen + 8 * (k + n) ≤ f.fileLen) (hlen : f.fileLen < 2 ^ 64) :
    f.writeUnknown headerLen n = some ⟨f.fileLen, headerLen + 8 * (k + n),
      fun p => if k ≤ p ∧ p < k + n then dnan else f.values p⟩ := by
  have hend : f.pos + 8 * n = headerLen + 8 * (k + n) := by omega
  have hcell (p : ℕ) : (headerLen + 8 * k ≤ headerLen + 8 * p ∧
      headerLen + 8 * p < headerLen + 8 * (k + n)) ↔ (k ≤ p ∧ p < k + n) := by omega
  unfold NewFile.writeUnknown
  rw [hend, ulong_of_le hfits hlen, if_neg (Nat.not_lt.mpr hfits), hpos]
  simp only [hcell]

/-- Blocks that fit are written, one after the other. -/
theorem NewFile.writeUnknowns_eq {headerLen k : ℕ} {n : ℤ} {f : NewFile}
    (hpos : f.pos = headerLen + 8 * k) (hfits : headerLen + 8 * (k + n.toNat) ≤ f.fileLen)
    (hlen : f.fileLen < 2 ^ 64) :
    f.writeUnknowns headerLen n = some ⟨f.fileLen, headerLen + 8 * (k + n.toNat),
      fun p => if k ≤ p ∧ p < k + n.toNat then dnan else f.values p⟩ := by
  -- by induction on what is left
  induction hm : n.toNat using Nat.strong_induction_on generalizing n k f with
  | _ m ih =>
    subst hm
    rw [NewFile.writeUnknowns]
    by_cases hn : 0 < n
    · have hsum : k + (min n 512).toNat + (n - 512).toNat = k + n.toNat := by omega
      have hblock := f.writeUnknown_eq (n := (min n 512).toNat) hpos (by omega) hlen
      have hrest := ih (n - 512).toNat (by omega) (k := k + (min n 512).toNat) (n := n - 512)
        (f := ⟨f.fileLen, headerLen + 8 * (k + (min n 512).toNat),
          fun p => if k ≤ p ∧ p < k + (min n 512).toNat then dnan else f.values p⟩)
        rfl (by rw [hsum]; exact hfits) hlen rfl
      rw [hsum] at hrest
      rw [if_pos hn, hblock]
      refine hrest.trans ?_
      congr 2
      funext p
      have hcells : (k + (min n 512).toNat ≤ p ∧ p < k + n.toNat) ∨
          (k ≤ p ∧ p < k + (min n 512).toNat) ↔ (k ≤ p ∧ p < k + n.toNat) := by omega
      dsimp only
      rw [← ite_or]
      simp only [hcells]
    · have hzero : n.toNat = 0 := by omega
      have hnone (p : ℕ) : ¬(k ≤ p ∧ p < k + 0) := by omega
      rw [if_neg hn, hzero]
      simp only [hnone, if_false]
      rw [Nat.add_zero, ← hpos]

/-- A part of the header that fits. -/
theorem NewFile.writeHeader_eq {n : ℕ} {f : NewFile} (hfits : f.pos + n ≤ f.fileLen)
    (hlen : f.fileLen < 2 ^ 64) : f.writeHeader n = { f with pos := f.pos + n } := by
  unfold NewFile.writeHeader
  rw [ulong_of_le hfits hlen, if_neg (Nat.not_lt.mpr hfits)]

/-- A header that fits is written. -/
theorem NewFile.writeHeaders_eq {l : List ℕ} {f : NewFile} (hfits : f.pos + l.sum ≤ f.fileLen)
    (hlen : f.fileLen < 2 ^ 64) :
    l.foldl NewFile.writeHeader f = { f with pos := f.pos + l.sum } := by
  induction l generalizing f with
  | nil => rfl
  | cons n l ih =>
    rw [List.sum_cons, ← Nat.add_assoc] at hfits
    have hrest := ih (f := { f with pos := f.pos + n }) hfits hlen
    rw [List.foldl_cons, NewFile.writeHeader_eq (by omega) hlen, hrest, List.sum_cons, Nat.add_assoc]

/-! ## Sizes -/

variable {a : CreateArgs} {random : ℕ → ℕ}

/-- The header that is written is as long as the one the length was computed with. -/
theorem headerWrites_sum (hv : 3 ≤ a.version) (random : ℕ → ℕ) :
    a.headerWrites.sum = (rrdCreateFn a random).headerSize := by
  have hlive : (if a.version < 3 then 8 else 16) = 16 := if_neg (Nat.not_lt.mpr hv)
  unfold CreateArgs.headerWrites Rrd.headerSize
  simp only [List.sum_append, List.sum_cons, List.sum_nil, List.sum_replicate_nat]
  change _ = 128 + 120 * a.dsCnt + 120 * a.rraCnt + (if a.version < 3 then 8 else 16) +
    112 * a.dsCnt + 80 * a.dsCnt * a.rraCnt + 8 * a.rraCnt
  rw [hlive]
  ring

/-- The size of the data area is the number of values of all RRAs. -/
theorem rraStart_eq_sum (r : Rrd) (n : ℕ) :
    r.rraStart n = ∑ i ∈ Finset.range n, r.dsCnt * (r.rraDef i).rowCnt := by
  induction n with
  | zero => rfl
  | succ n ih => rw [Rrd.rraStart_succ, Finset.sum_range_succ, ih, Nat.mul_comm]

theorem Rrd.wantedCnt_eq (r : Rrd) : r.wantedCnt = r.valueSum := rraStart_eq_sum r r.rraCnt

/-- `correct_len` is the length, but for the wrap-around. -/
theorem Rrd.correctLen_eq (r : Rrd) : r.correctLen = (r.headerSize + 8 * r.valueSum) % 2 ^ 64 := by
  have hrows (n : ℕ) : forLoop n (fun i cnt => ulong (cnt + (r.rraDef i).rowCnt)) 0 =
      (∑ i ∈ Finset.range n, (r.rraDef i).rowCnt) % 2 ^ 64 := by
    induction n with
    | zero => rfl
    | succ n ih => rw [forLoop_succ, ih, Finset.sum_range_succ, ulong, Nat.mod_add_mod]
  have hsum : r.valueSum = r.dsCnt * ∑ i ∈ Finset.range r.rraCnt, (r.rraDef i).rowCnt :=
    (Finset.mul_sum ..).symm
  rw [Rrd.correctLen, hrows, hsum, ulong, ulong, Nat.add_mod_mod, Nat.mul_right_comm,
    Nat.add_mod, Nat.mul_mod_mod, ← Nat.add_mod, Nat.mul_assoc]

/-! ## The whole file -/

/-- `unkn_cnt` is never more than there is room for. -/
theorem unknCnt_le (a : CreateArgs) (random : ℕ → ℕ) :
    a.unknCnt ≤ (rrdCreateFn a random).valueSum := by
  rw [a.unknCnt_eq random, Rrd.wantedCnt_eq, Int.bmod_def]
  split_ifs <;> omega

/-- **What `rrd_create_fn` leaves** where the length of the file does not wrap around and its pages can be
counted. -/
theorem createFile_eq (hv : 3 ≤ a.version) (random : ℕ → ℕ)
    (hlen : (rrdCreateFn a random).headerSize + 8 * (rrdCreateFn a random).valueSum < 2 ^ 64)
    (hpages : ((rrdCreateFn a random).newfileSize - 1) / 4096 < 2 ^ 32) :
    createFile a random = some
      ⟨(rrdCreateFn a random).headerSize + 8 * (rrdCreateFn a random).valueSum,
        (rrdCreateFn a random).headerSize + 8 * a.unknCnt.toNat, (rrdCreateFn a random).values⟩ := by
  set r := rrdCreateFn a random
  have hsize : r.newfileSize = r.headerSize + 8 * r.valueSum := by
    rw [Rrd.newfileSize, Rrd.wantedCnt_eq]
    exact Nat.mod_eq_of_lt hlen
  have hle : a.unknCnt ≤ (r.valueSum : ℤ) := unknCnt_le a random
  have hfits : r.headerSize + 8 * (0 + a.unknCnt.toNat) ≤ r.newfileSize := by omega
  have hheader := NewFile.writeHeaders_eq (l := a.headerWrites) (f := ⟨r.newfileSize, 0, fun _ => .num 0⟩)
    (by rw [headerWrites_sum hv random, hsize, Nat.zero_add]; exact Nat.le_add_right _ _)
    (by rw [hsize]; exact hlen)
  rw [headerWrites_sum hv random, Nat.zero_add] at hheader
  have hpos : r.headerSize = r.headerSize + 8 * 0 := rfl
  have hdata := NewFile.writeUnknowns_eq (k := 0) (n := a.unknCnt)
    (f := ⟨r.newfileSize, r.headerSize, fun _ => .num 0⟩) hpos hfits (by rw [hsize]; exact hlen)
  have hvalues : (fun p => if 0 ≤ p ∧ p < 0 + a.unknCnt.toNat then dnan else Dbl.num 0) = r.values := by
    funext p
    have hcell : (0 ≤ p ∧ p < 0 + a.unknCnt.toNat) ↔ (p : ℤ) < a.unknCnt := by omega
    simp only [hcell]
    rfl
  unfold createFile rrdOpenNew
  dsimp only
  rw [if_pos hpages, Option.bind_some, hheader, hdata, hvalues, hsize, Nat.zero_add]

theorem fileLen_writeHeader (n : ℕ) (f : NewFile) : (f.writeHeader n).fileLen = f.fileLen := by
  unfold NewFile.writeHeader
  split_ifs <;> rfl

theorem fileLen_writeUnknowns {headerLen : ℕ} {n : ℤ} {f f' : NewFile}
    (h : f.writeUnknowns headerLen n = some f') : f'.fileLen = f.fileLen := by
  induction hm : n.toNat using Nat.strong_induction_on generalizing n f with
  | _ m ih =>
    subst hm
    rw [NewFile.writeUnknowns] at h
    split_ifs at h with hn
    · split at h
      · cases h
      · rename_i g hg
        rw [ih (n - 512).toNat (by omega) h rfl]
        unfold NewFile.writeUnknown at hg
        split_ifs at hg
        cases hg
        rfl
    · cases h
      rfl

/-- A file that has been written has the length it was given. -/
theorem createFile_fileLen {f : NewFile} (h : createFile a random = some f) :
    f.fileLen = (rrdCreateFn a random).newfileSize ∧
      ((rrdCreateFn a random).newfileSize - 1) / 4096 < 2 ^ 32 := by
  unfold createFile rrdOpenNew at h
  obtain ⟨g, hg, hf⟩ := Option.bind_eq_some_iff.mp h
  split_ifs at hg with hpages
  cases hg
  refine ⟨(fileLen_writeUnknowns hf).trans ?_, hpages⟩
  generalize a.headerWrites = l
  suffices hall : ∀ f : NewFile, (l.foldl NewFile.writeHeader f).fileLen = f.fileLen from hall _
  induction l with
  | nil => exact fun _ => rfl
  | cons n l ih => exact fun f => (ih _).trans (fileLen_writeHeader n f)

/-- Every RRA has a value for every data source. -/
theorem dsCnt_mul_rraCnt_le (a : CreateArgs) (random : ℕ → ℕ) :
    a.dsCnt * a.rraCnt ≤ (rrdCreateFn a random).valueSum := by
  have hsum : ∑ _i ∈ Finset.range a.rraCnt, a.dsCnt = a.dsCnt * a.rraCnt := by
    rw [Finset.sum_const, Finset.card_range, Nat.nsmul_eq_mul, Nat.mul_comm]
  rw [← hsum]
  apply Finset.sum_le_sum
  intro i hi
  exact Nat.le_mul_of_pos_right a.dsCnt (a.rowCnt_pos i (Finset.mem_range.mp hi))

/-- So the header is not much longer than the data. -/
theorem headerSize_le (a : CreateArgs) (random : ℕ → ℕ) :
    (rrdCreateFn a random).headerSize ≤ 144 + 440 * (rrdCreateFn a random).valueSum := by
  have hcells := dsCnt_mul_rraCnt_le a random
  have hds : a.dsCnt ≤ a.dsCnt * a.rraCnt := Nat.le_mul_of_pos_right _ a.rraCnt_pos
  have hrra : a.rraCnt ≤ a.dsCnt * a.rraCnt := Nat.le_mul_of_pos_left _ a.dsCnt_pos
  have hlive : (if a.version < 3 then 8 else 16) ≤ 16 := by split_ifs <;> decide
  change 128 + 120 * a.dsCnt + 120 * a.rraCnt + (if a.version < 3 then 8 else 16) +
    112 * a.dsCnt + 80 * a.dsCnt * a.rraCnt + 8 * a.rraCnt ≤ _
  rw [Nat.mul_assoc 80]
  omega

/-- The new file is whole exactly where an `int` can count its values. -/
theorem createFile_whole_iff (hv : 3 ≤ a.version) (random : ℕ → ℕ) :
    (∃ f, createFile a random = some f ∧ f.Whole (rrdCreateFn a random)) ↔
      (rrdCreateFn a random).valueSum < 2 ^ 31 := by
  set r := rrdCreateFn a random
  have hvalue (p : ℕ) : r.values p = if (p : ℤ) < a.unknCnt then dnan else .num 0 := rfl
  constructor
  · rintro ⟨f, hf, hwhole⟩
    obtain ⟨hfile, hpages⟩ := createFile_fileLen hf
    -- the length has not wrapped around, so the values are those that were counted
    have hlen : r.headerSize + 8 * r.valueSum < 2 ^ 64 := by
      rw [← hwhole.fileLen, hfile]
      exact Nat.mod_lt _ (by decide)
    rw [createFile_eq hv random hlen hpages] at hf
    obtain rfl := Option.some.inj hf
    by_contra hge
    have hlast := hwhole.unknown (r.valueSum - 1) (by omega)
    have hcnt : a.unknCnt < 2 ^ 31 := by
      rw [a.unknCnt_eq random]
      exact Int.bmod_lt (by decide)
    dsimp only at hlast
    rw [hvalue, if_neg (by omega)] at hlast
    exact Dbl.noConfusion hlast
  · intro hlt
    have hheader : r.headerSize ≤ 144 + 440 * r.valueSum := headerSize_le a random
    have hlen : r.headerSize + 8 * r.valueSum < 2 ^ 44 := by omega
    have hsize : r.newfileSize = r.headerSize + 8 * r.valueSum := by
      rw [Rrd.newfileSize, Rrd.wantedCnt_eq]
      exact Nat.mod_eq_of_lt (by omega)
    have h64 : r.headerSize + 8 * r.valueSum < 2 ^ 64 := by omega
    have hpages : (r.newfileSize - 1) / 4096 < 2 ^ 32 := by omega
    refine ⟨_, createFile_eq hv random h64 hpages, rfl, fun p hp => ?_, ?_⟩
    · have hcnt : a.unknCnt = (r.valueSum : ℤ) := by
        have h := a.unknCnt_of_lt random
        rw [Rrd.wantedCnt_eq] at h
        exact h hlt
      exact (hvalue p).trans (if_pos (by rw [hcnt]; exact_mod_cast hp))
    · rw [Rrd.correctLen_eq, Nat.mod_eq_of_lt (by omega)]
      exact lt_irrefl _

/-! ## The version -/

section Version

variable {hashedName idx : ℕ} {token : Text} {s t : RraSt}

theorem setRowCnt_version (h : setRowCnt token s = .ok t) : t.version = s.version := by
  unfold setRowCnt at h
  split_ifs at h
  cases h
  rfl

theorem rraToken1_version (h : rraToken1 token s = .ok t) : t.version = s.version := by
  unfold rraToken1 at h
  dsimp only at h
  split_ifs at h
  · cases h
    rfl
  · exact setRowCnt_version h

theorem rraToken2_version (h : rraToken2 hashedName token s = .ok t) : t.version = s.version := by
  unfold rraToken2 at h
  split at h <;> first
    | (split_ifs at h; cases h; rfl)
    | (obtain ⟨k, -, h⟩ := bind_eq_ok.mp h; split_ifs at h; cases h; rfl)
    | (cases h; rfl)

theorem rraToken3_version (h : rraToken3 token s = .ok t) : t.version = s.version := by
  unfold rraToken3 at h
  split at h <;> first
    | (cases h; rfl)
    | cases h
    | (dsimp only at h; split_ifs at h; cases h; rfl)
    | exact setRowCnt_version h

/-- Only a smoothing window asks for another version. -/
theorem rraToken4_version (h : rraToken4 token s = .ok t) :
    t.version = s.version ∨ t.version = 4 := by
  unfold rraToken4 at h
  split at h
  · cases h
    exact .inl rfl
  · split at h
    · cases h
    · split_ifs at h
      cases h
      exact .inr rfl
  · split at h
    · cases h
    · split_ifs at h
      cases h
      exact .inr rfl
  · dsimp only at h
    split_ifs at h
    cases h
    exact .inl rfl
  · dsimp only at h
    split_ifs at h
    cases h
    exact .inl rfl
  · cases h

theorem rraToken_version (h : rraToken hashedName idx token s = .ok t) :
    t.version = s.version ∨ t.version = 4 := by
  unfold rraToken at h
  split at h
  · exact .inl (rraToken1_version h)
  · exact .inl (rraToken2_version h)
  · exact .inl (rraToken3_version h)
  · exact rraToken4_version h
  · cases h
    exact .inl rfl
  · cases h

theorem rraTokens_version {tokens : List Text}
    (h : rraTokens hashedName idx tokens s = .ok t) : t.version = s.version ∨ t.version = 4 := by
  induction tokens generalizing idx s with
  | nil =>
    cases h
    exact .inl rfl
  | cons token tokens ih =>
    obtain ⟨u, hu, h⟩ := bind_eq_ok.mp h
    rcases ih h with hsame | h4
    · rw [hsame]
      exact rraToken_version hu
    · exact .inr h4

/-- An archive keeps the version, or asks for the fourth. -/
theorem parseRra_version {version period : ℕ} {tokens : List Text}
    (h : parseRra hashedName idx version period tokens = .ok s) :
    s.version = version ∨ s.version = 4 := by
  unfold parseRra at h
  split at h
  · cases h
  · obtain ⟨cf, -, h⟩ := bind_eq_ok.mp h
    obtain ⟨u, hu, h⟩ := bind_eq_ok.mp h
    split_ifs at h
    cases h
    rcases rraTokens_version hu with hsame | h4
    · rw [hsame]
      dsimp only
      split_ifs
      · exact .inr rfl
      · exact .inl rfl
    · exact .inr h4

theorem createArgs_version {args : List Text} {d d' : Defs} (hd : d.version = 3 ∨ d.version = 4)
    (h : createArgs hashedName args d = .ok d') : d'.version = 3 ∨ d'.version = 4 := by
  induction args generalizing d with
  | nil =>
    cases h
    exact hd
  | cons arg args ih =>
    obtain ⟨d₁, h₁, h⟩ := bind_eq_ok.mp h
    refine ih ?_ h
    rcases createArg_eq_ok h₁ with ⟨_, _, -, -, rfl⟩ | ⟨_, s, _, -, -, hs, -, rfl⟩
    · exact hd
    · rcases parseRra_version hs with hsame | h4
      · exact hsame ▸ hd
      · exact .inr h4

/-- A new file has version 3 or 4. -/
theorem version_of_rrdCreateR {pdpStep : ℕ} {args : List Text} {d : Defs}
    (h : rrdCreateR hashedName pdpStep args = .ok d) : d.version = 3 ∨ d.version = 4 := by
  obtain ⟨d', hd', h⟩ := bind_eq_ok.mp h
  split_ifs at h
  cases h
  exact createArgs_version (.inl rfl) hd'

end Version

/-! ## Created files -/

/-- **A created file is whole** exactly where an `int` can count its values. -/
theorem created_whole_iff {hashedName pdpStep : ℕ} {args : List Text} {d : Defs} (lastUp : ℕ)
    (random : ℕ → ℕ) (h : rrdCreateR hashedName pdpStep args = .ok d) :
    let a := d.toArgs pdpStep lastUp (accepted_of_rrdCreateR h).1 (accepted_of_rrdCreateR h).2
    (∃ f, createFile a random = some f ∧ f.Whole (rrdCreateFn a random)) ↔
      ∑ i ∈ Finset.range a.rraCnt, a.dsCnt * (a.rraDef i).rowCnt < 2 ^ 31 := by
  intro a
  have hv : 3 ≤ a.version := by
    rcases version_of_rrdCreateR h with h3 | h4
    · exact h3.ge
    · exact le_trans (Nat.le_succ 3) h4.ge
  exact createFile_whole_iff hv random

theorem newCompute_whole :
    (∃ f, createFile (computeDefs.toArgs 300 900 computeDefs_accepted computeDefs_step) (fun _ => 0) =
        some f ∧ f.Whole newCompute) ↔
      ∑ i ∈ Finset.range 1, 2 * ((computeDefs.toArgs 300 900 computeDefs_accepted
        computeDefs_step).rraDef i).rowCnt < 2 ^ 31 :=
  created_whole_iff 900 (fun _ => 0) computeDefs_created

/-- Two data sources with as many rows as an `int` can count. -/
def wideArgs : List Text :=
  ["DS:a:GAUGE:600:U:U".toList, "DS:b:GAUGE:600:U:U".toList, "RRA:AVERAGE:0.5:1:2147483647".toList]

/-- What `rrd_create_r` makes of them. -/
def wideDefs : Defs where
  version := 3
  ds := [⟨['a'], .gauge, .generic 600 dnan dnan⟩, ⟨['b'], .gauge, .generic 600 dnan dnan⟩]
  rras := [⟨.average, 2147483647, 1, .num (1 / 2), .num 0, .num 0, 0, 0, 0⟩]
  period := 0

theorem wideDefs_created : rrdCreateR 0 300 wideArgs = .ok wideDefs := by decide +kernel

/-- **A file that is not unknown**: its values are counted to `-2`, and stay zero. -/
theorem wide_not_whole : ¬ ∀ (hashedName pdpStep : ℕ) (args : List Text) (d : Defs) (lastUp : ℕ)
    (random : ℕ → ℕ) (h : rrdCreateR hashedName pdpStep args = .ok d),
    let a := d.toArgs pdpStep lastUp (accepted_of_rrdCreateR h).1 (accepted_of_rrdCreateR h).2
    ∃ f, createFile a random = some f ∧ f.Whole (rrdCreateFn a random) := by
  intro hall
  have hwhole := (createFile_whole_iff (le_refl 3) fun _ => 0).mp
    (hall 0 300 wideArgs wideDefs 900 (fun _ => 0) wideDefs_created)
  exact absurd hwhole (by decide +kernel)

end Rrdtool
