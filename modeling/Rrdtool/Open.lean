import Rrdtool.Update
import Mathlib.Algebra.BigOperators.Intervals

/-!
# Opening a file

`rrd_open` maps the file and lays the structures of the header over it, one after the other. Their
numbers are words of the file. The sizes are computed in a `size_t` and compared with the length of the
file.

* `rrdOpen_layout_iff` — what has been opened lies in the file, structure after structure and row after
  row, if and only if its length does not wrap around.
-/

namespace Rrdtool

open Loop

/-! ## The mapping -/

/-- The bytes of a file, and what is found in memory behind them. -/
structure Mapping : Type where
  /-- the content of the file -/
  bytes : List UInt8
  /-- `st_size` is an `off_t` -/
  length_lt : bytes.length < 2 ^ 63
  /-- the memory behind the file; where nothing is mapped, there is no byte to read -/
  behind : ℕ → Option UInt8

/-- `file_len` -/
def Mapping.fileLen (m : Mapping) : ℕ := m.bytes.length

/-- The byte at `data + k`. -/
def Mapping.byte (m : Mapping) (k : ℕ) : Option UInt8 :=
  if k < m.fileLen then m.bytes[k]? else m.behind (k - m.fileLen)

/-- The `unsigned long` in the first bytes, lowest byte first. -/
def leWord : ℕ → (ℕ → Option UInt8) → Option ℕ
  | 0, _ => some 0
  | n + 1, byte => do
    let b ← byte 0
    let high ← leWord n fun k => byte (k + 1)
    return b.toNat + 256 * high

/-- The `unsigned long` at `data + k`. -/
def Mapping.ulongAt (m : Mapping) (k : ℕ) : Option ℕ := leWord 8 fun j => m.byte (k + j)

/-! ## The header -/

/-- The structures of the header. -/
inductive HeaderPart : Type where
  | statHead
  | dsDef
  | rraDef
  | legacyLastUp
  | liveHead
  | pdpPrep
  | cdpPrep
  | rraPtr
  deriving DecidableEq, Repr

/-- `sizeof`, on a 64 bit machine. -/
def HeaderPart.size : HeaderPart → ℕ
  | statHead => 128
  | dsDef => 120
  | rraDef => 120
  | legacyLastUp => 8
  | liveHead => 16
  | pdpPrep => 112
  | cdpPrep => 80
  | rraPtr => 8

/-- The errors of `rrd_open`. -/
inductive OpenError : Type where
  /-- `mmaping file '%s': %s` -/
  | mmap
  /-- `reached EOF while loading header` -/
  | eof (part : HeaderPart)
  /-- `'%s' is not an RRD file` -/
  | notRrd
  /-- `This RRD was created on another architecture` -/
  | architecture
  /-- `can't handle RRD file version %s` -/
  | version
  /-- `'%s' is too small (should be %ld bytes)` -/
  | tooSmall (correctLen : ℕ)
  /-- memory that is not mapped has been read: the process is gone -/
  | fault
  deriving DecidableEq, Repr

/-- `__rrd_read`: the offset behind the structures. -/
def rrdRead (m : Mapping) (part : HeaderPart) (cnt offset : ℕ) : Except OpenError ℕ :=
  let wanted := ulong (part.size * cnt)
  if m.fileLen < ulong (offset + wanted) then .error (.eof part) else .ok (ulong (offset + wanted))

/-- A test that sets an error. -/
def failIf (c : Prop) [Decidable c] (e : OpenError) : Except OpenError Unit :=
  if c then .error e else .ok ()

/-- `RRD_COOKIE`, with its NUL. -/
def rrdCookie : List UInt8 := [0x52, 0x52, 0x44, 0]

/-- `FLOAT_COOKIE`, the double `8.642135E130`. -/
def floatCookie : List UInt8 := [0x2F, 0x25, 0xC0, 0xC7, 0x43, 0x2B, 0x1F, 0x5B]

/-- `RRD_VERSION` -/
def rrdVersion : ℤ := 4

/-- The row counts of the first RRAs, added up in an `unsigned long`. -/
def sumRowCnt (m : Mapping) (rraDef : ℕ) : ℕ → Except OpenError ℕ
  | 0 => .ok 0
  | n + 1 => do
    let rowCnt ← sumRowCnt m rraDef n
    match m.ulongAt (rraDef + 120 * n + 24) with
    | none => .error .fault
    | some w => .ok (ulong (rowCnt + w))

/-- What `rrd_open` returns: where the structures are. -/
structure Opened : Type where
  /-- `atoi(version)` -/
  version : ℤ
  dsCnt : ℕ
  rraCnt : ℕ
  dsDef : ℕ
  rraDef : ℕ
  /-- `live_head`, or `legacy_last_up` -/
  liveHead : ℕ
  pdpPrep : ℕ
  cdpPrep : ℕ
  rraPtr : ℕ
  /-- `header_len` -/
  headerLen : ℕ
  /-- `rra_def[i].row_cnt` -/
  rowCnt : ℕ → ℕ

/-- The structure that holds the time of the last update. -/
def livePart (version : ℤ) : HeaderPart := if version < 3 then .legacyLastUp else .liveHead

/-- **`rrd_open`** for a file that exists. -/
def rrdOpen (m : Mapping) : Except OpenError Opened := do
  -- nothing cannot be mapped
  failIf (m.fileLen = 0) .mmap
  let dsDef ← rrdRead m .statHead 1 0
  failIf (m.bytes.take 4 ≠ rrdCookie) .notRrd
  failIf ((m.bytes.drop 16).take 8 ≠ floatCookie) .architecture
  let version := CStr.atoi ((m.bytes.drop 4).map fun b => Char.ofNat b.toNat)
  failIf (rrdVersion < version) .version
  let dsCnt := (m.ulongAt 24).getD 0
  let rraCnt := (m.ulongAt 32).getD 0
  let rraDef ← rrdRead m .dsDef dsCnt dsDef
  let liveHead ← rrdRead m .rraDef rraCnt rraDef
  let pdpPrep ← rrdRead m (livePart version) 1 liveHead
  let cdpPrep ← rrdRead m .pdpPrep dsCnt pdpPrep
  let rraPtr ← rrdRead m .cdpPrep (ulong (rraCnt * dsCnt)) cdpPrep
  let headerLen ← rrdRead m .rraPtr rraCnt rraPtr
  let rowCnt ← sumRowCnt m rraDef rraCnt
  let correctLen := ulong (headerLen + ulong (8 * rowCnt * dsCnt))
  failIf (m.fileLen < correctLen) (.tooSmall correctLen)
  return {
    version, dsCnt, rraCnt, dsDef, rraDef, liveHead, pdpPrep, cdpPrep, rraPtr, headerLen
    rowCnt := fun i => (m.ulongAt (rraDef + 120 * i + 24)).getD 0 }

/-! ## The layout -/

/-- The ranges `(start, length)` lie one after the other between `a` and `b`. -/
def Tiles (a : ℕ) : List (ℕ × ℕ) → ℕ → Prop
  | [], b => a ≤ b
  | p :: l, b => p.1 = a ∧ Tiles (a + p.2) l b

instance decidableTiles (a : ℕ) : (l : List (ℕ × ℕ)) → (b : ℕ) → Decidable (Tiles a l b)
  | [], b => inferInstanceAs (Decidable (a ≤ b))
  | p :: l, b =>
    have := decidableTiles (a + p.2) l b
    inferInstanceAs (Decidable (p.1 = a ∧ Tiles (a + p.2) l b))

/-- The structures of the header, and the values of every RRA. -/
def Opened.ranges (o : Opened) : List (ℕ × ℕ) :=
  [(0, 128), (o.dsDef, 120 * o.dsCnt), (o.rraDef, 120 * o.rraCnt),
    (o.liveHead, (livePart o.version).size), (o.pdpPrep, 112 * o.dsCnt),
    (o.cdpPrep, 80 * (o.rraCnt * o.dsCnt)), (o.rraPtr, 8 * o.rraCnt)] ++
  (List.range o.rraCnt).map fun i =>
    (o.headerLen + 8 * ((∑ j ∈ Finset.range i, o.rowCnt j) * o.dsCnt), 8 * (o.rowCnt i * o.dsCnt))

/-- The length of a file with this header. -/
def Opened.length (o : Opened) : ℕ :=
  128 + 120 * o.dsCnt + 120 * o.rraCnt + (livePart o.version).size + 112 * o.dsCnt +
    80 * (o.rraCnt * o.dsCnt) + 8 * o.rraCnt + 8 * ((∑ i ∈ Finset.range o.rraCnt, o.rowCnt i) * o.dsCnt)

/-- The rows of the RRAs follow each other; where the first ones start and the last ones end is open. -/
theorem tiles_rows (rowCnt : ℕ → ℕ) (dsCnt start : ℕ) (n b : ℕ) (l : List (ℕ × ℕ)) :
    Tiles start ((List.range n).map (fun i =>
      (start + 8 * ((∑ j ∈ Finset.range i, rowCnt j) * dsCnt), 8 * (rowCnt i * dsCnt))) ++ l) b ↔
      Tiles (start + 8 * ((∑ i ∈ Finset.range n, rowCnt i) * dsCnt)) l b := by
  induction n generalizing l with
  | zero => simp
  | succ n ih =>
    rw [List.range_succ, List.map_append, List.append_assoc, ih, Finset.sum_range_succ]
    simp only [List.map_cons, List.map_nil, List.singleton_append, Tiles, true_and]
    rw [Nat.add_mul, Nat.mul_add, ← Nat.add_assoc]

/-- Ranges that follow each other take the sum of their lengths. -/
theorem Tiles.sum_le {a b : ℕ} {l : List (ℕ × ℕ)} (h : Tiles a l b) : a + (l.map Prod.snd).sum ≤ b := by
  induction l generalizing a with
  | nil => exact h
  | cons p l ih =>
    rw [List.map_cons, List.sum_cons, ← Nat.add_assoc]
    exact ih h.2

theorem sum_rows (rowCnt : ℕ → ℕ) (dsCnt n : ℕ) :
    ((List.range n).map fun i => 8 * (rowCnt i * dsCnt)).sum =
      8 * ((∑ i ∈ Finset.range n, rowCnt i) * dsCnt) := by
  induction n with
  | zero => simp
  | succ n ih =>
    rw [List.range_succ, List.map_append, List.sum_append, ih, Finset.sum_range_succ, Nat.add_mul,
      Nat.mul_add]
    simp

/-- `__rrd_read` that succeeds. -/
theorem rrdRead_ok {m : Mapping} {part : HeaderPart} {cnt offset next : ℕ}
    (h : rrdRead m part cnt offset = .ok next) :
    next = (offset + part.size * cnt) % 2 ^ 64 ∧ next ≤ m.fileLen := by
  simp only [rrdRead, ulong, Nat.add_mod_mod] at h
  split_ifs at h with hlen
  cases h
  exact ⟨rfl, not_lt.mp hlen⟩

theorem failIf_ok {c : Prop} [Decidable c] {e : OpenError} {x : Unit} (h : failIf c e = .ok x) : ¬c := by
  intro hc
  rw [failIf, if_pos hc] at h
  cases h

/-- The row counts add up, but for the wrap-around. -/
theorem sumRowCnt_ok {m : Mapping} {rraDef n s : ℕ} (h : sumRowCnt m rraDef n = .ok s) :
    s = (∑ i ∈ Finset.range n, (m.ulongAt (rraDef + 120 * i + 24)).getD 0) % 2 ^ 64 := by
  induction n generalizing s with
  | zero =>
    cases h
    rfl
  | succ n ih =>
    obtain ⟨s', hs', h⟩ := bind_eq_ok.mp h
    cases hw : m.ulongAt (rraDef + 120 * n + 24) with
    | none =>
      rw [hw] at h
      cases h
    | some w =>
      rw [hw] at h
      cases h
      rw [Finset.sum_range_succ, hw, ih hs', ulong, Nat.mod_add_mod]
      rfl

/-- **What has been opened.** -/
theorem rrdOpen_ok {m : Mapping} {o : Opened} (h : rrdOpen m = .ok o) :
    o.dsDef = 128 ∧ o.rraDef = (o.dsDef + 120 * o.dsCnt) % 2 ^ 64 ∧
      o.liveHead = (o.rraDef + 120 * o.rraCnt) % 2 ^ 64 ∧
      o.pdpPrep = (o.liveHead + (livePart o.version).size) % 2 ^ 64 ∧
      o.cdpPrep = (o.pdpPrep + 112 * o.dsCnt) % 2 ^ 64 ∧
      o.rraPtr = (o.cdpPrep + 80 * (o.rraCnt * o.dsCnt)) % 2 ^ 64 ∧
      o.headerLen = (o.rraPtr + 8 * o.rraCnt) % 2 ^ 64 ∧
      (o.headerLen + 8 * ((∑ i ∈ Finset.range o.rraCnt, o.rowCnt i) * o.dsCnt)) % 2 ^ 64 ≤ m.fileLen := by
  obtain ⟨-, -, h⟩ := bind_eq_ok.mp h
  obtain ⟨dsDef, hds, h⟩ := bind_eq_ok.mp h
  obtain ⟨-, -, h⟩ := bind_eq_ok.mp h
  obtain ⟨-, -, h⟩ := bind_eq_ok.mp h
  obtain ⟨-, -, h⟩ := bind_eq_ok.mp h
  obtain ⟨rraDef, hrra, h⟩ := bind_eq_ok.mp h
  obtain ⟨liveHead, hlive, h⟩ := bind_eq_ok.mp h
  obtain ⟨pdpPrep, hpdp, h⟩ := bind_eq_ok.mp h
  obtain ⟨cdpPrep, hcdp, h⟩ := bind_eq_ok.mp h
  obtain ⟨rraPtr, hptr, h⟩ := bind_eq_ok.mp h
  obtain ⟨headerLen, hlen, h⟩ := bind_eq_ok.mp h
  obtain ⟨rowCnt, hrows, h⟩ := bind_eq_ok.mp h
  obtain ⟨_, hfits, h⟩ := bind_eq_ok.mp h
  cases h
  have hfits := failIf_ok hfits
  have hcdp' := (rrdRead_ok hptr).1
  rw [sumRowCnt_ok hrows, ulong, ulong] at hfits
  refine ⟨(rrdRead_ok hds).1, (rrdRead_ok hrra).1, (rrdRead_ok hlive).1, ?_, (rrdRead_ok hcdp).1, ?_,
    (rrdRead_ok hlen).1, ?_⟩
  · rw [(rrdRead_ok hpdp).1, Nat.mul_one]
  · rw [hcdp', ulong]
    simp [Nat.add_mod, Nat.mul_mod, HeaderPart.size]
  · refine le_trans (le_of_eq ?_) (not_lt.mp hfits)
    simp [Nat.add_mod, Nat.mul_mod, Nat.mul_assoc]

/-- Each structure ends inside the length. -/
theorem Opened.le_length (o : Opened) :
    128 + 120 * o.dsCnt ≤ o.length ∧ 128 + 120 * o.dsCnt + 120 * o.rraCnt ≤ o.length ∧
      128 + 120 * o.dsCnt + 120 * o.rraCnt + (livePart o.version).size ≤ o.length ∧
      128 + 120 * o.dsCnt + 120 * o.rraCnt + (livePart o.version).size + 112 * o.dsCnt ≤ o.length ∧
      128 + 120 * o.dsCnt + 120 * o.rraCnt + (livePart o.version).size + 112 * o.dsCnt +
        80 * (o.rraCnt * o.dsCnt) ≤ o.length ∧
      128 + 120 * o.dsCnt + 120 * o.rraCnt + (livePart o.version).size + 112 * o.dsCnt +
        80 * (o.rraCnt * o.dsCnt) + 8 * o.rraCnt ≤ o.length := by
  rw [Opened.length]
  omega

theorem no_wrap {x y a n total : ℕ} (h : x = (y + a) % n) (hle : y + a ≤ total) (ht : total < n) :
    x = y + a :=
  h.trans (Nat.mod_eq_of_lt (hle.trans_lt ht))

/-- **Opening validates the layout**, if and only if the length that the header asks for does not wrap
around in 64 bits. -/
theorem rrdOpen_layout_iff {m : Mapping} {o : Opened} (h : rrdOpen m = .ok o) :
    Tiles 0 o.ranges m.fileLen ↔ o.length < 2 ^ 64 := by
  obtain ⟨hds, hrra, hlive, hpdp, hcdp, hptr, hlen, hfits⟩ := rrdOpen_ok h
  have hfile : m.fileLen < 2 ^ 63 := m.length_lt
  constructor
  · intro htiles
    have hsum := htiles.sum_le
    have hrows := sum_rows o.rowCnt o.dsCnt o.rraCnt
    simp only [Opened.ranges, List.map_append, List.map_map, List.sum_append, Function.comp_def, hrows,
      List.map_cons, List.map_nil, List.sum_cons, List.sum_nil] at hsum
    rw [Opened.length]
    omega
  · intro hlength
    -- nothing wraps around
    obtain ⟨h1, h2, h3, h4, h5, h6⟩ := o.le_length
    have hrra' := no_wrap hrra (by rw [hds]; exact h1) hlength
    rw [hds] at hrra'
    have hlive' := no_wrap hlive (by rw [hrra']; exact h2) hlength
    rw [hrra'] at hlive'
    have hpdp' := no_wrap hpdp (by rw [hlive']; exact h3) hlength
    rw [hlive'] at hpdp'
    have hcdp' := no_wrap hcdp (by rw [hpdp']; exact h4) hlength
    rw [hpdp'] at hcdp'
    have hptr' := no_wrap hptr (by rw [hcdp']; exact h5) hlength
    rw [hcdp'] at hptr'
    have hlen' := no_wrap hlen (by rw [hptr']; exact h6) hlength
    rw [hptr'] at hlen'
    have hvalues : (o.headerLen + 8 * ((∑ i ∈ Finset.range o.rraCnt, o.rowCnt i) * o.dsCnt)) = o.length := by
      rw [hlen']
      rfl
    rw [hvalues, Nat.mod_eq_of_lt hlength, ← hvalues] at hfits
    have hrows := tiles_rows o.rowCnt o.dsCnt o.headerLen o.rraCnt m.fileLen []
    rw [List.append_nil] at hrows
    simp only [Opened.ranges, List.cons_append, List.nil_append, Tiles, Nat.zero_add, true_and]
    refine ⟨hds, hrra', hlive', hpdp', hcdp', hptr', ?_⟩
    rw [← hlen']
    exact hrows.mpr hfits

/-- A `stat_head` of version `0003` with these numbers of data sources and archives; nothing behind the
file can be read. -/
def headed (dsCnt rraCnt rest : List UInt8) (h : rest.length < 2 ^ 62) (hd : dsCnt.length = 8)
    (hr : rraCnt.length = 8) : Mapping where
  bytes := rrdCookie ++ [0x30, 0x30, 0x30, 0x33, 0, 0, 0, 0, 0, 0, 0, 0] ++ floatCookie ++ dsCnt ++ rraCnt ++
    List.replicate 88 0 ++ rest
  length_lt := by
    simp only [rrdCookie, floatCookie, List.length_append, List.length_cons, List.length_nil,
      List.length_replicate, hd, hr]
    omega
  behind := fun _ => none

/-- One data source and one archive with one row. -/
def oneRow : Mapping :=
  headed [1, 0, 0, 0, 0, 0, 0, 0] [1, 0, 0, 0, 0, 0, 0, 0]
    (List.replicate 144 0 ++ [1, 0, 0, 0, 0, 0, 0, 0] ++ List.replicate 312 0) (by decide +kernel) rfl rfl

theorem oneRow_laid_out : ∃ o, rrdOpen oneRow = .ok o ∧ Tiles 0 o.ranges oneRow.fileLen := by
  have hok : (rrdOpen oneRow).toOption.isSome = true := by decide +kernel
  cases h : rrdOpen oneRow with
  | error e =>
    rw [h] at hok
    cases hok
  | ok o =>
    have hlength : ((rrdOpen oneRow).toOption.map Opened.length) = some 592 := by decide +kernel
    rw [h] at hlength
    refine ⟨o, rfl, (rrdOpen_layout_iff h).mpr ?_⟩
    rw [Option.some.inj hlength]
    decide

/-- **`2 ^ 61` data sources in 144 bytes**: 120 and 112 bytes for each of them are none at all. -/
theorem wrapped_layout :
    let m := headed [0, 0, 0, 0, 0, 0, 0, 0x20] [0, 0, 0, 0, 0, 0, 0, 0] (List.replicate 16 0) (by simp) rfl rfl
    m.fileLen = 144 ∧ ∃ o, rrdOpen m = .ok o ∧ o.dsCnt = 2 ^ 61 ∧ ¬Tiles 0 o.ranges m.fileLen := by
  intro m
  have hopen : (rrdOpen m).toOption.map (fun o => (o.dsCnt, decide (Tiles 0 o.ranges m.fileLen))) =
      some (2 ^ 61, false) := by decide +kernel
  refine ⟨by decide +kernel, ?_⟩
  cases h : rrdOpen m with
  | error e =>
    rw [h] at hopen
    cases hopen
  | ok o =>
    rw [h] at hopen
    obtain ⟨hds, htiles⟩ := Prod.mk.inj (Option.some.inj hopen)
    exact ⟨o, rfl, hds, of_decide_eq_false htiles⟩

end Rrdtool
