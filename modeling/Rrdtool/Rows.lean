import Rrdtool.Frame

/-!
# Writing rows

`write_to_rras` as a whole: which rows it writes, where they lie and what they hold. The
log `notified` of `rrd_notify_row` calls names every row that was written, by its RRA and
its first position.

* `writeRRARow_ok` — one row, cell by cell;
* `writeRows_ok` — the rows of one RRA: the current row steps once for each, a skipped row
  writes nothing;
* `writeToRras_ok` — all RRAs, each from its own `rra_step_cnt`.
-/

namespace Rrdtool

open Loop

variable {s t : Upd}

/-! ## One row -/

/-- The data area after the first `k` values of the row of RRA `rraIdx` have been stored at
`pos`. -/
def storeCells (r : Rrd) (rraIdx : ℕ) (sc : ScratchIdx) (pos k : ℕ) : ℕ → RrdValue := fun q =>
  if pos ≤ q ∧ q < pos + k then (r.cdpPrep (r.cdpIdx rraIdx (q - pos))).scratch sc
  else r.values q

/-- The data area after the row of RRA `rraIdx` has been stored at `pos`. -/
abbrev storeRow (r : Rrd) (rraIdx : ℕ) (sc : ScratchIdx) (pos : ℕ) : ℕ → RrdValue :=
  storeCells r rraIdx sc pos r.dsCnt

theorem storeCells_zero (r : Rrd) (rraIdx : ℕ) (sc : ScratchIdx) (pos : ℕ) :
    storeCells r rraIdx sc pos 0 = r.values :=
  funext fun _ => if_neg (by omega)

theorem storeCells_succ (r : Rrd) (rraIdx : ℕ) (sc : ScratchIdx) (pos k : ℕ) :
    Function.update (storeCells r rraIdx sc pos k) (pos + k)
      ((r.cdpPrep (r.cdpIdx rraIdx k)).scratch sc) = storeCells r rraIdx sc pos (k + 1) := by
  funext q
  unfold storeCells
  by_cases hq : q = pos + k
  · subst hq
    have hin : pos ≤ pos + k ∧ pos + k < pos + (k + 1) := by omega
    simp [hin]
  · rw [Function.update_of_ne hq]
    have hiff : (pos ≤ q ∧ q < pos + (k + 1)) ↔ (pos ≤ q ∧ q < pos + k) := by omega
    simp only [hiff]

/-- `write_RRA_row` stores one value of each DS and moves the position past them. -/
theorem writeRRARow_ok {rraIdx : ℕ} {sc : ScratchIdx} (h : writeRRARow rraIdx sc s = .ok t) :
    t = { s with
      rrd := { s.rrd with values := storeRow s.rrd rraIdx sc s.pos },
      pos := s.pos + s.rrd.dsCnt } := by
  refine forLoopE_invariant (fun k (u : Upd) => u = { s with
    rrd := { s.rrd with values := storeCells s.rrd rraIdx sc s.pos k }, pos := s.pos + k }) ?_ ?_ h
  · rw [storeCells_zero]
    rfl
  · rintro k u v - rfl hv
    unfold rrdWrite at hv
    split_ifs at hv
    obtain rfl := Outcome.ok.inj hv
    rw [← storeCells_succ]
    rfl

/-- One pass of the inner loop of `write_to_rras`, on a row that is written. -/
theorem writeNextRow_ok {rraIdx : ℕ} {sc : ScratchIdx} (hs : s.skipUpdate rraIdx = false)
    (h : writeNextRow rraIdx sc s = .ok t) :
    ∃ pos, t = { seekNextRow rraIdx s with
      rrd := { (seekNextRow rraIdx s).rrd with
        values := storeRow s.rrd rraIdx sc (seekNextRow rraIdx s).pos },
      pos := pos,
      notified := s.notified ++ [(rraIdx, (seekNextRow rraIdx s).pos)] } := by
  unfold writeNextRow at h
  have hs' : (seekNextRow rraIdx s).skipUpdate rraIdx = false := hs
  simp only [hs', Bool.false_eq_true, if_false] at h
  obtain ⟨u, hu, ht⟩ := Outcome.andThen_eq_ok.mp h
  obtain rfl := writeRRARow_ok hu
  obtain rfl := Outcome.ok.inj ht
  exact ⟨_, rfl⟩

/-- One pass of the inner loop of `write_to_rras`, on a row that is skipped. -/
theorem writeNextRow_skip {rraIdx : ℕ} {sc : ScratchIdx} (hs : s.skipUpdate rraIdx = true) :
    writeNextRow rraIdx sc s = .ok (seekNextRow rraIdx s) := by
  unfold writeNextRow
  have hs' : (seekNextRow rraIdx s).skipUpdate rraIdx = true := hs
  simp only [hs', if_true]

/-! ## Where rows lie -/

/-- A row of the log: it starts inside the block of its RRA, at a multiple of the row size. -/
def RowInBlock (r : Rrd) (x : ℕ × ℕ) : Prop :=
  x.1 < r.rraCnt ∧ ∃ row, row < (r.rraDef x.1).rowCnt ∧ x.2 = r.rraStart x.1 + r.dsCnt * row

/-- Position `q` belongs to the row that starts at `x.2`. -/
def InRow (r : Rrd) (x : ℕ × ℕ) (q : ℕ) : Prop := x.2 ≤ q ∧ q < x.2 + r.dsCnt

/-- All positions of such a row are inside the block of the RRA. -/
theorem RowInBlock.inBlock {r : Rrd} {x : ℕ × ℕ} (h : RowInBlock r x) {q : ℕ}
    (hq : InRow r x q) : r.rraStart x.1 ≤ q ∧ q < r.rraStart (x.1 + 1) := by
  obtain ⟨-, row, hrow, hx⟩ := h
  unfold InRow at hq
  rw [Rrd.rraStart_succ]
  have hle : r.dsCnt * (row + 1) ≤ (r.rraDef x.1).rowCnt * r.dsCnt := by
    rw [Nat.mul_comm]
    exact Nat.mul_le_mul_right _ hrow
  rw [Nat.mul_add] at hle
  omega

/-- The effect of a part of `write_to_rras`: new entries of the log are rows inside their
blocks, and no position outside of them has changed. -/
def WritesRows (s t : Upd) : Prop :=
  RowFrame s t ∧ ∃ rows, t.notified = s.notified ++ rows ∧
    (∀ x ∈ rows, RowInBlock s.rrd x) ∧
    ∀ q, (∀ x ∈ rows, ¬InRow s.rrd x q) → t.rrd.values q = s.rrd.values q

theorem WritesRows.refl (s : Upd) : WritesRows s s :=
  ⟨RowFrame.refl s, [], by simp, by simp, fun _ _ => rfl⟩

theorem RowFrame.rraStart_eq (h : RowFrame s t) (i : ℕ) : t.rrd.rraStart i = s.rrd.rraStart i := by
  obtain ⟨_, _, _, _, _, rfl⟩ := h
  rfl

theorem RowFrame.rowInBlock (h : RowFrame s t) {x : ℕ × ℕ} :
    RowInBlock t.rrd x ↔ RowInBlock s.rrd x := by
  obtain ⟨_, _, _, _, _, rfl⟩ := h
  rfl

theorem RowFrame.inRow (h : RowFrame s t) {x : ℕ × ℕ} {q : ℕ} :
    InRow t.rrd x q ↔ InRow s.rrd x q := by
  obtain ⟨_, _, _, _, _, rfl⟩ := h
  rfl

theorem WritesRows.trans {s t u : Upd} (h : WritesRows s t) (h' : WritesRows t u) :
    WritesRows s u := by
  obtain ⟨hf, rows, hn, hb, hv⟩ := h
  obtain ⟨hf', rows', hn', hb', hv'⟩ := h'
  refine ⟨hf.trans hf', rows ++ rows', by rw [hn', hn, List.append_assoc], ?_, ?_⟩
  · intro x hx
    rcases List.mem_append.mp hx with hx | hx
    · exact hb x hx
    · exact hf.rowInBlock.mp (hb' x hx)
  · intro q hq
    rw [hv' q fun x hx => hf.inRow.not.mpr (hq x (List.mem_append_right _ hx))]
    exact hv q fun x hx => hq x (List.mem_append_left _ hx)

/-! ## The rows of one RRA -/

/-- The current row after `n` rows. -/
def stepRow (rowCnt n row : ℕ) : ℕ := (Ring.next rowCnt)^[n] row

theorem stepRow_succ (rowCnt n row : ℕ) :
    stepRow rowCnt (n + 1) row = stepRow rowCnt n (Ring.next rowCnt row) := rfl

/-- Stepping `n` times is adding `n`, modulo the number of rows. -/
theorem stepRow_eq_mod {rowCnt n row : ℕ} (h : row < rowCnt) :
    stepRow rowCnt n row = (row + n) % rowCnt := by
  induction n generalizing row with
  | zero => exact (Nat.mod_eq_of_lt h).symm
  | succ n ih =>
    rw [stepRow_succ, ih (Ring.next_lt (by omega) row), Ring.next_eq_mod h, Nat.mod_add_mod]
    congr 1
    omega

theorem writeNextRow_writes {rraIdx : ℕ} {sc : ScratchIdx} (hi : rraIdx < s.rrd.rraCnt)
    (hc : 0 < (s.rrd.rraDef rraIdx).rowCnt) (h : writeNextRow rraIdx sc s = .ok t) :
    WritesRows s t ∧ t.rraStepCnt = s.rraStepCnt ∧
      t.rrd.curRow = Function.update s.rrd.curRow rraIdx
        (Ring.next (s.rrd.rraDef rraIdx).rowCnt (s.rrd.curRow rraIdx)) := by
  have hf : RowFrame s t := by simpa [h] using writeNextRow_state rraIdx sc s
  cases hs : s.skipUpdate rraIdx with
  | true =>
    rw [writeNextRow_skip hs] at h
    obtain rfl := Outcome.ok.inj h
    exact ⟨⟨hf, [], by simp [seekNextRow], by simp, fun _ _ => rfl⟩, rfl, rfl⟩
  | false =>
    obtain ⟨pos, rfl⟩ := writeNextRow_ok hs h
    refine ⟨⟨hf, [(rraIdx, (seekNextRow rraIdx s).pos)], rfl, ?_, ?_⟩, rfl, rfl⟩
    · intro x hx
      obtain rfl := List.mem_singleton.mp hx
      exact ⟨hi, _, Ring.next_lt hc _, rfl⟩
    · intro q hq
      exact if_neg (hq _ (List.mem_singleton.mpr rfl))

/-- **The rows of one RRA.** Every row is inside the block, the current row has stepped once
for each of them, and no other RRA has moved. -/
theorem writeRows_ok {rraIdx n : ℕ} {sc : ScratchIdx} (hi : rraIdx < s.rrd.rraCnt)
    (hc : 0 < (s.rrd.rraDef rraIdx).rowCnt) (h : writeRows rraIdx n sc s = .ok t) :
    WritesRows s t ∧ (∀ j, j ≠ rraIdx → t.rraStepCnt j = s.rraStepCnt j) ∧
      t.rrd.curRow = Function.update s.rrd.curRow rraIdx
        (stepRow (s.rrd.rraDef rraIdx).rowCnt n (s.rrd.curRow rraIdx)) := by
  induction n generalizing sc s with
  | zero =>
    obtain rfl := Outcome.ok.inj h
    exact ⟨WritesRows.refl s, fun _ _ => rfl, by simp [stepRow]⟩
  | succ n ih =>
    obtain ⟨u, hu, ht⟩ := Outcome.andThen_eq_ok.mp h
    obtain ⟨hw, hcnt, hrow⟩ := writeNextRow_writes hi hc hu
    set u' : Upd := { u with rraStepCnt := Function.update u.rraStepCnt rraIdx n }
    have hdef : u'.rrd.rraDef = s.rrd.rraDef ∧ u'.rrd.rraCnt = s.rrd.rraCnt := by
      obtain ⟨_, _, _, _, _, rfl⟩ := hw.1
      exact ⟨rfl, rfl⟩
    have hwu : WritesRows s u' := by
      obtain ⟨hf, rows, hn, hb, hv⟩ := hw
      exact ⟨hf.trans ⟨u.rrd.curRow, u.rrd.values, _, u.pos, u.notified, rfl⟩, rows, hn, hb, hv⟩
    obtain ⟨hw', hcnt', hrow'⟩ := ih (by rw [hdef.2]; exact hi) (by rw [hdef.1]; exact hc) ht
    refine ⟨hwu.trans hw', fun j hj => ?_, ?_⟩
    · rw [hcnt' j hj, ← hcnt]
      exact Function.update_of_ne hj n u.rraStepCnt
    · rw [hrow', hdef.1, show u'.rrd.curRow = _ from hrow]
      simp [stepRow_succ]

/-! ## All RRAs -/

/-- **`write_to_rras`.** Every RRA steps by its own `rra_step_cnt`. -/
theorem writeToRras_ok (hc : ∀ i, i < s.rrd.rraCnt → 0 < (s.rrd.rraDef i).rowCnt)
    (h : writeToRras s = .ok t) :
    WritesRows s t ∧ ∀ i, i < s.rrd.rraCnt → t.rrd.curRow i =
      stepRow (s.rrd.rraDef i).rowCnt (s.rraStepCnt i) (s.rrd.curRow i) := by
  have hinv := forLoopE_invariant (fun k u => WritesRows s u ∧
      (∀ i, i < k → u.rrd.curRow i =
        stepRow (s.rrd.rraDef i).rowCnt (s.rraStepCnt i) (s.rrd.curRow i)) ∧
      ∀ i, k ≤ i → u.rrd.curRow i = s.rrd.curRow i ∧ u.rraStepCnt i = s.rraStepCnt i)
    ⟨WritesRows.refl s, by simp, fun _ _ => ⟨rfl, rfl⟩⟩ ?_ h
  · exact ⟨hinv.1, hinv.2.1⟩
  · rintro k u v hk ⟨hw, hlo, hhi⟩ hv
    have hdef : u.rrd.rraDef = s.rrd.rraDef ∧ u.rrd.rraCnt = s.rrd.rraCnt := by
      obtain ⟨_, _, _, _, _, rfl⟩ := hw.1
      exact ⟨rfl, rfl⟩
    obtain ⟨hcur, hcnt⟩ := hhi k le_rfl
    obtain ⟨hw', hcnt', hrow⟩ :=
      writeRows_ok (by rw [hdef.2]; exact hk) (by rw [hdef.1]; exact hc k hk) hv
    refine ⟨hw.trans hw', ?_, ?_⟩
    · intro i hi
      rw [hrow]
      rcases Nat.lt_succ_iff_lt_or_eq.mp hi with hlt | rfl
      · rw [Function.update_of_ne (by omega), hlo i hlt]
      · rw [Function.update_self, hdef.1, hcur, hcnt]
    · intro i hi
      rw [hrow, Function.update_of_ne (by omega), hcnt' i (by omega)]
      exact hhi i (by omega)

end Rrdtool
