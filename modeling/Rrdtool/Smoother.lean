import Rrdtool.HwPass
import Rrdtool.Lib.Fifo
import Rrdtool.Lib.MovingMean
import Mathlib.Tactic.IntervalCases

/-!
# The smoother

`apply_smoother` replaces every value of a `SEASONAL` or `DEVSEASONAL` RRA by a moving average, in
place and in one pass over the rows. The values that leave the window come from a queue; the values
that enter it come from the rows, where after the wrap the first averages already stand.

* `movingAverages_eq` — the queues are lists;
* `moving_average_iff` — so the averages are right only where the first rows do not change;
* `renormalised_prediction_iff` — the renormalisation adds the baseline to the intercept for both
  models, which keeps the predictions of the additive one.
-/

namespace Rrdtool

open Loop
open scoped BigOperators

/-! ## With queues -/

/-- The local arrays of `apply_smoother`, with its queues. -/
structure QueueSmoother : Type where
  /-- `rrd_values` -/
  rrdValues : ℕ → RrdValue
  /-- `buffers` -/
  buffers : ℕ → Fifo RrdValue
  /-- `working_average` -/
  workingAverage : ℕ → RrdValue
  /-- `baseline` -/
  baseline : ℕ → RrdValue

/-- Add the value of row `k` to the window of DS `j`. -/
def QueueSmoother.push (m : QueueSmoother) (rowLength k j : ℕ) : QueueSmoother :=
  let v := m.rrdValues (k * rowLength + j)
  { m with
    workingAverage := Function.update m.workingAverage j (m.workingAverage j + v),
    buffers := Function.update m.buffers j ((m.buffers j).push v) }

/-- Store the mean of the window of DS `j` into row `k`, and pop the oldest value. -/
def QueueSmoother.emit (m : QueueSmoother) (offset rowLength k j : ℕ) : QueueSmoother :=
  let mean := m.workingAverage j / Dbl.ofNat (2 * offset + 1)
  { rrdValues := Function.update m.rrdValues (k * rowLength + j) mean,
    baseline := Function.update m.baseline j (m.baseline j + mean),
    workingAverage := Function.update m.workingAverage j
      (m.workingAverage j - (m.buffers j).front),
    buffers := Function.update m.buffers j (m.buffers j).pop }

/-- `apply_smoother`, up to the baseline. The queues come from `malloc`, so `junk` is in them. -/
def movingAverages (junk : ℕ → RrdValue) (offset rowCount rowLength : ℕ) (values : ℕ → RrdValue) :
    QueueSmoother :=
  let start : QueueSmoother :=
    ⟨values, fun _ => Fifo.alloc junk (2 * offset + 1), fun _ => .num 0, fun _ => .num 0⟩
  let filled := forLoop (2 * offset) (fun i m =>
    forLoop rowLength (fun j m => m.push rowLength (myMod (i - offset) rowCount) j) m) start
  let averaged := forLoop rowCount (fun i m =>
    forLoop rowLength (fun j m =>
      (m.push rowLength (myMod (i + offset) rowCount) j).emit offset rowLength
        (myMod i rowCount) j) m) filled
  { averaged with
    baseline := fun j =>
      if j < rowLength then averaged.baseline j / Dbl.ofNat rowCount else averaged.baseline j }

/-- What `apply_smoother` computes for an RRA before the baseline step. -/
def Rrd.movingAverages (rrd : Rrd) (junk : ℕ → RrdValue) (rraIdx : ℕ) : QueueSmoother :=
  Rrdtool.movingAverages junk (smootherOffset rrd rraIdx) (rrd.rraDef rraIdx).rowCnt rrd.dsCnt
    fun p => rrd.values (rrd.rraStart rraIdx + p)

/-! ## The queues are lists -/

/-- A queue that holds `len` values, those of a list. -/
structure QueueOf (capacity len : ℕ) (l : List RrdValue) (q : Fifo RrdValue) : Prop where
  holds : q.Holds l
  length : l.length = len
  capacity : q.capacity = capacity

theorem QueueOf.push {c n : ℕ} {l : List RrdValue} {q : Fifo RrdValue} (h : QueueOf c n l q)
    (hn : n < c) (v : RrdValue) : QueueOf c (n + 1) (l ++ [v]) (q.push v) where
  holds := by
    apply h.holds.push
    rw [h.length, h.capacity]
    exact hn
  length := by rw [List.length_append, h.length, List.length_singleton]
  capacity := h.capacity

theorem QueueOf.pop {c n : ℕ} {l : List RrdValue} {q : Fifo RrdValue} (h : QueueOf c (n + 1) l q) :
    q.front = l.headD dnan ∧ QueueOf c n l.tail q.pop := by
  obtain ⟨a, l, rfl⟩ : ∃ a l', l = a :: l' :=
    List.exists_cons_of_length_pos (h.length ▸ Nat.succ_pos n)
  exact ⟨h.holds.front, h.holds.pop, Nat.succ.inj h.length, h.capacity⟩

/-- The same arrays, with a list of `len j` values for the queue of DS `j`. -/
structure SameWindow (offset rowLength : ℕ) (len : ℕ → ℕ) (m : Smoother) (q : QueueSmoother) :
    Prop where
  rrdValues : q.rrdValues = m.rrdValues
  workingAverage : q.workingAverage = m.workingAverage
  baseline : q.baseline = m.baseline
  queue : ∀ j, j < rowLength → QueueOf (2 * offset + 1) (len j) (m.buffers j) (q.buffers j)

/-- Three arrays stay related where one cell of each is stored. -/
theorem update_related {α β γ : Type} {P : α → β → γ → Prop} {f : ℕ → α} {g : ℕ → β} {h : ℕ → γ}
    {a : α} {b : β} {c : γ} {j d : ℕ} (hself : d = j → P a b c) (hrest : P (f d) (g d) (h d)) :
    P (Function.update f j a d) (Function.update g j b d) (Function.update h j c d) := by
  by_cases hdj : d = j
  · subst hdj
    rw [Function.update_self, Function.update_self, Function.update_self]
    exact hself rfl
  · rw [Function.update_of_ne hdj, Function.update_of_ne hdj, Function.update_of_ne hdj]
    exact hrest

variable {offset rowLength j : ℕ} {len : ℕ → ℕ} {m : Smoother} {q : QueueSmoother}

theorem SameWindow.push (h : SameWindow offset rowLength len m q) (hj : len j ≤ 2 * offset)
    (k : ℕ) : SameWindow offset rowLength (Function.update len j (len j + 1))
      (m.push rowLength k j) (q.push rowLength k j) where
  rrdValues := h.rrdValues
  workingAverage := by
    change Function.update q.workingAverage j _ = Function.update m.workingAverage j _
    rw [h.workingAverage, h.rrdValues]
  baseline := h.baseline
  queue d hd := by
    apply update_related (P := QueueOf (2 * offset + 1))
    · rintro rfl
      rw [h.rrdValues]
      exact (h.queue d hd).push (Nat.lt_succ_of_le hj) _
    · exact h.queue d hd

theorem SameWindow.emit {n : ℕ} (h : SameWindow offset rowLength len m q) (hj : j < rowLength)
    (hlen : len j = n + 1) (k : ℕ) : SameWindow offset rowLength (Function.update len j n)
      (m.emit offset rowLength k j) (q.emit offset rowLength k j) := by
  have hq := h.queue j hj
  rw [hlen] at hq
  obtain ⟨hfront, hpop⟩ := hq.pop
  refine ⟨?_, ?_, ?_, fun d hd => ?_⟩
  · change Function.update q.rrdValues _ _ = Function.update m.rrdValues _ _
    rw [h.rrdValues, h.workingAverage]
  · change Function.update q.workingAverage j _ = Function.update m.workingAverage j _
    rw [h.workingAverage, hfront]
  · change Function.update q.baseline j _ = Function.update m.baseline j _
    rw [h.baseline, h.workingAverage]
  · apply update_related (P := QueueOf (2 * offset + 1))
    · intro _
      exact hpop
    · exact h.queue d hd

theorem SameWindow.congr {len' : ℕ → ℕ} (h : SameWindow offset rowLength len m q)
    (heq : len = len') : SameWindow offset rowLength len' m q := heq ▸ h

/-- How many values are in the queue of each DS when the first `j` have got theirs in pass `i`. -/
def lengths (i j : ℕ) : ℕ → ℕ := fun d => if d < j then i + 1 else i

theorem update_lengths (i j : ℕ) :
    Function.update (lengths i j) j (lengths i j j + 1) = lengths i (j + 1) := by
  have hj : lengths i j j = i := if_neg (lt_irrefl j)
  rw [hj]
  exact update_below (fun _ => i + 1) fun _ => i

/-- The window fills the same way. -/
theorem SameWindow.fill {i : ℕ} (hi : i < 2 * offset) (k : ℕ)
    (h : SameWindow offset rowLength (fun _ => i) m q) :
    SameWindow offset rowLength (fun _ => i + 1)
      (forLoop rowLength (fun j m => m.push rowLength k j) m)
      (forLoop rowLength (fun j q => q.push rowLength k j) q) := by
  have hrun : SameWindow offset rowLength (lengths i rowLength)
      (forLoop rowLength (fun j m => m.push rowLength k j) m)
      (forLoop rowLength (fun j q => q.push rowLength k j) q) :=
    forLoop_rel (fun j => SameWindow offset rowLength (lengths i j)) (h.congr (by funext; rfl))
      fun j (m : Smoother) (q : QueueSmoother) _ hmq => by
        rw [← update_lengths]
        apply hmq.push
        simp only [lengths, lt_irrefl, if_false]
        exact hi.le
  exact { hrun with queue := fun j hj => by simpa [lengths, hj] using hrun.queue j hj }

/-- The averages are computed the same way. -/
theorem SameWindow.average (k k' : ℕ) (h : SameWindow offset rowLength (fun _ => 2 * offset) m q) :
    SameWindow offset rowLength (fun _ => 2 * offset)
      (forLoop rowLength (fun j m => (m.push rowLength k j).emit offset rowLength k' j) m)
      (forLoop rowLength (fun j q => (q.push rowLength k j).emit offset rowLength k' j) q) := by
  refine forLoop_rel (fun _ => SameWindow offset rowLength fun _ => 2 * offset) h ?_
  intro j m q hj hmq
  have hpush := hmq.push (le_refl (2 * offset)) (j := j) k
  have hemit := hpush.emit hj (Function.update_self ..) k'
  apply hemit.congr
  rw [Function.update_idem, Function.update_eq_self]

/-- **The queues are lists.** -/
theorem movingAverages_eq (junk : ℕ → RrdValue) (offset rowCount rowLength : ℕ)
    (values : ℕ → RrdValue) :
    (movingAverages junk offset rowCount rowLength values).rrdValues =
        (smootherAverages offset rowCount rowLength values).rrdValues ∧
      (movingAverages junk offset rowCount rowLength values).baseline =
        (smootherAverages offset rowCount rowLength values).baseline := by
  have hstart : SameWindow offset rowLength (fun _ => 0)
      ⟨values, fun _ => [], fun _ => .num 0, fun _ => .num 0⟩
      ⟨values, fun _ => Fifo.alloc junk (2 * offset + 1), fun _ => .num 0, fun _ => .num 0⟩ :=
    ⟨rfl, rfl, rfl, fun _ _ => ⟨Fifo.holds_alloc junk _, rfl, rfl⟩⟩
  have hfilled : SameWindow offset rowLength (fun _ => 2 * offset)
      (forLoop (2 * offset) (fun i m => forLoop rowLength
        (fun j (m : Smoother) => m.push rowLength (myMod (i - offset) rowCount) j) m) _)
      (forLoop (2 * offset) (fun i q => forLoop rowLength
        (fun j (q : QueueSmoother) => q.push rowLength (myMod (i - offset) rowCount) j) q) _) :=
    forLoop_rel (fun i => SameWindow offset rowLength fun _ => i) hstart
      fun i m q hi h => h.fill hi _
  have havg : SameWindow offset rowLength (fun _ => 2 * offset)
      (forLoop rowCount (fun i m => forLoop rowLength (fun j (m : Smoother) =>
        (m.push rowLength (myMod (i + offset) rowCount) j).emit offset rowLength
          (myMod i rowCount) j) m) _)
      (forLoop rowCount (fun i q => forLoop rowLength (fun j (q : QueueSmoother) =>
        (q.push rowLength (myMod (i + offset) rowCount) j).emit offset rowLength
          (myMod i rowCount) j) q) _) :=
    forLoop_rel (fun _ => SameWindow offset rowLength fun _ => 2 * offset) hfilled
      fun i m q _ h => h.average _ _
  refine ⟨havg.rrdValues, funext fun j => ?_⟩
  change (if j < rowLength then _ else _) = if j < rowLength then _ else _
  rw [havg.baseline]

/-! ## The rows -/

/-- DS `j` after `done` averages, with `len` values in its window; `x` is what its rows held. -/
structure Column (offset rowCount rowLength j : ℕ) (x : ℕ → ℚ) (done len : ℕ) (m : Smoother) :
    Prop where
  rrdValues : ∀ k, k < rowCount → m.rrdValues (k * rowLength + j) =
    .num (if k < done then Ring.inPlaceMean offset rowCount x k else x k)
  buffers : m.buffers j =
    (List.range len).map fun d => .num (Ring.entered offset rowCount x (done + d))
  workingAverage : m.workingAverage j =
    .num (∑ d ∈ Finset.range len, Ring.entered offset rowCount x (done + d))
  baseline : m.baseline j = .num (∑ k ∈ Finset.range done, Ring.inPlaceMean offset rowCount x k)

variable {rowCount k done n : ℕ} {x : ℕ → ℚ} {v : ℕ → ℕ → ℚ}

/-- A value enters the window. -/
theorem Column.push (h : Column offset rowCount rowLength j x done n m) (hk : k < rowCount)
    (hval : (if k < done then Ring.inPlaceMean offset rowCount x k else x k) =
      Ring.entered offset rowCount x (done + n)) :
    Column offset rowCount rowLength j x done (n + 1) (m.push rowLength k j) where
  rrdValues := h.rrdValues
  buffers := by
    change Function.update m.buffers j _ j = _
    rw [Function.update_self, h.buffers, h.rrdValues k hk, hval, List.range_succ, List.map_append]
    rfl
  workingAverage := by
    change Function.update m.workingAverage j _ j = _
    rw [Function.update_self, h.workingAverage, h.rrdValues k hk, hval, Finset.sum_range_succ]
    rfl
  baseline := h.baseline

/-- An average is stored, and its oldest value leaves the window. -/
theorem Column.emit (h : Column offset rowCount rowLength j x done (2 * offset + 1) m)
    (hj : j < rowLength) : Column offset rowCount rowLength j x (done + 1) (2 * offset)
      (m.emit offset rowLength done j) := by
  have hne : ((2 * offset + 1 : ℕ) : ℚ) ≠ 0 := Nat.cast_ne_zero.mpr (Nat.succ_ne_zero _)
  have hmean : m.workingAverage j / Dbl.ofNat (2 * offset + 1) =
      .num (Ring.inPlaceMean offset rowCount x done) := by
    rw [h.workingAverage, Dbl.ofNat, Dbl.num_div hne]
    rfl
  have hshift (d : ℕ) : done + (d + 1) = done + 1 + d := by omega
  refine ⟨fun k hk => ?_, ?_, ?_, ?_⟩
  · change Function.update m.rrdValues _ _ _ = _
    by_cases hkd : k = done
    · subst hkd
      rw [Function.update_self, hmean, if_pos (Nat.lt_succ_self k)]
    · have hidx : k * rowLength + j ≠ done * rowLength + j := fun heq => hkd (cdpIdx_inj hj hj heq).1
      rw [Function.update_of_ne hidx, h.rrdValues k hk]
      have hlt : k < done + 1 ↔ k < done := by omega
      simp only [hlt]
  · change Function.update m.buffers j _ j = _
    rw [Function.update_self, h.buffers, List.range_succ_eq_map, List.map_cons, List.tail_cons,
      List.map_map]
    apply List.map_congr_left
    intro d _
    exact congrArg (fun i => Dbl.num (Ring.entered offset rowCount x i)) (hshift d)
  · change Function.update m.workingAverage j _ j = _
    rw [Function.update_self, h.workingAverage, h.buffers, List.range_succ_eq_map, List.map_cons,
      List.headD_cons, Dbl.num_sub, Finset.sum_range_succ', add_sub_cancel_right]
    apply congrArg
    apply Finset.sum_congr rfl
    intro d _
    rw [hshift]
  · change Function.update m.baseline j _ j = _
    rw [Function.update_self, h.baseline, hmean, Finset.sum_range_succ]
    rfl

/-- Another DS keeps its window. -/
theorem Column.push_ne {d : ℕ} (h : Column offset rowCount rowLength j x done n m) (hjd : j ≠ d) :
    Column offset rowCount rowLength j x done n (m.push rowLength k d) where
  rrdValues := h.rrdValues
  buffers := (Function.update_of_ne hjd _ _).trans h.buffers
  workingAverage := (Function.update_of_ne hjd _ _).trans h.workingAverage
  baseline := h.baseline

/-- Another DS keeps its rows. -/
theorem Column.emit_ne {d : ℕ} (h : Column offset rowCount rowLength j x done n m) (hjd : j ≠ d)
    (hj : j < rowLength) (hd : d < rowLength) :
    Column offset rowCount rowLength j x done n (m.emit offset rowLength k d) where
  rrdValues i hi := (Function.update_of_ne (fun heq => hjd (cdpIdx_inj hj hd heq).2) _ _).trans
    (h.rrdValues i hi)
  buffers := (Function.update_of_ne hjd _ _).trans h.buffers
  workingAverage := (Function.update_of_ne hjd _ _).trans h.workingAverage
  baseline := (Function.update_of_ne hjd _ _).trans h.baseline

/-- All DSs. -/
def Columns (offset rowCount rowLength : ℕ) (v : ℕ → ℕ → ℚ) (done len : ℕ) (m : Smoother) : Prop :=
  ∀ j, j < rowLength → Column offset rowCount rowLength j (fun r => v r j) done len m

/-- A pass over the DSs that advances each and leaves the others alone. -/
theorem Columns.pass {body : ℕ → Smoother → Smoother} {done' n' : ℕ}
    (h : Columns offset rowCount rowLength v done n m)
    (hself : ∀ j m, j < rowLength →
      Column offset rowCount rowLength j (fun r => v r j) done n m →
      Column offset rowCount rowLength j (fun r => v r j) done' n' (body j m))
    (hother : ∀ j d m a b, j < rowLength → d < rowLength → j ≠ d →
      Column offset rowCount rowLength j (fun r => v r j) a b m →
      Column offset rowCount rowLength j (fun r => v r j) a b (body d m)) :
    Columns offset rowCount rowLength v done' n' (forLoop rowLength body m) := by
  have hrun : ∀ j, j < rowLength → Column offset rowCount rowLength j (fun r => v r j)
      (if j < rowLength then done' else done) (if j < rowLength then n' else n)
      (forLoop rowLength body m) :=
    forLoop_invariant (fun i m => ∀ j, j < rowLength → Column offset rowCount rowLength j
      (fun r => v r j) (if j < i then done' else done) (if j < i then n' else n) m) h
      fun i m hi hm j hj => by
        by_cases hji : j = i
        · subst hji
          rw [if_pos (Nat.lt_succ_self j), if_pos (Nat.lt_succ_self j)]
          apply hself j m hj
          simpa using hm j hj
        · have hlt : j < i + 1 ↔ j < i := by omega
          simp only [hlt]
          exact hother j i m _ _ hj hi hji (hm j hj)
  intro j hj
  simpa [hj] using hrun j hj

/-! ## The indices -/

theorem myMod_ofNat (k n : ℕ) : myMod k n = k % n := by
  unfold myMod
  rw [if_neg (Int.not_lt.mpr (Int.natCast_nonneg k)), Int.toNat_natCast]

/-- The rows the window starts with. -/
theorem myMod_sub {i : ℕ} (hi : i < 2 * offset) (hw : 2 * offset + 1 ≤ n) :
    myMod ((i : ℤ) - offset) n = Ring.window offset n i 0 := by
  unfold myMod Ring.window
  rcases Nat.lt_or_ge i offset with hlt | hge
  · have hneg : (i : ℤ) - offset < 0 := by omega
    have habs : ((i : ℤ) - offset).natAbs = offset - i := by omega
    rw [if_pos hneg, habs, Nat.mod_eq_of_lt (by omega), Nat.mod_eq_of_lt (by omega)]
    omega
  · have hnat : ((i : ℤ) - offset).toNat = i - offset := by omega
    have hsum : i + 0 + (n - offset) = i - offset + n := by omega
    rw [if_neg (by omega), hnat, hsum, Nat.add_mod_right]

/-- The row whose value enters before average `i`, and the value it has by then. -/
theorem entering {i : ℕ} (hi : i < n) (hw : 2 * offset + 1 ≤ n) :
    (if (i + offset) % n < i then Ring.inPlaceMean offset n x ((i + offset) % n)
      else x ((i + offset) % n)) = Ring.entered offset n x (i + 2 * offset) := by
  rcases Nat.lt_or_ge (i + offset) n with hlt | hge
  · have hend : i + 2 * offset < n + offset := by omega
    have hplace : i + 2 * offset - offset = i + offset := by omega
    rw [Nat.mod_eq_of_lt hlt, if_neg (by omega), Ring.entered_of_lt hend,
      Ring.window_of_le (by omega) (by omega) hend, hplace]
  · -- after the wrap the row holds its average
    have hmod : (i + offset) % n = i + offset - n := by
      rw [Nat.mod_eq_sub_mod hge, Nat.mod_eq_of_lt (by omega)]
    have hplace : i + 2 * offset - offset - n = i + offset - n := by omega
    rw [hmod, if_pos (by omega), Ring.entered_of_ge (by omega), hplace]
    exact Ring.inPlaceMean_of_lt (by omega)

/-! ## The averages -/

/-- **What the smoother stores**, for finite values. -/
theorem smootherAverages_columns (values : ℕ → RrdValue) (hw : 2 * offset + 1 ≤ rowCount)
    (hv : ∀ r j, r < rowCount → j < rowLength → values (r * rowLength + j) = .num (v r j)) :
    (∀ r j, r < rowCount → j < rowLength →
      (smootherAverages offset rowCount rowLength values).rrdValues (r * rowLength + j) =
        .num (Ring.inPlaceMean offset rowCount (fun r => v r j) r)) ∧
    ∀ j, j < rowLength → (smootherAverages offset rowCount rowLength values).baseline j =
      .num ((∑ r ∈ Finset.range rowCount,
        Ring.inPlaceMean offset rowCount (fun r => v r j) r) / rowCount) := by
  have hstart : Columns offset rowCount rowLength v 0 0
      ⟨values, fun _ => [], fun _ => .num 0, fun _ => .num 0⟩ := fun j hj =>
    ⟨fun k hk => (hv k j hk hj).trans (by simp), rfl, rfl, rfl⟩
  have hfilled : Columns offset rowCount rowLength v 0 (2 * offset)
      (forLoop (2 * offset) (fun i m => forLoop rowLength
        (fun j (m : Smoother) => m.push rowLength (myMod (i - offset) rowCount) j) m)
        ⟨values, fun _ => [], fun _ => .num 0, fun _ => .num 0⟩) :=
    forLoop_invariant (Columns offset rowCount rowLength v 0) hstart fun i m hi hm => by
      rw [myMod_sub hi hw]
      refine hm.pass (fun j m hj hm => ?_) fun j d m a b hj hd hjd hm => hm.push_ne hjd
      apply hm.push (Ring.window_lt (by omega) _)
      rw [if_neg (Nat.not_lt_zero _), Nat.zero_add, Ring.entered_of_lt (by omega)]
  have havg : Columns offset rowCount rowLength v rowCount (2 * offset)
      (forLoop rowCount (fun i m => forLoop rowLength (fun j (m : Smoother) =>
        (m.push rowLength (myMod (i + offset) rowCount) j).emit offset rowLength
          (myMod i rowCount) j) m) _) :=
    forLoop_invariant (fun i => Columns offset rowCount rowLength v i (2 * offset)) hfilled
      fun i m hi hm => by
      have hrow : myMod (i : ℤ) rowCount = i := by rw [myMod_ofNat, Nat.mod_eq_of_lt hi]
      have hnext : myMod ((i : ℤ) + offset) rowCount = (i + offset) % rowCount := by
        exact_mod_cast myMod_ofNat (i + offset) rowCount
      rw [hrow, hnext]
      refine hm.pass (fun j m hj hm => ?_) fun j d m a b hj hd hjd hm => ?_
      · have hpush := hm.push (k := (i + offset) % rowCount) (Nat.mod_lt _ (by omega))
          (entering hi hw)
        exact hpush.emit hj
      · exact (hm.push_ne hjd).emit_ne hjd hj hd
  refine ⟨fun r j hr hj => ?_, fun j hj => ?_⟩
  · have hrow := (havg j hj).rrdValues r hr
    rwa [if_pos hr] at hrow
  · have hne : (rowCount : ℚ) ≠ 0 := Nat.cast_ne_zero.mpr (by omega)
    change (if j < rowLength then _ else _) = _
    rw [if_pos hj, (havg j hj).baseline]
    exact Dbl.num_div hne

/-! ## The moving average of an RRA -/

/-- The rows of RRA `i` hold the finite values `v`. -/
def Rrd.RowsAre (rrd : Rrd) (i : ℕ) (v : ℕ → ℕ → ℚ) : Prop :=
  ∀ r d, r < (rrd.rraDef i).rowCnt → d < rrd.dsCnt → rrd.values (rrd.cellPos i r d) = .num (v r d)

/-- The block that `apply_smoother` reads. -/
theorem Rrd.RowsAre.block {rrd : Rrd} {i : ℕ} (h : rrd.RowsAre i v) (r d : ℕ)
    (hr : r < (rrd.rraDef i).rowCnt) (hd : d < rrd.dsCnt) :
    rrd.values (rrd.rraStart i + (r * rrd.dsCnt + d)) = .num (v r d) := by
  rw [← h r d hr hd, Rrd.cellPos, Nat.mul_comm, Nat.add_assoc]

/-- Such an RRA is smoothed: no value in it is unknown. -/
theorem Rrd.RowsAre.no_nan {rrd : Rrd} {i : ℕ} (h : rrd.RowsAre i v) :
    ¬(List.range ((rrd.rraDef i).rowCnt * rrd.dsCnt)).any
      (fun p => (rrd.values (rrd.rraStart i + p)).isnan) = true := by
  rw [List.any_eq_true]
  rintro ⟨p, hp, hnan⟩
  rw [List.mem_range, Nat.mul_comm] at hp
  have hds : 0 < rrd.dsCnt := Nat.pos_of_lt_mul_right hp
  have hrow := h.block (p / rrd.dsCnt) (p % rrd.dsCnt) (Nat.div_lt_of_lt_mul hp)
    (Nat.mod_lt p hds)
  rw [Nat.mul_comm, Nat.div_add_mod] at hrow
  rw [hrow] at hnan
  exact Bool.noConfusion hnan

/-- What stands in the rows of a `DEVSEASONAL` RRA afterwards. -/
theorem applySmoother_devseasonal {rrd : Rrd} {i : ℕ} {v : ℕ → ℕ → ℚ}
    (hcf : (rrd.rraDef i).cf = .devseasonal) (hv : rrd.RowsAre i v) (ho : smootherOffset rrd i ≠ 0)
    (hw : 2 * smootherOffset rrd i + 1 ≤ (rrd.rraDef i).rowCnt) :
    (applySmoother rrd i).state.RowsAre i fun r d =>
      Ring.inPlaceMean (smootherOffset rrd i) (rrd.rraDef i).rowCnt (fun r => v r d) r := by
  set m := smootherAverages (smootherOffset rrd i) (rrd.rraDef i).rowCnt rrd.dsCnt
    fun p => rrd.values (rrd.rraStart i + p)
  have hrun : applySmoother rrd i = .ok (rrd.writeBlock i m.rrdValues) := by
    unfold applySmoother
    rw [if_neg ho, if_neg hv.no_nan, hcf]
    rfl
  rw [hrun]
  intro r d hr hd
  change r < (rrd.rraDef i).rowCnt at hr
  change d < rrd.dsCnt at hd
  have hpos : rrd.cellPos i r d = rrd.rraStart i + (r * rrd.dsCnt + d) := by
    rw [Rrd.cellPos, Nat.mul_comm, Nat.add_assoc]
  have hmem := Rrd.cellPos_mem hd hr
  rw [Rrd.rraStart_succ] at hmem
  change (if rrd.rraStart i ≤ rrd.cellPos i r d ∧
    rrd.cellPos i r d < rrd.rraStart i + (rrd.rraDef i).rowCnt * rrd.dsCnt then
      m.rrdValues (rrd.cellPos i r d - rrd.rraStart i) else _) = _
  rw [if_pos hmem, hpos, Nat.add_sub_cancel_left]
  exact (smootherAverages_columns _ hw hv.block).1 r d hr hd

/-- **The moving averages of an RRA are right** exactly where its first rows are their own means. -/
theorem moving_average_iff {rrd : Rrd} {i : ℕ} {v : ℕ → ℕ → ℚ} (junk : ℕ → RrdValue)
    (hv : rrd.RowsAre i v) (hw : 2 * smootherOffset rrd i + 1 ≤ (rrd.rraDef i).rowCnt) :
    (∀ r d, r < (rrd.rraDef i).rowCnt → d < rrd.dsCnt →
      (rrd.movingAverages junk i).rrdValues (r * rrd.dsCnt + d) =
        .num (Ring.circularMean (smootherOffset rrd i) (rrd.rraDef i).rowCnt (fun r => v r d) r)) ↔
    ∀ d r, d < rrd.dsCnt → r < smootherOffset rrd i →
      Ring.circularMean (smootherOffset rrd i) (rrd.rraDef i).rowCnt (fun r => v r d) r = v r d := by
  have hrows := (smootherAverages_columns (fun p => rrd.values (rrd.rraStart i + p)) hw hv.block).1
  rw [Rrd.movingAverages, (movingAverages_eq junk _ _ _ _).1]
  constructor
  · intro h d r hd
    apply (Ring.inPlaceMean_eq_iff hw).mp
    intro r hr
    have heq := (hrows r d hr hd).symm.trans (h r d hr hd)
    exact Dbl.num.inj heq
  · intro h r d hr hd
    rw [hrows r d hr hd]
    exact congrArg Dbl.num ((Ring.inPlaceMean_eq_iff hw).mpr (h d · hd) r hr)

/-! ## The renormalisation -/

/-- One DS of the renormalisation. -/
def renormaliseDs (rowLength rowCount : ℕ) (init : RrdValue → RrdValue) (j : ℕ)
    (vals : ℕ → RrdValue) : ℕ → RrdValue :=
  forLoop rowCount (fun i vals =>
    Function.update vals (i * rowLength + j) (init (vals (i * rowLength + j)))) vals

theorem renormaliseDs_apply {r d : ℕ} (init : RrdValue → RrdValue) (vals : ℕ → RrdValue)
    (hd : d < rowLength) (hj : j < rowLength) :
    renormaliseDs rowLength rowCount init j vals (r * rowLength + d) =
      if d = j ∧ r < rowCount then init (vals (r * rowLength + d))
      else vals (r * rowLength + d) := by
  refine forLoop_invariant (fun n (t : ℕ → RrdValue) => t (r * rowLength + d) =
    if d = j ∧ r < n then init (vals (r * rowLength + d)) else vals (r * rowLength + d))
    (by simp) fun k t hk ht => ?_
  by_cases hcell : d = j ∧ r = k
  · obtain ⟨rfl, rfl⟩ := hcell
    rw [Function.update_self, ht, if_neg (by simp), if_pos ⟨rfl, Nat.lt_succ_self r⟩]
  · have hne : r * rowLength + d ≠ k * rowLength + j := fun heq =>
      hcell ⟨(cdpIdx_inj hd hj heq).2, (cdpIdx_inj hd hj heq).1⟩
    have hlt : (d = j ∧ r < k + 1) ↔ (d = j ∧ r < k) := by omega
    rw [Function.update_of_ne hne, ht]
    simp only [hlt]

/-- The values of a `SEASONAL` RRA lose the baseline of their DS. -/
theorem smootherRenormalise_values (rrd : Rrd) (i : ℕ) (m : Smoother)
    (init : RrdValue → RrdValue → RrdValue) {r d : ℕ} (hr : r < (rrd.rraDef i).rowCnt)
    (hd : d < rrd.dsCnt) :
    (smootherRenormalise rrd i m init).2 (r * rrd.dsCnt + d) =
      init (m.rrdValues (r * rrd.dsCnt + d)) (m.baseline d) := by
  have hrun : forLoop rrd.dsCnt (fun j => renormaliseDs rrd.dsCnt (rrd.rraDef i).rowCnt
        (fun x => init x (m.baseline j)) j) m.rrdValues (r * rrd.dsCnt + d) =
      if d < rrd.dsCnt then init (m.rrdValues (r * rrd.dsCnt + d)) (m.baseline d)
      else m.rrdValues (r * rrd.dsCnt + d) :=
    forLoop_invariant (fun n (t : ℕ → RrdValue) => t (r * rrd.dsCnt + d) =
      if d < n then init (m.rrdValues (r * rrd.dsCnt + d)) (m.baseline d)
      else m.rrdValues (r * rrd.dsCnt + d)) rfl fun j t hj ht => by
      rw [renormaliseDs_apply _ _ hd hj, ht]
      by_cases hdj : d = j
      · rw [if_pos ⟨hdj, hr⟩, if_neg hdj.not_lt, if_pos (Nat.lt_succ_of_le hdj.le), hdj]
      · have hlt : d < j + 1 ↔ d < j := by omega
        rw [if_neg fun h => hdj h.1]
        simp only [hlt]
  rw [if_pos hd] at hrun
  exact hrun

/-- The prediction it depends on gains the baseline. -/
theorem smootherRenormalise_cdp (rrd : Rrd) (i : ℕ) (m : Smoother)
    (init : RrdValue → RrdValue → RrdValue) {d : ℕ} (hd : d < rrd.dsCnt) :
    (smootherRenormalise rrd i m init).1.cdp (rrd.rraDef i).dependentRraIdx d =
      { rrd.cdp (rrd.rraDef i).dependentRraIdx d with
        hwIntercept := (rrd.cdp (rrd.rraDef i).dependentRraIdx d).hwIntercept + m.baseline d } := by
  set dep := (rrd.rraDef i).dependentRraIdx
  have hrun : (forLoop rrd.dsCnt (fun j (t : Rrd) => t.setCdp (t.cdpIdx dep j)
        { t.cdpPrep (t.cdpIdx dep j) with
          hwIntercept := (t.cdpPrep (t.cdpIdx dep j)).hwIntercept + m.baseline j }) rrd).dsCnt =
        rrd.dsCnt ∧ ∀ d, d < rrd.dsCnt → _ :=
    forLoop_invariant (fun n (t : Rrd) => t.dsCnt = rrd.dsCnt ∧ ∀ d, d < rrd.dsCnt →
      t.cdp dep d = if d < n then
        { rrd.cdp dep d with hwIntercept := (rrd.cdp dep d).hwIntercept + m.baseline d }
        else rrd.cdp dep d) ⟨rfl, fun d _ => rfl⟩ fun j t hj ht => by
      refine ⟨ht.1, fun d hd => ?_⟩
      have htj := ht.2 j hj
      rw [if_neg (lt_irrefl j)] at htj
      by_cases hdj : d = j
      · subst hdj
        rw [if_pos (Nat.lt_succ_self d), ← htj]
        exact Rrd.cdp_setCdp_self ..
      · have hlt : d < j + 1 ↔ d < j := by omega
        simp only [hlt]
        rw [← ht.2 d hd]
        exact Rrd.setCdp_get_of_ne (fun heq => hdj (Nat.add_left_cancel heq)) _
  have hcdp := hrun.2 d hd
  rw [if_pos hd] at hcdp
  exact hcdp

/-- What a `SEASONAL` RRA gives to the prediction it depends on. -/
theorem applySmoother_seasonal {rrd : Rrd} {i : ℕ} {v : ℕ → ℕ → ℚ} {fn : HwFunctions}
    (hcf : (rrd.rraDef i).cf = .seasonal) (hv : rrd.RowsAre i v) (ho : smootherOffset rrd i ≠ 0)
    (hw : 2 * smootherOffset rrd i + 1 ≤ (rrd.rraDef i).rowCnt)
    (hfn : hwFunctionsOf (rrd.rraDef (rrd.rraDef i).dependentRraIdx).cf = some fn) {d : ℕ}
    (hd : d < rrd.dsCnt) :
    let dep := (rrd.rraDef i).dependentRraIdx
    (applySmoother rrd i).state.cdpPrep (rrd.cdpIdx dep d) =
      { rrd.cdp dep d with
        hwIntercept := (rrd.cdp dep d).hwIntercept + .num ((∑ r ∈ Finset.range (rrd.rraDef i).rowCnt,
          Ring.inPlaceMean (smootherOffset rrd i) (rrd.rraDef i).rowCnt (fun r => v r d) r) /
            (rrd.rraDef i).rowCnt) } := by
  intro dep
  set m := smootherAverages (smootherOffset rrd i) (rrd.rraDef i).rowCnt rrd.dsCnt
    fun p => rrd.values (rrd.rraStart i + p)
  have hrun : (applySmoother rrd i).state =
      (smootherRenormalise rrd i m fn.initSeasonality).1.writeBlock i
        (smootherRenormalise rrd i m fn.initSeasonality).2 := by
    unfold applySmoother
    rw [if_neg ho, if_neg hv.no_nan]
    dsimp only
    rw [if_pos hcf, hfn]
    rfl
  have hds : (smootherRenormalise rrd i m fn.initSeasonality).1.dsCnt = rrd.dsCnt :=
    forLoop_frame Rrd.dsCnt fun _ _ _ => rfl
  have hcdp := smootherRenormalise_cdp rrd i m fn.initSeasonality hd
  rw [(smootherAverages_columns _ hw hv.block).2 d hd, Rrd.cdp, Rrd.cdpIdx, hds] at hcdp
  rw [hrun]
  exact hcdp

/-- The additive model: what the row loses the intercept gains. -/
theorem additive_renormalised (intercept : RrdValue) (n : ℕ) (b s : ℚ) :
    hwAdditiveFunctions.predict (intercept + .num b) (.num 0) n
        (hwAdditiveInitSeasonality (.num s) (.num b)) =
      hwAdditiveFunctions.predict intercept (.num 0) n (.num s) := by
  cases intercept with
  | num q =>
    change Dbl.num (q + b + 0 * n + (s + -b)) = Dbl.num (q + 0 * n + s)
    apply congrArg
    ring
  | nan => rfl
  | inf => rfl
  | neginf => rfl

/-- Infinity times a value has the sign of the value, whatever positive number divides it. -/
theorem infSign_div {b : ℚ} (hb : 0 < b) (s : ℚ) : Dbl.infSign (s / b) = Dbl.infSign s := by
  have hneg : s / b < 0 ↔ s < 0 := by rw [div_lt_iff₀ hb, zero_mul]
  unfold Dbl.infSign
  simp only [div_pos_iff_of_pos_right hb, hneg]

theorem infSign_ne_nan {s : ℚ} (hs : s ≠ 0) : Dbl.infSign s ≠ .nan := by
  unfold Dbl.infSign
  rcases lt_or_gt_of_ne hs with hlt | hgt
  · rw [if_neg hlt.not_gt, if_pos hlt]
    exact Dbl.noConfusion
  · rw [if_pos hgt]
    exact Dbl.noConfusion

theorem hwMultiplicativeInitSeasonality_pos {b : ℚ} (hb : 0 < b) (s : ℚ) :
    hwMultiplicativeInitSeasonality (.num s) (.num b) = .num (s / b) := by
  unfold hwMultiplicativeInitSeasonality
  rw [Dbl.num_le, if_neg (by simpa using hb), Dbl.num_div hb.ne']

theorem hwMultiplicativeInitSeasonality_nonpos {b : ℚ} (hb : ¬0 < b) (s : ℚ) :
    hwMultiplicativeInitSeasonality (.num s) (.num b) = .nan := by
  unfold hwMultiplicativeInitSeasonality
  rw [Dbl.num_le, if_pos (by simpa using hb)]

/-- The multiplicative model divides the row by the baseline and adds it to the intercept. -/
theorem multiplicative_renormalised_iff {N : ℕ} {s : ℕ → ℚ} (intercept : RrdValue) (n : ℕ) (b : ℚ)
    (hs : ∃ r, r < N ∧ s r ≠ 0) :
    (∀ r, r < N → hwMultiplicativeFunctions.predict (intercept + .num b) (.num 0) n
        (hwMultiplicativeInitSeasonality (.num (s r)) (.num b)) =
      hwMultiplicativeFunctions.predict intercept (.num 0) n (.num (s r))) ↔
    intercept.isnan = true ∨ (0 < b ∧ ∀ q, intercept = .num q → q + b = q * b) := by
  obtain ⟨r₀, hr₀, hs₀⟩ := hs
  by_cases hb : 0 < b
  · simp only [hwMultiplicativeInitSeasonality_pos hb]
    cases intercept with
    | nan => exact ⟨fun _ => .inl rfl, fun _ _ _ => rfl⟩
    | num q =>
      have hcell (r : ℕ) : Dbl.num ((q + b + 0 * n) * (s r / b)) = .num ((q + 0 * n) * s r) ↔
          (q + b) * s r = q * b * s r := by
        rw [Dbl.num.injEq, zero_mul, add_zero, add_zero, mul_div_assoc', div_eq_iff hb.ne',
          mul_right_comm]
      refine ⟨fun h => .inr ⟨hb, ?_⟩, ?_⟩
      · intro q' hq
        obtain rfl : q = q' := Dbl.num.inj hq
        exact mul_right_cancel₀ hs₀ ((hcell r₀).mp (h r₀ hr₀))
      · rintro (hnan | ⟨_, hq⟩) r _
        · exact absurd hnan Bool.false_ne_true
        · exact (hcell r).mpr (by rw [hq q rfl])
    | inf =>
      refine ⟨fun _ => .inr ⟨hb, fun q hq => Dbl.noConfusion hq⟩, fun _ r _ => ?_⟩
      exact infSign_div hb (s r)
    | neginf =>
      refine ⟨fun _ => .inr ⟨hb, fun q hq => Dbl.noConfusion hq⟩, fun _ r _ => ?_⟩
      have h := infSign_div hb (-s r)
      rw [neg_div] at h
      exact h
  · simp only [hwMultiplicativeInitSeasonality_nonpos hb]
    cases intercept with
    | nan => exact ⟨fun _ => .inl rfl, fun _ _ _ => rfl⟩
    | num q =>
      refine ⟨fun h => ?_, ?_⟩
      · exact Dbl.noConfusion (h r₀ hr₀)
      · rintro (hnan | ⟨hpos, _⟩)
        · exact absurd hnan Bool.false_ne_true
        · exact absurd hpos hb
    | inf =>
      refine ⟨fun h => ?_, ?_⟩
      · exact absurd (h r₀ hr₀).symm (infSign_ne_nan hs₀)
      · rintro (hnan | ⟨hpos, _⟩)
        · exact absurd hnan Bool.false_ne_true
        · exact absurd hpos hb
    | neginf =>
      refine ⟨fun h => ?_, ?_⟩
      · exact absurd (h r₀ hr₀).symm (infSign_ne_nan (neg_ne_zero.mpr hs₀))
      · rintro (hnan | ⟨hpos, _⟩)
        · exact absurd hnan Bool.false_ne_true
        · exact absurd hpos hb

/-- Values whose mean is the baseline, which is not zero, as the smoother has them before the
renormalisation. -/
structure Smoothed (rrd : Rrd) (i : ℕ) (m : Smoother) (s : ℕ → ℕ → ℚ) (b : ℕ → ℚ) : Prop where
  rrdValues : ∀ r d, r < (rrd.rraDef i).rowCnt → d < rrd.dsCnt →
    m.rrdValues (r * rrd.dsCnt + d) = .num (s r d)
  baseline : ∀ d, d < rrd.dsCnt → m.baseline d = .num (b d)
  mean : ∀ d, d < rrd.dsCnt →
    b d = (∑ r ∈ Finset.range (rrd.rraDef i).rowCnt, s r d) / (rrd.rraDef i).rowCnt
  ne_zero : ∀ d, d < rrd.dsCnt → b d ≠ 0

variable {rrd : Rrd} {i : ℕ} {s : ℕ → ℕ → ℚ} {b : ℕ → ℚ}

/-- A mean that is not zero is the mean of values that are not all zero. -/
theorem Smoothed.exists_ne_zero (h : Smoothed rrd i m s b) {d : ℕ} (hd : d < rrd.dsCnt) :
    ∃ r, r < (rrd.rraDef i).rowCnt ∧ s r d ≠ 0 := by
  by_contra hall
  push Not at hall
  apply h.ne_zero d hd
  rw [h.mean d hd, Finset.sum_eq_zero fun r hr => hall r (Finset.mem_range.mp hr), zero_div]

/-- What `apply_smoother` computes is so. -/
theorem smoothed_of_rows (hv : rrd.RowsAre i v)
    (hw : 2 * smootherOffset rrd i + 1 ≤ (rrd.rraDef i).rowCnt)
    (hne : ∀ d, d < rrd.dsCnt → (∑ r ∈ Finset.range (rrd.rraDef i).rowCnt, Ring.inPlaceMean
      (smootherOffset rrd i) (rrd.rraDef i).rowCnt (fun r => v r d) r) ≠ 0) :
    Smoothed rrd i
      (smootherAverages (smootherOffset rrd i) (rrd.rraDef i).rowCnt rrd.dsCnt
        fun p => rrd.values (rrd.rraStart i + p))
      (fun r d => Ring.inPlaceMean (smootherOffset rrd i) (rrd.rraDef i).rowCnt (fun r => v r d) r)
      fun d => (∑ r ∈ Finset.range (rrd.rraDef i).rowCnt, Ring.inPlaceMean (smootherOffset rrd i)
        (rrd.rraDef i).rowCnt (fun r => v r d) r) / (rrd.rraDef i).rowCnt where
  rrdValues := (smootherAverages_columns _ hw hv.block).1
  baseline := (smootherAverages_columns (fun p => rrd.values (rrd.rraStart i + p)) hw hv.block).2
  mean _ _ := rfl
  ne_zero d hd := div_ne_zero (hne d hd) (Nat.cast_ne_zero.mpr (by omega))

/-- **The renormalisation keeps the predictions** of a model exactly where adding the baseline to the
intercept undoes what it did to the rows. -/
theorem renormalised_prediction_iff {fn : HwFunctions}
    (hfn : hwFunctionsOf (rrd.rraDef (rrd.rraDef i).dependentRraIdx).cf = some fn)
    (h : Smoothed rrd i m s b) :
    (∀ r d, r < (rrd.rraDef i).rowCnt → d < rrd.dsCnt →
      let renormalised := smootherRenormalise rrd i m fn.initSeasonality
      let old := rrd.cdp (rrd.rraDef i).dependentRraIdx d
      let new := renormalised.1.cdp (rrd.rraDef i).dependentRraIdx d
      fn.predict new.hwIntercept (.num 0) new.nullCount (renormalised.2 (r * rrd.dsCnt + d)) =
        fn.predict old.hwIntercept (.num 0) old.nullCount (.num (s r d))) ↔
    (rrd.rraDef (rrd.rraDef i).dependentRraIdx).cf = .hwpredict ∨
      ∀ d, d < rrd.dsCnt →
        let intercept := (rrd.cdp (rrd.rraDef i).dependentRraIdx d).hwIntercept
        intercept.isnan = true ∨ (0 < b d ∧ ∀ q, intercept = .num q → q + b d = q * b d) := by
  -- the new area and the new rows, from the old ones
  have hcell (r d : ℕ) (hr : r < (rrd.rraDef i).rowCnt) (hd : d < rrd.dsCnt) :
      (smootherRenormalise rrd i m fn.initSeasonality).2 (r * rrd.dsCnt + d) =
        fn.initSeasonality (.num (s r d)) (.num (b d)) := by
    rw [smootherRenormalise_values rrd i m _ hr hd, h.rrdValues r d hr hd, h.baseline d hd]
  have hcdp (d : ℕ) (hd : d < rrd.dsCnt) := smootherRenormalise_cdp rrd i m fn.initSeasonality hd
  cases hcf : (rrd.rraDef (rrd.rraDef i).dependentRraIdx).cf with
  | hwpredict =>
    rw [hcf] at hfn
    obtain rfl : hwAdditiveFunctions = fn := Option.some.inj hfn
    refine ⟨fun _ => .inl rfl, fun _ r d hr hd => ?_⟩
    dsimp only
    rw [hcell r d hr hd, hcdp d hd, h.baseline d hd]
    exact additive_renormalised _ _ _ _
  | mhwpredict =>
    rw [hcf] at hfn
    obtain rfl : hwMultiplicativeFunctions = fn := Option.some.inj hfn
    constructor
    · intro heq
      refine .inr fun d hd => ?_
      apply (multiplicative_renormalised_iff _
        (rrd.cdp (rrd.rraDef i).dependentRraIdx d).nullCount _ (h.exists_ne_zero hd)).mp
      intro r hr
      have hrd := heq r d hr hd
      dsimp only at hrd
      rwa [hcell r d hr hd, hcdp d hd, h.baseline d hd] at hrd
    · rintro (hadd | hcond) r d hr hd
      · exact Cf.noConfusion hadd
      · dsimp only
        rw [hcell r d hr hd, hcdp d hd, h.baseline d hd]
        exact (multiplicative_renormalised_iff _ _ _ (h.exists_ne_zero hd)).mpr (hcond d hd) r hr
  | _ =>
    rw [hcf] at hfn
    cases hfn

/-! ## Two seasons -/

/-- A prediction with a season of three rows and a smoothing window of a whole season. -/
def seasonRras (cf : Cf) (i : ℕ) : RraDef :=
  match i with
  | 0 => ⟨cf, 9, 1, .num 0, .num (1 / 2), .num (1 / 2), 1, 0, 0⟩
  | _ => ⟨.seasonal, 3, 1, .num 0, .num (1 / 2), .num 1, 0, 0, 0⟩

/-- One data source with these RRAs. -/
def CreateArgs.season (cf : Cf) : CreateArgs where
  version := 4
  pdpStep := 300
  lastUp := 900
  dsCnt := 1
  rraCnt := 2
  dsDef := fun _ => ⟨['d'], .gauge, .generic 600 dnan dnan⟩
  rraDef := seasonRras cf
  pdpStep_pos := Nat.succ_pos _
  dsCnt_pos := Nat.succ_pos _
  rraCnt_pos := Nat.succ_pos _
  rowCnt_pos := fun i _ => by cases i <;> exact Nat.succ_pos _
  rowCnt_lt := fun i _ => by
    cases i
    · exact Nat.lt_of_sub_eq_succ rfl
    · exact Nat.lt_of_sub_eq_succ rfl
  pdpCnt_pos := fun i _ => by cases i <;> exact Nat.one_pos
  pdpCnt_one := fun i _ _ => by cases i <;> rfl

/-- Its file when the season holds `v` and the intercept is `intercept`. -/
def Rrd.season (cf : Cf) (v : ℕ → ℚ) (intercept : RrdValue) : Rrd :=
  let r := rrdCreateFn (.season cf) fun _ => 0
  { r with
    values := fun p => if 9 ≤ p then .num (v (p - 9)) else r.values p
    cdpPrep := fun idx => { r.cdpPrep idx with hwIntercept := intercept } }

theorem season_rowsAre (cf : Cf) (v : ℕ → ℚ) (intercept : RrdValue) :
    (Rrd.season cf v intercept).RowsAre 1 fun r _ => v r := by
  intro r d _ hd
  obtain rfl : d = 0 := Nat.lt_one_iff.mp hd
  have hpos : (Rrd.season cf v intercept).cellPos 1 r 0 = 9 + r := by
    change 0 + 9 * 1 + 1 * r + 0 = 9 + r
    omega
  rw [hpos]
  change (if 9 ≤ 9 + r then _ else _) = _
  rw [if_pos (Nat.le_add_right 9 r), Nat.add_sub_cancel_left]

/-- A peak in the last row. -/
def peak (r : ℕ) : ℚ := if r = 2 then 3 else 0

theorem peak_iff :
    (∀ r d, r < 3 → d < 1 →
      ((Rrd.season .hwpredict peak (.num 0)).movingAverages (fun _ => dnan) 1).rrdValues (r * 1 + d) =
        .num (Ring.circularMean (smootherOffset (.season .hwpredict peak (.num 0)) 1) 3 peak r)) ↔
    ∀ d r, d < 1 → r < smootherOffset (.season .hwpredict peak (.num 0)) 1 →
      Ring.circularMean (smootherOffset (.season .hwpredict peak (.num 0)) 1) 3 peak r = peak r :=
  moving_average_iff (fun _ => dnan) (season_rowsAre .hwpredict peak (.num 0)) (by decide +kernel)

/-- **An average that is not one**: the last row of `0, 0, 3` becomes `4 / 3`. -/
theorem smoother_reads_averages : ¬ ∀ (junk : ℕ → RrdValue) (rrd : Rrd) (i : ℕ) (v : ℕ → ℕ → ℚ),
    (rrd.rraDef i).cf.isSeasonal = true → rrd.RowsAre i v → 1 ≤ smootherOffset rrd i →
    2 * smootherOffset rrd i + 1 ≤ (rrd.rraDef i).rowCnt →
    ∀ r d, r < (rrd.rraDef i).rowCnt → d < rrd.dsCnt →
      (rrd.movingAverages junk i).rrdValues (r * rrd.dsCnt + d) = .num
        (Ring.circularMean (smootherOffset rrd i) (rrd.rraDef i).rowCnt (fun r => v r d) r) := by
  intro h
  have hrow := h (fun _ => dnan) (.season .hwpredict peak (.num 0)) 1 (fun r _ => peak r) rfl
    (season_rowsAre .hwpredict peak (.num 0)) (by decide +kernel) (by decide +kernel) 2 0
    (by decide) (by decide)
  have hvalue : ((Rrd.season .hwpredict peak (.num 0)).movingAverages (fun _ => dnan) 1).rrdValues
      (2 * 1 + 0) = .num (4 / 3) := by decide +kernel
  have hmean : Ring.circularMean (smootherOffset (.season .hwpredict peak (.num 0)) 1) 3 peak 2 = 1 := by
    decide +kernel
  have heq : Dbl.num (4 / 3) = .num 1 := (hvalue.symm.trans hrow).trans (congrArg Dbl.num hmean)
  exact absurd heq (by decide +kernel)

/-- A season of twos, and a prediction of twenty. -/
def Rrd.twos : Rrd := .season .mhwpredict (fun _ => 2) (.num 10)

/-- What `apply_smoother` makes of it. -/
def smoothedTwos : Smoother :=
  smootherAverages (smootherOffset .twos 1) 3 1 fun p => Rrd.twos.values (Rrd.twos.rraStart 1 + p)

theorem smoothedTwos_smoothed : Smoothed .twos 1 smoothedTwos (fun _ _ => 2) fun _ => 2 where
  rrdValues r d hr hd := by
    obtain rfl : d = 0 := Nat.lt_one_iff.mp hd
    change r < 3 at hr
    interval_cases r <;> decide +kernel
  baseline d hd := by
    obtain rfl : d = 0 := Nat.lt_one_iff.mp hd
    decide +kernel
  mean _ _ := by
    change (2 : ℚ) = (∑ r ∈ Finset.range 3, 2) / (3 : ℕ)
    norm_num
  ne_zero _ _ := two_ne_zero

theorem twos_iff :
    (∀ r d, r < 3 → d < 1 →
      let renormalised := smootherRenormalise .twos 1 smoothedTwos hwMultiplicativeInitSeasonality
      let old := Rrd.twos.cdp 0 d
      let new := renormalised.1.cdp 0 d
      hwMultiplicativeFunctions.predict new.hwIntercept (.num 0) new.nullCount
          (renormalised.2 (r * 1 + d)) =
        hwMultiplicativeFunctions.predict old.hwIntercept (.num 0) old.nullCount (.num 2)) ↔
    Cf.mhwpredict = .hwpredict ∨
      ∀ d, d < 1 →
        let intercept := (Rrd.twos.cdp 0 d).hwIntercept
        intercept.isnan = true ∨ (0 < (2 : ℚ) ∧ ∀ q, intercept = .num q → q + 2 = q * 2) :=
  have hfn : hwFunctionsOf .mhwpredict = some hwMultiplicativeFunctions := rfl
  renormalised_prediction_iff (i := 1) hfn smoothedTwos_smoothed

/-- **A prediction that is lost**: ten times two becomes twelve times one. -/
theorem renormalised_prediction_changes : ¬ ∀ (rrd : Rrd) (i : ℕ) (m : Smoother) (s : ℕ → ℕ → ℚ)
    (b : ℕ → ℚ) (fn : HwFunctions), (rrd.rraDef i).cf = .seasonal →
    hwFunctionsOf (rrd.rraDef (rrd.rraDef i).dependentRraIdx).cf = some fn → Smoothed rrd i m s b →
    ∀ r d, r < (rrd.rraDef i).rowCnt → d < rrd.dsCnt →
      let renormalised := smootherRenormalise rrd i m fn.initSeasonality
      let old := rrd.cdp (rrd.rraDef i).dependentRraIdx d
      let new := renormalised.1.cdp (rrd.rraDef i).dependentRraIdx d
      fn.predict new.hwIntercept (.num 0) new.nullCount (renormalised.2 (r * rrd.dsCnt + d)) =
        fn.predict old.hwIntercept (.num 0) old.nullCount (.num (s r d)) := by
  intro h
  have hrow := h .twos 1 smoothedTwos (fun _ _ => 2) (fun _ => 2) hwMultiplicativeFunctions rfl rfl
    smoothedTwos_smoothed 0 0 (by decide) (by decide)
  have hnew : hwMultiplicativeFunctions.predict ((smootherRenormalise .twos 1 smoothedTwos
      hwMultiplicativeInitSeasonality).1.cdp 0 0).hwIntercept (.num 0)
      ((smootherRenormalise .twos 1 smoothedTwos
        hwMultiplicativeInitSeasonality).1.cdp 0 0).nullCount
      ((smootherRenormalise .twos 1 smoothedTwos hwMultiplicativeInitSeasonality).2 (0 * 1 + 0)) =
      .num 12 := by decide +kernel
  have hold : hwMultiplicativeFunctions.predict (Rrd.twos.cdp 0 0).hwIntercept (.num 0)
      (Rrd.twos.cdp 0 0).nullCount (.num 2) = .num 20 := by decide +kernel
  have heq : Dbl.num 12 = .num 20 := hnew.symm.trans (hrow.trans hold)
  exact absurd heq (by decide +kernel)

end Rrdtool
