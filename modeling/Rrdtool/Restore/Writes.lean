import Rrdtool.Restore.Restore
import Rrdtool.Rpn.Compact
import Mathlib.Tactic.Linarith

/-!
# Where `rrd_restore` writes

Nothing that a document says is checked against what later programs rely on. What keeps the parser inside of its
arrays is that it allocates a row when it finds one, and goes over `cdp_prep` with a counter of its own; the history of
a `FAILURES` RRA is copied as long as it is.

* `Steps` — what a parser leaves of the document, and what it writes;
* `tags_fuel` — the loops end with the document;
* `restored_writes` — the writes are inside of the arrays.
-/

namespace Rrdtool.Restore

open Parse

/-! ## Steps -/

/-- All writes so far are allowed. -/
def Kept (W : Write → Prop) (r : Reader) : Prop := ∀ w ∈ r.writes, W w

/-- The same, and `n` nodes at most are left. -/
def Good (W : Write → Prop) (n : ℕ) (r : Reader) : Prop := Kept W r ∧ r.rest.length ≤ n

/-- **The parser takes `k` nodes at least**, and makes allowed writes only. -/
def Steps {α : Type} (W : Write → Prop) (k : ℕ) (x : Parser Reader α) : Prop :=
  ∀ n, Spec (Good W n) x (fun _ r => Kept W r ∧ r.rest.length + k ≤ n) (Good W n)

variable {α β : Type} {W : Write → Prop} {k m : ℕ} {x : Parser Reader α}

theorem Steps.mono (h : Steps W k x) (hm : m ≤ k) : Steps W m x := fun n =>
  (h n).weaken (fun _ hr => hr) (fun _ _ hr => ⟨hr.1, by omega⟩) fun _ hr => hr

theorem steps_ret (a : α) : Steps W 0 (ret a : Parser Reader α) := fun _ => spec_ret fun _ hr => hr

theorem steps_fail : Steps W k (fail : Parser Reader α) := fun _ => spec_fail fun _ hr => hr

theorem steps_setError (e : RestoreError) : Steps W k (setError e : Parser Reader α) := fun _ _ hr => hr

theorem steps_write {w : Write} (hw : W w) : Steps W 0 (write w) := by
  intro n r hr
  refine ⟨fun w' hw' => ?_, hr.2⟩
  rcases List.mem_cons.mp hw' with rfl | hw'
  · exact hw
  · exact hr.1 w' hw'

theorem Steps.bind {f : α → Parser Reader β} (hx : Steps W k x) (hf : ∀ a, Steps W m (f a)) :
    Steps W (k + m) (Parse.bind x f) := by
  intro n
  refine spec_bind (hx n) fun a => ?_
  rintro r ⟨hkept, hle⟩
  refine ((hf a (n - k)).weaken (fun _ h => h) ?_ ?_) r ⟨hkept, Nat.le_sub_of_add_le hle⟩
  · rintro b s ⟨hs, hlen⟩
    exact ⟨hs, by omega⟩
  · rintro s ⟨hs, hlen⟩
    exact ⟨hs, hlen.trans (Nat.sub_le n k)⟩

theorem Steps.map {f : α → β} (hx : Steps W k x) : Steps W k (Parse.map x f) := hx.bind fun a => steps_ret (f a)

theorem Steps.orElse {a : α} (hx : Steps W k x) : Steps W 0 (orElse x a) := fun n =>
  spec_orElse ((hx.mono (Nat.zero_le k)) n)

theorem steps_ite {p : Prop} [Decidable p] {y : Parser Reader α} (hx : Steps W k x) (hy : Steps W k y) :
    Steps W k (if p then x else y) := fun n => spec_ite (fun _ => hx n) fun _ => hy n

theorem steps_times {n : ℕ} {f : ℕ → Parser Reader Unit} (h : ∀ i < n, Steps W k (f i)) :
    Steps W (n * k) (times n f) := by
  induction n with
  | zero =>
    rw [Nat.zero_mul]
    exact steps_ret ()
  | succ n ih =>
    rw [Nat.succ_mul]
    exact (ih fun i hi => h i (Nat.lt_succ_of_lt hi)).bind fun _ => h n (Nat.lt_succ_self n)

/-! ## The reader -/

theorem steps_getXmlElement : Steps W 1 getXmlElement := by
  intro n r hr
  have hread (rest : List XmlNode) (hrest : rest.length ≤ n) :
      Meets (fun _ r => Kept W r ∧ r.rest.length + 1 ≤ n) (Good W n) (readElement r rest) := by
    induction rest with
    | nil => exact ⟨hr.1, hrest⟩
    | cons node rest ih =>
      rw [List.length_cons] at hrest
      cases node with
      | element name => exact ⟨hr.1, hrest⟩
      | endElement name => exact ⟨hr.1, hrest⟩
      | text value => exact ⟨hr.1, Nat.le_of_succ_le hrest⟩
      | other => exact ih (Nat.le_of_succ_le hrest)
  exact hread r.rest hr.2

theorem steps_getXmlText : Steps W 1 getXmlText := by
  intro n r hr
  have hread (rest : List XmlNode) (hrest : rest.length ≤ n) :
      Meets (fun _ r => Kept W r ∧ r.rest.length + 1 ≤ n) (Good W n) (readText r rest) := by
    induction rest with
    | nil => exact ⟨hr.1, hrest⟩
    | cons node rest ih =>
      rw [List.length_cons] at hrest
      cases node with
      | element name => exact ⟨hr.1, Nat.le_of_succ_le hrest⟩
      | endElement name => exact ⟨hr.1, hrest⟩
      | text value => exact ⟨hr.1, hrest⟩
      | other => exact ih (Nat.le_of_succ_le hrest)
  exact hread r.rest hr.2

theorem steps_expectElement (expName : Text) : Steps W 1 (expectElement expName) :=
  steps_getXmlElement.bind fun _ => steps_ite (steps_ret ()) (steps_setError _)

theorem steps_expectElementEnd (expName : Text) : Steps W 0 (expectElementEnd expName) := by
  refine Steps.bind (k := 0) (m := 0) ?_ fun _ => steps_ite (steps_ret ()) (steps_setError _)
  intro n r hr
  dsimp only
  split
  · exact hr
  · exact (steps_getXmlElement.mono (Nat.zero_le 1)) n r hr

theorem steps_getXmlString (maxLen : ℕ) : Steps W 1 (getXmlString maxLen) := steps_getXmlText.map

theorem steps_getXmlTimeT : Steps W 1 getXmlTimeT := by
  refine Steps.bind (m := 0) steps_getXmlText fun text => ?_
  cases CStr.strtoll text with
  | none => exact steps_setError _
  | some z => exact steps_ret z

theorem steps_getXmlUlong : Steps W 1 getXmlUlong := by
  refine Steps.bind (m := 0) steps_getXmlText fun text => ?_
  cases CStr.strtoul text with
  | none => exact steps_setError _
  | some n => exact steps_ret n

theorem steps_getXmlDouble : Steps W 1 getXmlDouble :=
  steps_getXmlText.bind fun _ => steps_ite (steps_ret _) (steps_ite (steps_ret _) (steps_ite (steps_ret _)
    (steps_ite (steps_setError _) (steps_ret _))))

/-! ## Loops -/

theorem steps_tags {onEnd : α → Parser Reader α} {body : Text → α → Parser Reader (Pass α)}
    (hend : ∀ a, Steps W 0 (onEnd a)) (hbody : ∀ element a, Steps W 0 (body element a)) (a : α) :
    Steps W 0 (tags onEnd body a) := by
  intro n r hr
  refine spec_loop (fun _ => Good W n) (fun _ _ => Good W n) (fun _ => Good W n)
    (fun _ => (steps_getXmlElement.mono (Nat.zero_le 1)) n) (fun a => hend a n) (fun element a => ?_)
    (fun _ _ _ hs => hs) r.rest.length a r hr
  refine (hbody element a n).weaken (fun _ hs => hs) (fun p s hs => ?_) fun _ hs => hs
  cases p with
  | next _ => exact hs
  | done _ => exact hs

theorem steps_closing {element : Text} (hx : Steps W 0 x) : Steps W 0 (closing element x) :=
  hx.bind fun _ => (steps_expectElementEnd element).map

/-- **The passes are enough**: a loop has as many as there are nodes. -/
theorem tags_fuel {onEnd : α → Parser Reader α} {body : Text → α → Parser Reader (Pass α)}
    (hbody : ∀ element a, Steps (fun _ => True) 0 (body element a)) (a : α) (r : Reader) {n : ℕ} (hn : r.rest.length ≤ n) :
    tags onEnd body a r = loop getXmlElement onEnd body n a r := by
  refine loop_fuel (fun r : Reader => r.rest.length) ?_ ?_ le_rfl hn
  · intro s element t hitem
    exact ((steps_getXmlElement (W := fun _ => True) s.rest.length).some ⟨fun _ _ => trivial, le_rfl⟩ hitem).2
  · intro element a p s t hpass
    exact ((hbody element a s.rest.length).some ⟨fun _ _ => trivial, le_rfl⟩ hpass).2

/-! ## Blocks without rows -/

/-- The write ends inside of its array. -/
def Write.Inside (w : Write) : Prop := w.first + w.length ≤ w.size

theorem inside_mk {area : Area} {first length size : ℕ} :
    Write.Inside ⟨area, first, length, size⟩ ↔ first + length ≤ size := Iff.rfl

section Blocks

variable (hin : ∀ w : Write, w.Inside → W w) (hhist : ∀ w : Write, w.area = .history → W w)

include hin

theorem steps_dsCdef (names : List Text) (d : DsEntry) : Steps W 0 (parseTagDsCdef names d) := by
  refine Steps.mono (k := 1) (Steps.bind (m := 0) steps_getXmlText fun expr => ?_) (Nat.zero_le 1)
  cases hprog : parseCdefDs (lookupName (names ++ [d.name])) expr with
  | error e => exact steps_setError _
  | ok prog =>
    obtain ⟨nodes, -, hstorable, rfl⟩ := parseCdefDs_eq_ok.mp hprog
    have hlength := hstorable.length
    refine Steps.bind (k := 0) (m := 0) (steps_write (hin _ ?_)) fun _ => ?_
    · rw [inside_mk, List.length_map, univals]
      rw [dsCdefMaxRpnNodes] at hlength
      omega
    · intro n r hr
      dsimp only
      split_ifs
      · exact hr
      · exact hr

theorem steps_dsField (names : List Text) (element : Text) (d : DsEntry) :
    Steps W 0 (parseTagDsField names element d) := by
  have hnumber {β : Type} {y : Parser Reader β} (hy : Steps W 1 y) (i : ℕ) (hi : 8 * i + 8 ≤ univals)
      (f : β → DsEntry) :
      Steps W 0 (Parse.bind y fun b => Parse.map (write ⟨.dsPar, 8 * i, 8, univals⟩) fun _ => f b) :=
    Steps.mono (k := 1) (Steps.bind (m := 0) hy fun _ => (steps_write (hin _ (inside_mk.mpr hi))).map) (Nat.zero_le 1)
  have htext {β : Type} {y : Parser Reader β} (hy : Steps W 1 y) (f : β → DsEntry) : Steps W 0 (Parse.map y f) :=
    hy.map.mono (Nat.zero_le 1)
  rw [parseTagDsField]
  refine steps_ite (htext (steps_getXmlString _) _) (steps_ite ?_ (steps_ite ?_ (steps_ite ?_ (steps_ite ?_
    (steps_ite (steps_dsCdef hin names d) (steps_ite (htext (steps_getXmlString _) _)
      (steps_ite (htext steps_getXmlDouble _) (steps_ite (htext steps_getXmlUlong _) (steps_setError _)))))))))
  · refine Steps.mono (k := 1) (Steps.bind (m := 0) steps_getXmlText fun dst => ?_) (Nat.zero_le 1)
    cases dstConv dst with
    | none => exact steps_setError _
    | some _ => exact steps_ret _
  · exact hnumber steps_getXmlUlong 0 (by decide) _
  · exact hnumber steps_getXmlDouble 1 (by decide) _
  · exact hnumber steps_getXmlDouble 2 (by decide) _

theorem steps_ds (rrd : RestoredRrd) : Steps W 0 (parseTagDs rrd) := by
  refine steps_ite (steps_setError _) (Steps.map (steps_tags steps_ret (fun element d => ?_) _))
  exact steps_ite (steps_ret _) (steps_closing (steps_dsField hin _ element d))

theorem steps_readPar {i : ℕ} (hi : i < 10) (rra : RraEntry) : Steps W 0 (readPar i rra) := by
  have hwrite : Write.Inside ⟨.rraPar, 8 * i, 8, univals⟩ := by
    rw [inside_mk, univals]
    omega
  refine steps_ite ?_ ?_
  · exact Steps.mono (k := 1) (Steps.bind (m := 0) steps_getXmlUlong fun _ => (steps_write (hin _ hwrite)).map)
      (Nat.zero_le 1)
  · exact Steps.mono (k := 1) (Steps.bind (m := 0) steps_getXmlDouble fun _ => (steps_write (hin _ hwrite)).map)
      (Nat.zero_le 1)

theorem steps_paramsValues {n : ℕ} (hn : n ≤ 10) (rra : RraEntry) : Steps W 0 (parseTagRraParamsValues n rra) := by
  induction n generalizing rra with
  | zero => exact steps_ret rra
  | succ n ih =>
    intro m r hr
    have hread := steps_readPar hin (show 9 - n < 10 by omega) rra m r hr
    rw [parseTagRraParamsValues]
    cases h : readPar (9 - n) rra r with
    | mk o r₁ =>
      rw [h] at hread
      cases o with
      | none => exact hread
      | some rra₁ =>
        dsimp only
        have hbetween : Steps W 0 (if n = 9 then ret () else
            Parse.bind (expectElement "/value".toList) fun _ => expectElement "value".toList) :=
          steps_ite (steps_ret ()) (((steps_expectElement _).bind fun _ => steps_expectElement _).mono (Nat.zero_le 2))
        have hmeets := hbetween m r₁ hread
        cases h₁ : (if n = 9 then ret () else
            Parse.bind (expectElement "/value".toList) fun _ => expectElement "value".toList) r₁ with
        | mk o₁ r₂ =>
          rw [h₁] at hmeets
          cases o₁ with
          | none => exact hmeets
          | some _ => exact ih (by omega) rra₁ m r₂ hmeets

theorem steps_params (rra : RraEntry) : Steps W 0 (parseTagRraParams rra) := by
  refine Steps.map (steps_tags (fun s => steps_ite (steps_ret s) steps_fail) (fun element s => ?_) _)
  refine steps_ite (steps_ite (steps_ret _) steps_fail) (steps_closing (Steps.map ?_))
  cases hfind : paramsTags.find? fun p => isTag element p.1.toList with
  | none => exact steps_ite (steps_paramsValues hin le_rfl _) (Steps.orElse (steps_setError (k := 0) _))
  | some p =>
    have hall : ∀ p ∈ paramsTags, p.2 < 10 := by decide
    exact (steps_readPar hin (hall p (List.mem_of_find?_eq_some hfind)) s.2).orElse

include hhist

theorem steps_cdpPrepField {dsCnt k : ℕ} (hk : k < dsCnt) (element : Text) :
    Steps W 0 (parseTagRraCdpPrepField dsCnt k element) := by
  refine steps_ite ?_ ?_
  · exact Steps.mono (k := 1) (Steps.bind (m := 0) steps_getXmlText fun _ => steps_write (hhist _ rfl)) (Nat.zero_le 1)
  · cases hfind : cdpPrepNumbers.find? fun p => isTag element p.1.toList with
    | none => exact steps_setError _
    | some p =>
      have hall : ∀ p ∈ cdpPrepNumbers, p.2.1 < 10 := by decide
      have hlt := hall p (List.mem_of_find?_eq_some hfind)
      have hwrite : Write.Inside ⟨.cdpPrep, univals * k + 8 * p.2.1, 8, univals * dsCnt⟩ := by
        rw [inside_mk, univals]
        omega
      refine steps_ite ?_ ?_
      · exact Steps.mono (k := 1) (Steps.bind (m := 0) steps_getXmlUlong fun _ => steps_write (hin _ hwrite))
          (Nat.zero_le 1)
      · exact Steps.mono (k := 1) (Steps.bind (m := 0) steps_getXmlDouble fun _ => steps_write (hin _ hwrite))
          (Nat.zero_le 1)

theorem steps_cdpPrepDs (version : Text) {dsCnt k : ℕ} (hk : k < dsCnt) :
    Steps W 0 (parseTagRraCdpPrepDs version dsCnt k) := by
  have hwrite (first length : ℕ) (hlast : first + length ≤ univals) :
      Steps W 0 (write ⟨.cdpPrep, univals * k + first, length, univals * dsCnt⟩) := by
    refine steps_write (hin _ ?_)
    rw [univals] at hlast
    rw [inside_mk, univals]
    omega
  refine Steps.bind (k := 0) (m := 0) (hwrite 0 univals le_rfl) fun _ => ?_
  refine Steps.bind (k := 0) (m := 0) (steps_ite ?_ (steps_ret ())) fun _ => ?_
  · exact Steps.bind (k := 0) (m := 0) (hwrite 64 8 (by decide)) fun _ => hwrite 72 8 (by decide)
  · refine Steps.map (steps_tags (fun s => steps_ite (steps_ret s) steps_fail) (fun element s => ?_) _)
    refine steps_ite (steps_ite (steps_ret _) steps_fail) (steps_closing (Steps.map ?_))
    exact steps_cdpPrepField hin hhist hk element

theorem steps_cdpPrep (version : Text) (dsCnt : ℕ) : Steps W 0 (parseTagRraCdpPrep version dsCnt) := by
  refine Steps.mono (k := dsCnt * 1 + 1) (Steps.bind (steps_times fun k hk => ?_) fun _ => steps_expectElement _)
    (Nat.zero_le _)
  exact Steps.bind (m := 0) (steps_expectElement _) fun _ => steps_cdpPrepDs hin hhist version hk

end Blocks

/-! ## Rows -/

theorem steps_databaseRow {dsCnt first size : ℕ} (hrow : ∀ j < dsCnt, W ⟨.rows, first + 8 * j, 8, size⟩) :
    Steps W dsCnt (parseTagRraDatabaseRow dsCnt first size) := by
  refine Steps.mono (k := dsCnt * 3) (steps_times fun j hj => ?_) (by omega)
  refine Steps.bind (k := 1) (m := 2) (steps_expectElement _) fun _ => ?_
  refine Steps.bind (k := 1) (m := 1) steps_getXmlDouble fun _ => ?_
  exact Steps.bind (k := 0) (m := 1) (steps_write (hrow j hj)) fun _ => steps_expectElement _

/-- A row is written to between `8 * dsCnt * total` and the end of the row. -/
theorem steps_row {dsCnt : ℕ} {s : ℕ × RraEntry}
    (hrow : ∀ first length, first + length ≤ 8 * (dsCnt * s.1) + 8 * dsCnt →
      W ⟨.rows, first, length, 8 * (dsCnt * ((s.1 + 1) % 2 ^ 32) % 2 ^ 32)⟩) :
    Steps W (dsCnt + 1) (parseTagRraRow dsCnt s) := by
  rw [parseTagRraRow]
  dsimp only
  refine Steps.mono (k := 0 + (dsCnt + 1)) (Steps.bind (steps_write (hrow _ _ le_rfl)) fun _ => ?_) (by omega)
  refine (steps_databaseRow fun j hj => hrow _ _ ?_).bind fun _ => (steps_expectElement _).map
  omega

theorem parseTagRraRow_eq_some {dsCnt : ℕ} {s s' : ℕ × RraEntry} {r r' : Reader}
    (h : parseTagRraRow dsCnt s r = (some s', r')) :
    s' = ((s.1 + 1) % 2 ^ 32, { s.2 with rowCnt := (s.2.rowCnt + 1) % 2 ^ 64 }) := by
  rw [parseTagRraRow] at h
  obtain ⟨_, r₁, -, h⟩ := bind_eq_some.mp h
  obtain ⟨_, r₂, -, h⟩ := bind_eq_some.mp h
  obtain ⟨_, -, rfl⟩ := map_eq_some.mp h
  rfl

theorem steps_database (hrows : ∀ w : Write, w.area = .rows → W w) (dsCnt : ℕ) (before : List RraEntry)
    (rra : RraEntry) : Steps W 0 (parseTagRraDatabase dsCnt before rra) := by
  refine Steps.map (steps_tags steps_ret (fun element s => ?_) _)
  exact steps_ite ((steps_row fun _ _ _ => hrows _ rfl).map.mono (Nat.zero_le _))
    (steps_ite (steps_ret _) (steps_setError _))

/-! ## The row counts -/

/-- `n` nodes at most are left, of those that have not been paid for. -/
def Left (W : Write → Prop) (n paid : ℕ) (r : Reader) : Prop := Kept W r ∧ r.rest.length + paid ≤ n

theorem Steps.left (h : Steps W k x) (n paid : ℕ) :
    Spec (Left W n paid) x (fun _ => Left W n (paid + k)) (Left W n paid) := by
  rintro r ⟨hkept, hle⟩
  refine ((h (n - paid)).weaken (fun _ hs => hs) ?_ ?_) r ⟨hkept, Nat.le_sub_of_add_le hle⟩
  · rintro a s ⟨hs, hlen⟩
    exact ⟨hs, by omega⟩
  · rintro s ⟨hs, hlen⟩
    exact ⟨hs, by omega⟩

theorem Left.mono {n paid paid' : ℕ} {r : Reader} (h : Left W n paid r) (hle : paid' ≤ paid) : Left W n paid' r :=
  ⟨h.1, (Nat.add_le_add_left hle _).trans h.2⟩

/-- **A loop that pays**: what is known of its value has cost that many nodes, and every pass has one more to spend. -/
theorem tags_left {n : ℕ} {onEnd : α → Parser Reader α} {body : Text → α → Parser Reader (Pass α)} (V : α → Prop)
    (cost : α → ℕ) (hend : ∀ a, V a → Spec (Left W n (cost a)) (onEnd a) (fun a' => Left W n (cost a')) (Kept W))
    (hbody : ∀ element a, V a → Spec (Left W n (cost a + 1)) (body element a)
      (fun p r => p.Meets (fun a' => V a' ∧ Left W n (cost a') r) fun a' => Left W n (cost a') r) (Kept W))
    {a : α} (ha : V a) : Spec (Left W n (cost a)) (tags onEnd body a) (fun a' => Left W n (cost a')) (Kept W) := by
  intro r hr
  refine spec_loop (fun a r => V a ∧ Left W n (cost a) r) (fun _ a r => V a ∧ Left W n (cost a + 1) r)
    (fun a r => V a ∧ Left W n (cost a) r) ?_ ?_ ?_ (fun _ _ _ hs => hs.2.1) r.rest.length a r ⟨ha, hr⟩
  · rintro a s ⟨hV, hs⟩
    exact ((steps_getXmlElement.left n _).weaken (fun _ h => h) (fun _ _ h => ⟨hV, h⟩) fun _ h => ⟨hV, h⟩) s hs
  · rintro a s ⟨hV, hs⟩
    exact hend a hV s hs
  · rintro element a s ⟨hV, hs⟩
    exact hbody element a hV s hs

/-- What has been read of the data: every row has taken a node for each data source, and one for itself. -/
def paid (dsCnt rows : ℕ) : ℕ := dsCnt + (dsCnt + 1) * rows

/-- The rows of some archives. -/
def rowSum (rras : List RraEntry) : ℕ := (rras.map RraEntry.rowCnt).sum

/-! ## What leaves the rows alone -/

/-- The count of rows and the row pointer are the same. -/
def RraEntry.SameRows (rra rra' : RraEntry) : Prop := rra'.rowCnt = rra.rowCnt ∧ rra'.curRow = rra.curRow

variable {rra rra' : RraEntry} {r r' : Reader}

theorem RraEntry.SameRows.trans {rra'' : RraEntry} (h : rra.SameRows rra') (h' : rra'.SameRows rra'') :
    rra.SameRows rra'' := ⟨h'.1.trans h.1, h'.2.trans h.2⟩

theorem setPar_sameRows (rra : RraEntry) (i cnt : ℕ) (v : RrdValue) : rra.SameRows (rra.setPar i cnt v) := by
  unfold RraEntry.setPar
  split
  all_goals exact ⟨rfl, rfl⟩

theorem readPar_sameRows {i : ℕ} (h : readPar i rra r = (some rra', r')) : rra.SameRows rra' := by
  rw [readPar] at h
  split_ifs at h
  · obtain ⟨n, r₁, -, h⟩ := bind_eq_some.mp h
    obtain ⟨_, -, rfl⟩ := map_eq_some.mp h
    exact setPar_sameRows _ _ _ _
  · obtain ⟨v, r₁, -, h⟩ := bind_eq_some.mp h
    obtain ⟨_, -, rfl⟩ := map_eq_some.mp h
    exact setPar_sameRows _ _ _ _

theorem paramsValues_sameRows {n : ℕ} (h : parseTagRraParamsValues n rra r = (some rra', r')) : rra.SameRows rra' := by
  induction n generalizing rra r with
  | zero =>
    obtain ⟨heq, -⟩ := Prod.mk.inj h
    rw [← Option.some.inj heq]
    exact ⟨rfl, rfl⟩
  | succ n ih =>
    rw [parseTagRraParamsValues] at h
    cases hread : readPar (9 - n) rra r with
    | mk o r₁ =>
      rw [hread] at h
      cases o with
      | none =>
        obtain ⟨heq, -⟩ := Prod.mk.inj h
        rw [← Option.some.inj heq]
        exact ⟨rfl, rfl⟩
      | some rra₁ =>
        have hfirst := readPar_sameRows hread
        dsimp only at h
        cases hbetween : (if n = 9 then ret () else
            Parse.bind (expectElement "/value".toList) fun _ => expectElement "value".toList) r₁ with
        | mk o₁ r₂ =>
          rw [hbetween] at h
          cases o₁ with
          | none =>
            obtain ⟨heq, -⟩ := Prod.mk.inj h
            rw [← Option.some.inj heq]
            exact hfirst
          | some _ => exact hfirst.trans (ih h)

theorem orElse_sameRows {x : Parser Reader RraEntry} (hx : ∀ {rra' r'}, x r = (some rra', r') → rra.SameRows rra')
    (h : orElse x rra r = (some rra', r')) : rra.SameRows rra' := by
  rw [orElse] at h
  cases hrun : x r with
  | mk o r₁ =>
    rw [hrun] at h
    obtain ⟨heq, -⟩ := Prod.mk.inj h
    cases o with
    | none =>
      rw [← Option.some.inj heq]
      exact ⟨rfl, rfl⟩
    | some rra₁ =>
      rw [← Option.some.inj heq]
      exact hx hrun

theorem params_sameRows (h : parseTagRraParams rra r = (some rra', r')) : rra.SameRows rra' := by
  obtain ⟨s, hs, rfl⟩ := map_eq_some.mp h
  refine loop_invariant (fun s : Bool × RraEntry => rra.SameRows s.2) (fun s => rra.SameRows s.2) ?_ ?_ ⟨rfl, rfl⟩ hs
  · intro a a' t t' ha hend
    split_ifs at hend
    · obtain ⟨rfl, -⟩ := ret_eq_some.mp hend
      exact ha
    · cases hend
  · intro element a p t t' ha hpass
    by_cases hparams : isTag element "/params".toList = true
    · rw [if_pos hparams] at hpass
      split_ifs at hpass
      · obtain ⟨rfl, -⟩ := ret_eq_some.mp hpass
        exact ha
      · cases hpass
    · rw [if_neg hparams] at hpass
      obtain ⟨a', t₁, ha', rfl⟩ := closing_eq_some hpass
      obtain ⟨rra₁, hrra, rfl⟩ := map_eq_some.mp ha'
      refine ha.trans ?_
      cases hfind : paramsTags.find? fun p => isTag element p.1.toList with
      | none =>
        rw [hfind] at hrra
        dsimp only at hrra
        split_ifs at hrra
        · exact paramsValues_sameRows hrra
        · exact orElse_sameRows (fun hset => by cases hset) hrra
      | some p =>
        rw [hfind] at hrra
        exact orElse_sameRows readPar_sameRows hrra

theorem cf_sameRows (h : parseTagRraCf rra r = (some rra', r')) : rra.SameRows rra' := by
  obtain ⟨name, r₁, -, h⟩ := bind_eq_some.mp h
  split_ifs at h
  · cases h
  · obtain ⟨rfl, -⟩ := ret_eq_some.mp h
    exact ⟨rfl, rfl⟩

section Budget

variable (hin : ∀ w : Write, w.Inside → W w) {n : ℕ} (hn : n < 2 ^ 32)

include hin hn

/-- **The database**: the array has as many rows as have been read. -/
theorem database_left (dsCnt : ℕ) (before : List RraEntry) (rra : RraEntry) :
    Spec (Left W n (paid dsCnt (rowSum before + rra.rowCnt))) (parseTagRraDatabase dsCnt before rra)
      (fun rra' => Left W n (paid dsCnt (rowSum before + rra'.rowCnt))) (Kept W) := by
  refine spec_map ?_
  refine tags_left (a := (rowSum before % 2 ^ 32, rra)) (fun s => s.1 ≤ rowSum before + s.2.rowCnt)
    (fun s => paid dsCnt (rowSum before + s.2.rowCnt)) (fun s _ => spec_ret fun _ hs => hs) ?_
    ((Nat.mod_le _ _).trans (Nat.le_add_right _ _))
  intro element s hle
  refine spec_ite (fun _ => spec_map ?_) fun _ => spec_ite (fun _ => spec_ret ?_) fun _ => ?_
  · intro r hr
    have hpaid : r.rest.length + (dsCnt + (dsCnt + 1) * (rowSum before + s.2.rowCnt) + 1) ≤ n := hr.2
    have hmul : dsCnt * s.1 ≤ dsCnt * (rowSum before + s.2.rowCnt) := Nat.mul_le_mul_left dsCnt hle
    have hsplit : (dsCnt + 1) * (rowSum before + s.2.rowCnt) =
        dsCnt * (rowSum before + s.2.rowCnt) + (rowSum before + s.2.rowCnt) := Nat.succ_mul _ _
    -- neither the count nor the size is cut
    have hcount : (s.1 + 1) % 2 ^ 32 = s.1 + 1 := Nat.mod_eq_of_lt (by omega)
    have hsize : dsCnt * (s.1 + 1) % 2 ^ 32 = dsCnt * s.1 + dsCnt := by
      rw [Nat.mul_succ]
      exact Nat.mod_eq_of_lt (by omega)
    have hrowCnt : (s.2.rowCnt + 1) % 2 ^ 64 = s.2.rowCnt + 1 := Nat.mod_eq_of_lt (by omega)
    have hrow := @steps_row W dsCnt s fun first length hlast => hin _ (by
      rw [inside_mk, hcount, hsize, Nat.mul_add]
      exact hlast)
    refine ((hrow.left n _).value (V := fun s' => s' = _) parseTagRraRow_eq_some |>.weaken (fun _ h => h) ?_
      fun _ h => h.1) r hr
    rintro s' t ⟨rfl, ht⟩
    dsimp only [Pass.Meets]
    rw [hcount, hrowCnt]
    refine ⟨by omega, ht.mono ?_⟩
    rw [paid, paid, ← Nat.add_assoc (rowSum before), Nat.mul_succ]
    omega
  · exact fun r hr => hr.mono (Nat.le_succ _)
  · exact fun r hr => hr.1

variable (hhist : ∀ w : Write, w.area = .history → W w)

include hhist

/-- **A tag of an RRA.** -/
theorem rraPass_left (version : Text) (dsCnt : ℕ) (before : List RraEntry) (element : Text) (rra : RraEntry) :
    Spec (Left W n (paid dsCnt (rowSum before + rra.rowCnt) + 1)) (parseTagRraPass version dsCnt before element rra)
      (fun p r => p.Meets (fun rra' => Left W n (paid dsCnt (rowSum before + rra'.rowCnt)) r)
        fun rra' => Left W n (paid dsCnt (rowSum before + rra'.rowCnt)) r) (Kept W) := by
  have hnext {x : Parser Reader (Pass RraEntry)} (hx : Steps W 0 x)
      (hsame : ∀ {r p r'}, x r = (some p, r') → ∃ rra', p = .next rra' ∧ rra.SameRows rra') :
      Spec (Left W n (paid dsCnt (rowSum before + rra.rowCnt) + 1)) x
        (fun p r => p.Meets (fun rra' => Left W n (paid dsCnt (rowSum before + rra'.rowCnt)) r)
          fun rra' => Left W n (paid dsCnt (rowSum before + rra'.rowCnt)) r) (Kept W) := by
    refine ((hx.left n _).value (V := fun p => ∃ rra', p = .next rra' ∧ rra.SameRows rra') hsame).weaken
      (fun _ h => h) ?_ fun _ h => h.1
    rintro p r ⟨⟨rra', rfl, hrows⟩, hr⟩
    refine hr.mono ?_
    rw [hrows.1]
    exact Nat.le_succ _
  have hclosing {x : Parser Reader RraEntry} (hx : Steps W 0 x)
      (hsame : ∀ {r rra' r'}, x r = (some rra', r') → rra.SameRows rra') :
      ∀ {r p r'}, closing element x r = (some p, r') → ∃ rra', p = .next rra' ∧ rra.SameRows rra' := by
    intro r p r' hpass
    obtain ⟨rra', r₁, hrra, rfl⟩ := closing_eq_some hpass
    exact ⟨rra', rfl, hsame hrra⟩
  have hcnt : Steps W 0 (Parse.map getXmlUlong fun n => { rra with pdpCnt := n }) :=
    steps_getXmlUlong.map.mono (Nat.zero_le 1)
  have hcf : Steps W 0 (parseTagRraCf rra) :=
    ((steps_getXmlString _).bind fun _ => steps_ite (steps_setError (k := 0) _) (steps_ret _)).mono (Nat.zero_le 1)
  rw [parseTagRraPass]
  refine spec_ite (fun _ => hnext (steps_closing hcf) (hclosing hcf cf_sameRows)) fun _ => ?_
  refine spec_ite (fun _ => hnext (steps_closing hcnt) (hclosing hcnt fun h => ?_)) fun _ => ?_
  · obtain ⟨_, -, rfl⟩ := map_eq_some.mp h
    exact ⟨rfl, rfl⟩
  have hxff := steps_readPar hin (show 0 < 10 by decide) rra
  refine spec_ite (fun _ => hnext (steps_closing hxff) (hclosing hxff readPar_sameRows)) fun _ => ?_
  refine spec_ite (fun _ => hnext (steps_params hin rra).map fun h => ?_) fun _ => ?_
  · obtain ⟨rra', hrra, rfl⟩ := map_eq_some.mp h
    exact ⟨rra', rfl, params_sameRows hrra⟩
  refine spec_ite (fun _ => hnext (steps_cdpPrep hin hhist version dsCnt).map fun h => ?_) fun _ => ?_
  · obtain ⟨_, -, rfl⟩ := map_eq_some.mp h
    exact ⟨rra, rfl, rfl, rfl⟩
  refine spec_ite (fun _ => spec_map ?_) fun _ => spec_ite (fun _ => spec_ret fun r hr => ?_) fun _ r hr => hr.1
  · exact (database_left hin hn dsCnt before rra).weaken (fun _ h => h.mono (Nat.le_succ _)) (fun _ _ h => h) fun _ h => h
  · exact hr.mono (Nat.le_succ _)

/-- **A tag of the document.** -/
theorem rrdPass_left (random : ℕ) (element : Text) (rrd : RestoredRrd) :
    Spec (Left W n (paid rrd.ds.length (rowSum rrd.rras) + 1)) (parseTagRrdPass random element rrd)
      (fun p r => p.Meets (fun rrd' => Left W n (paid rrd'.ds.length (rowSum rrd'.rras)) r)
        fun rrd' => Left W n (paid rrd'.ds.length (rowSum rrd'.rras)) r) (Kept W) := by
  have hclosing {α : Type} {x : Parser Reader α} (hx : Steps W 1 x) (f : α → RestoredRrd)
      (hsame : ∀ a, (f a).ds = rrd.ds ∧ (f a).rras = rrd.rras) :
      Spec (Left W n (paid rrd.ds.length (rowSum rrd.rras) + 1)) (closing element (Parse.map x f))
        (fun p r => p.Meets (fun rrd' => Left W n (paid rrd'.ds.length (rowSum rrd'.rras)) r)
          fun rrd' => Left W n (paid rrd'.ds.length (rowSum rrd'.rras)) r) (Kept W) := by
    refine (((steps_closing (hx.map.mono (Nat.zero_le 1))).left n _).value
      (V := fun p => ∃ a, p = .next (f a)) fun h => ?_).weaken (fun _ h => h) ?_ fun _ h => h.1
    · obtain ⟨rrd', r₁, hrrd, rfl⟩ := closing_eq_some h
      obtain ⟨a, -, rfl⟩ := map_eq_some.mp hrrd
      exact ⟨a, rfl⟩
    · rintro p r ⟨⟨a, rfl⟩, hr⟩
      rw [Pass.Meets, (hsame a).1, (hsame a).2]
      exact hr.mono (Nat.le_succ _)
  rw [parseTagRrdPass]
  refine spec_ite (fun _ => hclosing (steps_getXmlString _) _ fun _ => ⟨rfl, rfl⟩) fun _ => ?_
  refine spec_ite (fun _ => hclosing steps_getXmlUlong _ fun _ => ⟨rfl, rfl⟩) fun _ => ?_
  refine spec_ite (fun _ => hclosing steps_getXmlTimeT _ fun _ => ⟨rfl, rfl⟩) fun _ => ?_
  refine spec_ite (fun _ => spec_map ?_) fun _ => spec_ite (fun _ => spec_map ?_) fun _ =>
    spec_ite (fun _ => spec_ret fun r hr => ?_) fun _ r hr => hr.1
  · -- the element of the data source itself is what it costs: there are no rows yet
    refine (((steps_ds hin rrd).left n _).value
      (V := fun rrd' => rrd.rras = [] ∧ rrd'.rras = [] ∧ rrd'.ds.length = rrd.ds.length + 1) fun h => ?_).weaken
      (fun _ h => h) ?_ fun _ h => h.1
    · rw [parseTagDs] at h
      split_ifs at h with hnone
      · cases h
      · obtain ⟨d, -, rfl⟩ := map_eq_some.mp h
        have hnil : rrd.rras = [] := not_not.mp hnone
        exact ⟨hnil, hnil, List.length_append⟩
    · rintro rrd' r ⟨⟨hnil, hnil', hlength⟩, hr⟩
      have hzero : rowSum ([] : List RraEntry) = 0 := rfl
      rw [hnil, hzero] at hr
      dsimp only [Pass.Meets]
      rw [hnil', hlength, hzero]
      refine hr.mono ?_
      rw [paid, paid, Nat.mul_zero, Nat.mul_zero]
  · have hwrite : Steps W 0 (write ⟨.cdpPrep, 0, univals * rrd.ds.length, univals * rrd.ds.length⟩) :=
      steps_write (hin _ (inside_mk.mpr (Nat.zero_add _).le))
    refine spec_bind ((hwrite.left n _).weaken (fun _ h => h) (fun _ _ h => h) fun _ h => h.1) fun _ => spec_map ?_
    have hrows (rra : RraEntry) : rowSum (rrd.rras ++ [rra]) = rowSum rrd.rras + rra.rowCnt := by
      rw [rowSum, List.map_append, List.sum_append]
      rfl
    dsimp only [Pass.Meets]
    simp only [hrows]
    refine (tags_left (fun _ => True) (fun rra => paid rrd.ds.length (rowSum rrd.rras + rra.rowCnt)) (fun rra _ => ?_)
      (fun element rra _ => ?_) trivial).weaken (fun _ h => h.mono (Nat.le_succ _)) (fun _ _ h => h) fun _ h => h
    · exact spec_ite (fun _ => spec_fail fun _ h => h.1) fun _ => spec_ret fun _ h => h
    · refine (rraPass_left hin hn hhist rrd.version rrd.ds.length rrd.rras element rra).weaken (fun _ h => h) ?_
        fun _ h => h
      intro p r hp
      cases p with
      | next _ => exact ⟨trivial, hp⟩
      | done _ => exact hp
  · exact hr.mono (Nat.le_succ _)

/-- **The document**: the writes that are made are allowed. -/
theorem restore_kept {random : ℕ} {doc : List XmlNode} (hdoc : doc.length ≤ n) :
    Kept W (rrdRestore random doc).2 := by
  have hspec : Spec (Left W n 0) (Parse.map (parseFile random) writeFile) (fun _ => Kept W) (Kept W) := by
    refine spec_map (spec_bind (((steps_expectElement _).left n _).weaken (fun _ h => h) (fun _ _ h => h) fun _ h => h.1)
      fun _ => ?_)
    refine (tags_left (fun _ => True) (fun rrd : RestoredRrd => paid rrd.ds.length (rowSum rrd.rras))
      (fun rrd _ => spec_ret fun _ h => h) (fun element rrd _ => ?_) trivial).weaken (fun _ h => h.mono ?_)
      (fun _ _ h => h.1) fun _ h => h
    · refine (rrdPass_left hin hn hhist random element rrd).weaken (fun _ h => h) ?_ fun _ h => h
      intro p r hp
      cases p with
      | next _ => exact ⟨trivial, hp⟩
      | done _ => exact hp
    · exact Nat.zero_le _
  have hmeets := hspec ⟨doc, none, none, []⟩ ⟨fun _ hw => absurd hw List.not_mem_nil, hdoc⟩
  change Kept W (Parse.map (parseFile random) writeFile ⟨doc, none, none, []⟩).2
  cases hrun : Parse.map (parseFile random) writeFile ⟨doc, none, none, []⟩ with
  | mk o r =>
    rw [hrun] at hmeets
    cases o with
    | none => exact hmeets
    | some rrd => exact hmeets

end Budget

/-! ## What is known of a restored file -/

/-- A row pointer is that of a row, if there are any. -/
def RraEntry.PtrOk (rra : RraEntry) : Prop := rra.rowCnt ≠ 0 → rra.curRow < rra.rowCnt

/-- **The row pointer** is not touched until the end of an RRA. -/
theorem rra_ptrOk {random : ℕ} {rrd rrd' : RestoredRrd} (h : parseTagRra random rrd r = (some rrd', r')) :
    ∃ rra, rrd'.rras = rrd.rras ++ [rra] ∧ rra.PtrOk := by
  obtain ⟨_, r₁, -, h⟩ := bind_eq_some.mp h
  obtain ⟨rra, hrra, rfl⟩ := map_eq_some.mp h
  refine ⟨rra, rfl, ?_⟩
  refine loop_invariant (fun rra : RraEntry => rra.curRow = 0) RraEntry.PtrOk ?_ ?_ rfl hrra
  · intro a a' s t _ hend
    split_ifs at hend with hrows
    · cases hend
    · obtain ⟨rfl, -⟩ := ret_eq_some.mp hend
      exact fun _ => Nat.mod_lt _ (Nat.pos_of_ne_zero hrows)
  · intro element a p s t ha hpass
    have hnext {x : Parser Reader RraEntry} (hx : ∀ {r rra' r'}, x r = (some rra', r') → a.SameRows rra')
        (h : closing element x s = (some p, t)) : p.Meets (fun rra : RraEntry => rra.curRow = 0) RraEntry.PtrOk := by
      obtain ⟨rra', r₁, hrra, rfl⟩ := closing_eq_some h
      exact (hx hrra).2.trans ha
    rw [parseTagRraPass] at hpass
    split_ifs at hpass
    · exact hnext cf_sameRows hpass
    · refine hnext (fun h => ?_) hpass
      obtain ⟨_, -, rfl⟩ := map_eq_some.mp h
      exact ⟨rfl, rfl⟩
    · exact hnext readPar_sameRows hpass
    · obtain ⟨rra', hrra', rfl⟩ := map_eq_some.mp hpass
      exact (params_sameRows hrra').2.trans ha
    · obtain ⟨_, -, rfl⟩ := map_eq_some.mp hpass
      exact ha
    · obtain ⟨rra', hrra', rfl⟩ := map_eq_some.mp hpass
      obtain ⟨x, hx, rfl⟩ := map_eq_some.mp hrra'
      refine loop_invariant (fun x : ℕ × RraEntry => x.2.curRow = 0) (fun x => x.2.curRow = 0) ?_ ?_ ha hx
      · intro b b' s t hb hend
        obtain ⟨rfl, -⟩ := ret_eq_some.mp hend
        exact hb
      · intro element b p s t hb hrow
        split_ifs at hrow
        · obtain ⟨b', hb', rfl⟩ := map_eq_some.mp hrow
          rw [parseTagRraRow_eq_some hb']
          exact hb
        · obtain ⟨rfl, -⟩ := ret_eq_some.mp hrow
          exact hb
        · cases hrow
    · obtain ⟨rfl, -⟩ := ret_eq_some.mp hpass
      intro hrows
      rw [ha]
      exact Nat.pos_of_ne_zero hrows
    · cases hpass

theorem restore_ptrOk {random : ℕ} {doc : List XmlNode} {rrd : RestoredRrd}
    (h : (rrdRestore random doc).1 = some rrd) : ∀ rra ∈ rrd.rras, rra.PtrOk := by
  obtain ⟨rrd₁, hfile, rfl⟩ := map_eq_some.mp
    (Prod.ext h rfl : rrdRestore random doc = (some rrd, (rrdRestore random doc).2))
  obtain ⟨_, r₁, -, htags⟩ := bind_eq_some.mp hfile
  have hall : ∀ rra ∈ rrd₁.rras, rra.PtrOk := by
    refine loop_invariant (fun rrd : RestoredRrd => ∀ rra ∈ rrd.rras, rra.PtrOk)
      (fun rrd => ∀ rra ∈ rrd.rras, rra.PtrOk) ?_ ?_ (fun _ hrra => absurd hrra List.not_mem_nil) htags
    · intro a a' s t ha hend
      obtain ⟨rfl, -⟩ := ret_eq_some.mp hend
      exact ha
    · intro element a p s t ha hpass
      rw [parseTagRrdPass] at hpass
      split_ifs at hpass
      · obtain ⟨_, _, hrrd, rfl⟩ := closing_eq_some hpass
        obtain ⟨_, -, rfl⟩ := map_eq_some.mp hrrd
        exact ha
      · obtain ⟨_, _, hrrd, rfl⟩ := closing_eq_some hpass
        obtain ⟨_, -, rfl⟩ := map_eq_some.mp hrrd
        exact ha
      · obtain ⟨_, _, hrrd, rfl⟩ := closing_eq_some hpass
        obtain ⟨_, -, rfl⟩ := map_eq_some.mp hrrd
        exact ha
      · obtain ⟨rrd', hrrd, rfl⟩ := map_eq_some.mp hpass
        rw [parseTagDs] at hrrd
        split_ifs at hrrd
        · cases hrrd
        · obtain ⟨d, -, rfl⟩ := map_eq_some.mp hrrd
          exact ha
      · obtain ⟨rrd', hrrd, rfl⟩ := map_eq_some.mp hpass
        obtain ⟨rra, hrras, hptr⟩ := rra_ptrOk hrrd
        intro rra' hmem
        rw [hrras] at hmem
        rcases List.mem_append.mp hmem with hmem | hmem
        · exact ha rra' hmem
        · rw [List.mem_singleton.mp hmem]
          exact hptr
      · obtain ⟨rfl, -⟩ := ret_eq_some.mp hpass
        exact ha
      · cases hpass
  rw [writeFile]
  split_ifs
  · exact hall
  · exact hall

/-- The document of a `FAILURES` RRA: no step, no rows, a window that is too long, an archive that is not there, and a
history of 81 violations. -/
def failuresDoc : List XmlNode :=
  block "rrd" (leaf "version" "0003" ++
    block "ds" (leaf "name" "a" ++ leaf "type" "GAUGE") ++
    block "rra" (leaf "cf" "FAILURES" ++ block "params" (leaf "window_len" "100" ++ leaf "dependent_rra_idx" "7") ++
      block "cdp_prep" (block "ds" (leaf "history" (String.ofList (List.replicate 81 '1'))))))

/-- What is restored from it. -/
def failuresRestored : RestoredRrd where
  version := "0003".toList
  pdpStep := 0
  lastUp := 0
  ds := [⟨['a'], "GAUGE".toList, [], [], .num 0, 0⟩]
  rras := [⟨"FAILURES".toList, 0, 0, .num 0, .num 0, .num 0, 7, 100, 0, 0⟩]

theorem failuresDoc_restored : (rrdRestore 0 failuresDoc).1 = some failuresRestored := by decide +kernel

/-- **A database** that the other programs can work with. -/
structure RestoredRrd.WellFormed (rrd : RestoredRrd) : Prop where
  pdpStep : 1 ≤ rrd.pdpStep
  ds : rrd.ds ≠ []
  rras : rrd.rras ≠ []
  pdpCnt : ∀ rra ∈ rrd.rras, 1 ≤ rra.pdpCnt
  rowCnt : ∀ rra ∈ rrd.rras, 1 ≤ rra.rowCnt
  curRow : ∀ rra ∈ rrd.rras, rra.curRow < rra.rowCnt
  windowLen : ∀ rra ∈ rrd.rras, cfConv rra.cfNam = some .failures → rra.seasonalSmoothIdx ≤ maxFailuresWindowLen
  dependent : ∀ rra ∈ rrd.rras, ∀ cf ∈ cfConv rra.cfNam, cf.isPlain = false → rra.dependentRraIdx < rrd.rras.length

/-- No clause of it is checked, and the history is copied behind the end of `cdp_prep`. -/
theorem failuresDoc_unchecked : (rrdRestore 0 (block "rrd" [])).1 = some ⟨"0003".toList, 0, 0, [], []⟩ ∧
    (∀ rra ∈ failuresRestored.rras, failuresRestored.pdpStep = 0 ∧ rra.pdpCnt = 0 ∧ rra.rowCnt = 0 ∧
      ¬ rra.curRow < rra.rowCnt ∧ maxFailuresWindowLen < rra.seasonalSmoothIdx ∧
      failuresRestored.rras.length ≤ rra.dependentRraIdx) ∧
    ⟨.history, 0, 81, 80⟩ ∈ (rrdRestore 0 failuresDoc).2.writes := by
  refine ⟨by decide +kernel, fun rra hrra => ?_, by decide +kernel⟩
  obtain rfl := List.mem_singleton.mp hrra
  decide

/-- A document that is accepted, from which no database comes that could be worked with. -/
theorem restored_unchecked : ¬ ∀ (random : ℕ) (doc : List XmlNode) (rrd : RestoredRrd),
    (rrdRestore random doc).1 = some rrd →
      rrd.WellFormed ∧ ∀ w ∈ (rrdRestore random doc).2.writes, w.Inside := by
  intro h
  obtain ⟨hformed, hinside⟩ := h 0 failuresDoc failuresRestored failuresDoc_restored
  have hstep : failuresRestored.pdpStep = 0 := rfl
  exact absurd hformed.pdpStep (by rw [hstep]; decide)

/-- **What `rrd_restore` keeps of a document**: the row pointers are those of rows where there are any, and it writes
inside of its arrays, other than for the history of a `FAILURES` RRA. -/
theorem restored_writes (random : ℕ) (doc : List XmlNode) (hdoc : doc.length < 2 ^ 32) :
    (∀ w ∈ (rrdRestore random doc).2.writes, w.area ≠ .history → w.Inside) ∧
      ∀ rrd, (rrdRestore random doc).1 = some rrd → ∀ rra ∈ rrd.rras, rra.PtrOk := by
  refine ⟨?_, fun rrd h => restore_ptrOk h⟩
  exact restore_kept (W := fun w => w.area ≠ .history → w.Inside) (fun w hw _ => hw) hdoc
    (fun w hw hne => absurd hw hne) le_rfl

/-- The writes for it: that of the history is the one that goes too far. -/
theorem failuresDoc_writes :
    (∀ w ∈ (rrdRestore 0 failuresDoc).2.writes, w.area ≠ .history → w.Inside) ∧
      ∀ rra ∈ failuresRestored.rras, rra.PtrOk := by
  obtain ⟨hwrites, hptr⟩ := restored_writes 0 failuresDoc (by decide +kernel)
  exact ⟨hwrites, hptr failuresRestored failuresDoc_restored⟩

/-- **The passes are enough**: the loop over the document ends with it, and so does that of every block. -/
theorem parseTagRrd_fuel (random : ℕ) (r : Reader) {n : ℕ} (hn : r.rest.length ≤ n) :
    parseTagRrd random r =
      loop getXmlElement ret (parseTagRrdPass random) n ⟨[], 0, 0, [], []⟩ r := by
  refine tags_fuel (fun element rrd => ?_) _ r hn
  have hrra (version : Text) (dsCnt : ℕ) (before : List RraEntry) (element : Text) (rra : RraEntry) :
      Steps (fun _ => True) 0 (parseTagRraPass version dsCnt before element rra) := by
    refine steps_ite (steps_closing ?_) (steps_ite (steps_closing (steps_getXmlUlong.map.mono (Nat.zero_le 1)))
      (steps_ite (steps_closing (steps_readPar (fun _ _ => trivial) (by decide) rra))
      (steps_ite (steps_params (fun _ _ => trivial) rra).map
      (steps_ite (steps_cdpPrep (fun _ _ => trivial) (fun _ _ => trivial) version dsCnt).map
      (steps_ite (steps_database (fun _ _ => trivial) dsCnt before rra).map
      (steps_ite (steps_ret _) (steps_setError _)))))))
    exact ((steps_getXmlString _).bind fun _ => steps_ite (steps_setError (k := 0) _) (steps_ret _)).mono (Nat.zero_le 1)
  refine steps_ite (steps_closing ((steps_getXmlString _).map.mono (Nat.zero_le 1)))
    (steps_ite (steps_closing (steps_getXmlUlong.map.mono (Nat.zero_le 1)))
    (steps_ite (steps_closing (steps_getXmlTimeT.map.mono (Nat.zero_le 1)))
    (steps_ite (steps_ds (fun _ _ => trivial) rrd).map
    (steps_ite (Steps.map ?_) (steps_ite (steps_ret _) (steps_setError _))))))
  refine Steps.bind (k := 0) (m := 0) (steps_write trivial) fun _ => Steps.map (steps_tags (fun rra => ?_) (hrra _ _ _) _)
  exact steps_ite steps_fail (steps_ret _)

end Rrdtool.Restore
