import Rrdtool.Cdef

/-!
# What a stored `COMPUTE` program keeps

`parseCDEF_DS` packs a program into shorts, and `rpn_expand` unpacks it. Operators come back; a constant
comes back if it is an integer, and the index of a DS if it fits into a `short`.

* `parseCdefDs_eq_ok` — what is stored, and when;
* `storedExactly_iff` — when it comes back as it was.
-/

namespace Rrdtool

variable {lookup : Text → Option ℕ} {n : Rpnp}

/-! ## What is stored -/

/-- The range that `rpn_compact` checks a constant for. A NaN is in it. -/
def InShort (v : RrdValue) : Prop := v.floor.lt (.num (-32768)) = false ∧ Dbl.lt (.num 32767) v.floor = false

instance (v : RrdValue) : Decidable (InShort v) := inferInstanceAs (Decidable (_ ∧ _))

/-- A node as it is packed. -/
def Rpnp.packed (n : Rpnp) : RpnCdefds where
  op := n.op
  val :=
    if n.op = .number then n.val.floor.toInt 0
    else if n.op = .variable ∨ n.op = .prevOther then (n.ptr : ℤ).bmod (2 ^ 16)
    else 0

/-- **A program that `parseCDEF_DS` stores.** -/
structure Storable (prog : List Rpnp) : Prop where
  length : prog.length < dsCdefMaxRpnNodes
  op : ∀ n ∈ prog, n.op ∉ notInCompute
  constant : ∀ n ∈ prog, n.op = .number → InShort n.val

theorem compactNode_eq_ok {c : RpnCdefds} :
    compactNode n = .ok c ↔ (n.op = .number → InShort n.val) ∧ c = n.packed := by
  rw [compactNode, Rpnp.packed]
  cases hop : n.op with
  | number =>
    by_cases hrange : InShort n.val
    · simp [hrange, hrange.1, hrange.2, eq_comm]
    · have hor : (n.val.floor.lt (.num (-32768)) || Dbl.lt (.num 32767) n.val.floor) = true := by
        rw [InShort, not_and_or, Bool.not_eq_false, Bool.not_eq_false] at hrange
        rw [Bool.or_eq_true]
        exact hrange
      simp [hrange, hor]
  | _ => simp [eq_comm]

theorem mapM_compact_eq_ok {prog : List Rpnp} {out : List RpnCdefds} :
    prog.mapM compactNode = .ok out ↔
      (∀ n ∈ prog, n.op = .number → InShort n.val) ∧ out = prog.map Rpnp.packed := by
  induction prog generalizing out with
  | nil => simp [pure, Except.pure, eq_comm]
  | cons n prog ih =>
    rw [List.mapM_cons, List.forall_mem_cons, List.map_cons]
    cases hn : compactNode n with
    | error e =>
      have hnot : ¬ (n.op = .number → InShort n.val) := fun h => by
        rw [compactNode_eq_ok.mpr ⟨h, rfl⟩] at hn
        exact absurd hn (by simp)
      simp [bind, Except.bind, hnot]
    | ok c =>
      obtain ⟨hrange, rfl⟩ := compactNode_eq_ok.mp hn
      cases hrest : prog.mapM compactNode with
      | error e =>
        have hnot : ¬ ∀ m ∈ prog, m.op = .number → InShort m.val := fun h => by
          rw [ih.mpr ⟨h, rfl⟩] at hrest
          exact absurd hrest (by simp)
        simp [bind, Except.bind, hnot]
      | ok cs =>
        obtain ⟨hall, rfl⟩ := ih.mp hrest
        have hall' : (n.op = .number → InShort n.val) ∧ ∀ m ∈ prog, m.op = .number → InShort m.val :=
          ⟨hrange, hall⟩
        simp only [bind, Except.bind, pure, Except.pure, Except.ok.injEq]
        exact ⟨fun h => ⟨hall', h.symm⟩, fun h => h.2.symm⟩

/-- **What is stored**: the nodes, packed, of a program that can be. -/
theorem parseCdefDs_eq_ok {expr : Text} {prog : List RpnCdefds} :
    parseCdefDs lookup expr = .ok prog ↔
      ∃ nodes, rpnParse lookup expr = some nodes ∧ Storable nodes ∧ prog = nodes.map Rpnp.packed := by
  rw [parseCdefDs]
  cases hparse : rpnParse lookup expr with
  | none => simp
  | some nodes =>
    have hany : (nodes.any fun n => notInCompute.contains n.op) = true ↔ ¬ ∀ n ∈ nodes, n.op ∉ notInCompute := by
      simp
    dsimp only
    by_cases hop : ∀ n ∈ nodes, n.op ∉ notInCompute
    · rw [if_neg fun h => hany.mp h hop, rpnCompact]
      by_cases hlen : dsCdefMaxRpnNodes < nodes.length + 1
      · rw [if_pos hlen]
        constructor
        · exact fun h => absurd h (by simp)
        · rintro ⟨m, hm, hstored, -⟩
          obtain rfl := Option.some.inj hm
          have := hstored.length
          omega
      · rw [if_neg hlen, mapM_compact_eq_ok]
        constructor
        · rintro ⟨hrange, rfl⟩
          exact ⟨nodes, rfl, ⟨by omega, hop, hrange⟩, rfl⟩
        · rintro ⟨m, hm, hstored, rfl⟩
          obtain rfl := Option.some.inj hm
          exact ⟨hstored.constant, rfl⟩
    · rw [if_pos (hany.mpr hop)]
      constructor
      · exact fun h => absurd h (by simp)
      · rintro ⟨m, hm, hstored, -⟩
        obtain rfl := Option.some.inj hm
        exact absurd hstored.op hop

/-! ## What comes back -/

/-- The operator, the constant and the index that `rpn_expand` finds in a packed node. -/
def RpnCdefds.expanded (c : RpnCdefds) : Op × RrdValue × ℤ :=
  (c.op, if c.op = .number then .num (c.val : ℤ) else .num 0,
    if c.op = .variable ∨ c.op = .prevOther then c.val else 0)

/-- The operator, the constant and the index of a node. -/
def Rpnp.meant (n : Rpnp) : Op × RrdValue × ℤ :=
  (n.op, if n.op = .number then n.val else .num 0,
    if n.op = .variable ∨ n.op = .prevOther then (n.ptr : ℤ) else 0)

/-- **A node that a packed node can hold**: an integer, or an index that is a `short`. -/
structure NodeFits (n : Rpnp) : Prop where
  constant : n.op = .number → ∃ z : ℤ, n.val = .num (z : ℚ)
  index : n.op = .variable ∨ n.op = .prevOther → n.ptr < 2 ^ 15

/-- What is stored of a constant, if it is not an integer or is out of range, is another number. -/
theorem floor_toInt_iff {v : RrdValue} (hrange : InShort v) :
    .num ((v.floor.toInt 0 : ℤ) : ℚ) = v ↔ ∃ z : ℤ, v = .num (z : ℚ) := by
  cases v with
  | nan => simp [Dbl.floor, Dbl.toInt]
  | neginf => exact absurd hrange.1 (by simp [Dbl.floor, Dbl.lt])
  | inf => exact absurd hrange.2 (by simp [Dbl.floor, Dbl.lt])
  | num q =>
    have hfloor : (Dbl.num q).floor.toInt 0 = ⌊q⌋ := by
      simp only [Dbl.floor, Dbl.toInt, Int.floor_intCast, Int.ceil_intCast, ite_self]
    rw [hfloor]
    constructor
    · intro h
      exact ⟨⌊q⌋, h.symm⟩
    · rintro ⟨z, hz⟩
      obtain rfl := Dbl.num.inj hz
      rw [Int.floor_intCast]

/-- An index comes back if it is a `short`. -/
theorem bmod_short_iff (i : ℕ) : (i : ℤ).bmod (2 ^ 16) = i ↔ i < 2 ^ 15 := by
  rw [Int.bmod_def]
  omega

/-- **A node comes back** exactly if it fits. -/
theorem expanded_packed_iff (hrange : n.op = .number → InShort n.val) :
    n.packed.expanded = n.meant ↔ NodeFits n := by
  rw [RpnCdefds.expanded, Rpnp.meant, Rpnp.packed]
  dsimp only
  rw [Prod.mk.injEq, Prod.mk.injEq]
  by_cases hnumber : n.op = .number
  · have hvar : ¬ (n.op = .variable ∨ n.op = .prevOther) := by simp [hnumber]
    simp only [if_pos hnumber, if_neg hvar]
    rw [floor_toInt_iff (hrange hnumber)]
    exact ⟨fun h => ⟨fun _ => h.2.1, fun h => absurd h hvar⟩, fun h => ⟨trivial, h.constant hnumber, trivial⟩⟩
  · simp only [if_neg hnumber]
    by_cases hvar : n.op = .variable ∨ n.op = .prevOther
    · simp only [if_pos hvar]
      rw [bmod_short_iff]
      exact ⟨fun h => ⟨fun h => absurd h hnumber, fun _ => h.2.2⟩, fun h => ⟨trivial, trivial, h.index hvar⟩⟩
    · simp only [if_neg hvar]
      exact ⟨fun _ => ⟨fun h => absurd h hnumber, fun h => absurd h hvar⟩, fun _ => ⟨trivial, trivial, trivial⟩⟩

/-- **A program is stored exactly**: it fits into the `par` array with its `OP_END`, and `rpn_expand` gives the
nodes that `rpn_parse` has found. -/
def StoredExactly (lookup : Text → Option ℕ) (expr : Text) : Prop :=
  ∀ prog nodes, parseCdefDs lookup expr = .ok prog → rpnParse lookup expr = some nodes →
    prog.length + 1 ≤ dsCdefMaxRpnNodes ∧ prog.map RpnCdefds.expanded = nodes.map Rpnp.meant

/-- **What is stored comes back as it was** exactly where every node of a program that can be stored fits. -/
theorem storedExactly_iff (lookup : Text → Option ℕ) (expr : Text) :
    StoredExactly lookup expr ↔
      ∀ nodes, rpnParse lookup expr = some nodes → Storable nodes → ∀ n ∈ nodes, NodeFits n := by
  constructor
  · intro h nodes hparse hstored n hn
    obtain ⟨-, hmap⟩ := h _ nodes (parseCdefDs_eq_ok.mpr ⟨nodes, hparse, hstored, rfl⟩) hparse
    rw [List.map_map] at hmap
    exact (expanded_packed_iff (hstored.constant n hn)).mp (List.map_inj_left.mp hmap n hn)
  · intro h prog nodes hok hparse
    obtain ⟨m, hm, hstored, rfl⟩ := parseCdefDs_eq_ok.mp hok
    obtain rfl : m = nodes := Option.some.inj (hm.symm.trans hparse)
    refine ⟨?_, ?_⟩
    · rw [List.length_map]
      exact hstored.length
    · rw [List.map_map]
      exact List.map_inj_left.mpr fun n hn =>
        (expanded_packed_iff (hstored.constant n hn)).mpr (h m hm hstored n hn)

/-- `1.5,UN` is stored as `1,UN`. -/
theorem fraction_rounded_down : ¬ ∀ lookup expr, StoredExactly lookup expr := by
  intro h
  have hparse : rpnParse (fun _ => none) "1.5,UN".toList =
      some [⟨.number, .num (3 / 2), 0⟩, ⟨.un, .num 0, 0⟩] := by decide +kernel
  have hstored : parseCdefDs (fun _ => none) "1.5,UN".toList = .ok [⟨.number, 1⟩, ⟨.un, 0⟩] := by
    decide +kernel
  obtain ⟨-, hmap⟩ := h _ _ _ _ hstored hparse
  exact absurd hmap (by decide +kernel)

end Rrdtool
