import Rrdtool.Restore.Restore
import Rrdtool.Rpn.Compact
import Rrdtool.Created

/-!
# `COMPUTE` programs that look back

`process_all_pdp_st` goes over the data sources in their order, so a `COMPUTE` program may name those in front of its
own. `rrd_create_r` looks names up among these only. `rrd_restore` has counted the data source already, and finds it
under its own name; what it reads as the heartbeat or a limit goes into the same bytes as the program. Either way an
index is cut down to a `short`.

* `computeDs_earlier` — what looking back is for;
* `createArgs_backwards_iff`, `restored_backwards_iff` — when the programs do;
* `backwards_iff` — both together.
-/

namespace Rrdtool

open Loop

/-! ## Looking back -/

/-- A node of the program of data source `k` names a data source in front of it, if any. -/
def RpnCdefds.Backwards (k : ℕ) (c : RpnCdefds) : Prop :=
  c.op = .variable ∨ c.op = .prevOther → 0 ≤ c.val ∧ c.val < k

/-- **A program that looks back** reads what has been calculated in the same update. -/
theorem computeDs_earlier (lib : Libm) {prog : List RpnCdefds} {k : ℕ} (hprog : ∀ c ∈ prog, c.Backwards k)
    {f g : ℕ → RrdValue} (hfg : ∀ j < k, f j = g j) : computeDs lib prog f k = computeDs lib prog g k := by
  have hsubst : (prog.map fun c => substVariable f (rpnExpand c)) =
      prog.map fun c => substVariable g (rpnExpand c) := by
    refine List.map_congr_left fun c hc => ?_
    by_cases hop : c.op = .variable
    · obtain ⟨h0, hlt⟩ := hprog c hc (.inl hop)
      have hptr : c.val.toNat < k := (Int.toNat_lt h0).mpr hlt
      have hexpand : rpnExpand c = ⟨.variable, .num 0, c.val.toNat⟩ := by simp only [rpnExpand, hop]
      rw [hexpand, substVariable, substVariable, if_pos rfl, if_pos rfl, hfg _ hptr]
    · have hne : (rpnExpand c).op ≠ .variable := by
        rw [rpnExpand]
        cases h : c.op <;> simp_all
      rw [substVariable, substVariable, if_neg hne, if_neg hne]
  have hstep : ∀ n s, rpnStep lib f k n s = rpnStep lib g k n s := by
    intro n s
    by_cases hk : k = 0
    · simp only [rpnStep, if_pos hk]
    · simp only [rpnStep, if_neg hk, hfg (k - 1) (by omega)]
  have hcalc : ∀ p s, rpnCalc lib f k p s = rpnCalc lib g k p s := by
    intro p
    induction p with
    | nil =>
      intro s
      rcases s with _ | ⟨a, _ | ⟨b, s⟩⟩
      · rfl
      · rfl
      · rfl
    | cons n p ih =>
      intro s
      simp only [rpnCalc, hstep, ih]
  rw [computeDs, computeDs, hsubst, hcalc]

/-- An index, cut down to a `short`, is still that of a data source in front of `k`. -/
def ShortBefore (k i : ℕ) : Prop := i % 2 ^ 16 < 2 ^ 15 ∧ (i = k → 2 ^ 16 ≤ k)

instance (k i : ℕ) : Decidable (ShortBefore k i) := inferInstanceAs (Decidable (_ ∧ _))

theorem shortBefore_iff {k i : ℕ} (hi : i ≤ k) :
    ShortBefore k i ↔ 0 ≤ (i : ℤ).bmod (2 ^ 16) ∧ (i : ℤ).bmod (2 ^ 16) < k := by
  have hcut : (i : ℤ).bmod (2 ^ 16) = if (i : ℤ) % 65536 < 32768 then (i : ℤ) % 65536 else (i : ℤ) % 65536 - 65536 := rfl
  rw [ShortBefore, hcut]
  split_ifs with hlow
  · omega
  · omega

/-- A node that `rpn_parse` has read, as it is stored. -/
theorem packed_backwards_iff {k : ℕ} {n : Rpnp} (hn : n.op = .variable ∨ n.op = .prevOther → n.ptr ≤ k) :
    n.packed.Backwards k ↔ (n.op = .variable ∨ n.op = .prevOther → ShortBefore k n.ptr) := by
  refine forall_congr' fun hop => ?_
  have hne : n.op ≠ .number := by
    rcases hop with hop | hop
    · rw [show n.op = .variable from hop]
      decide
    · rw [show n.op = .prevOther from hop]
      decide
  have hop' : n.op = .variable ∨ n.op = .prevOther := hop
  rw [shortBefore_iff (hn hop'), Rpnp.packed, if_neg hne, if_pos hop']

theorem rpnParse_ptr {lookup : Text → Option ℕ} {expr : Text} {nodes : List Rpnp} (h : rpnParse lookup expr = some nodes) :
    ∀ n ∈ nodes, n.op = .variable ∨ n.op = .prevOther → ∃ name, lookup name = some n.ptr := by
  rw [rpnParse] at h
  split_ifs at h
  exact rpnParseLoop_ptr h

/-! ## Created data sources -/

/-- The program of data source `k` looks back, if it has one. -/
def DsDef.Backwards (k : ℕ) (d : DsDef) : Prop := d.dst = .cdef → ∀ c ∈ d.cdef, c.Backwards k

/-- The text of the program in a `DS:` argument. -/
def computeText (arg : Text) : Option Text :=
  (CStr.scanSet 19 isNameChar arg).bind fun (_, r) => (CStr.scanChar ':' r).bind fun r =>
    (CStr.scanSet 19 CStr.isupper r).bind fun (type, r) => (CStr.scanChar ':' r).bind fun rest =>
      if dstConv type = some .cdef then some rest else none

/-- No name in the argument is that of a data source whose index, cut down to a `short`, is negative. -/
def ArgFits (ds : List DsDef) (arg : Text) : Prop :=
  ∀ nodes ∈ ((CStr.scanWord "DS:".toList arg).bind computeText).bind (rpnParse (lookupDs ds)), ∀ n ∈ nodes,
    n.op = .variable ∨ n.op = .prevOther → n.ptr % 2 ^ 16 < 2 ^ 15

instance (ds : List DsDef) (arg : Text) : Decidable (ArgFits ds arg) := inferInstanceAs (Decidable (∀ _ ∈ _, _))

/-- The arguments, one after the other. -/
def CreateArgsFit (hashedName : ℕ) : List Text → Defs → Prop
  | [], _ => True
  | arg :: args, d => ArgFits d.ds arg ∧ ∀ d', createArg hashedName arg d = .ok d' → CreateArgsFit hashedName args d'

variable {hashedName : ℕ} {args : List Text} {d d' : Defs}

theorem parseDsArg_backwards_iff {ds : List DsDef} {arg rest : Text} {def_ : DsDef}
    (hrest : CStr.scanWord "DS:".toList arg = some rest) (h : parseDsArg ds rest = .ok def_) :
    def_.Backwards ds.length ↔ ArgFits ds arg := by
  rw [ArgFits, hrest, Option.bind_some, computeText]
  simp only [parseDsArg] at h
  split at h
  · exact absurd h (by simp)
  rename_i name r hname
  rw [hname, Option.bind_some]
  split at h
  · exact absurd h (by simp)
  rename_i r' hcolon
  dsimp only
  rw [hcolon, Option.bind_some]
  split at h
  · exact absurd h (by simp)
  rename_i type text htype
  obtain ⟨⟨type', r''⟩, hset, hend⟩ := Option.bind_eq_some_iff.mp htype
  obtain ⟨text', htext, heq⟩ := Option.map_eq_some_iff.mp hend
  obtain ⟨rfl, rfl⟩ := Prod.mk.inj heq
  rw [hset, Option.bind_some]
  dsimp only at htext ⊢
  rw [htext, Option.bind_some]
  split_ifs at h
  split at h
  · exact absurd h (by simp)
  rename_i dst hdst
  obtain ⟨par, hpar, rfl⟩ := map_eq_ok.mp h
  rw [hdst]
  by_cases hc : dst = .cdef
  · subst hc
    rw [parseDsPar, if_pos rfl] at hpar
    rw [if_pos rfl, Option.bind_some]
    cases hprog : parseCdefDs (lookupDs ds) text' with
    | error e =>
      rw [hprog] at hpar
      cases hpar
    | ok prog =>
      rw [hprog] at hpar
      obtain rfl := Except.ok.inj hpar
      obtain ⟨nodes, hnodes, -, rfl⟩ := parseCdefDs_eq_ok.mp hprog
      rw [hnodes]
      simp only [Option.mem_some_iff, forall_eq']
      have hall : DsDef.Backwards ds.length ⟨name, .cdef, .cdef (nodes.map Rpnp.packed)⟩ ↔
          ∀ n ∈ nodes, n.packed.Backwards ds.length := by
        rw [DsDef.Backwards, DsDef.cdef]
        simp only [forall_const, List.forall_mem_map]
      rw [hall]
      refine forall₂_congr fun n hn => ?_
      have hlt : n.op = .variable ∨ n.op = .prevOther → n.ptr < ds.length := by
        intro hop
        obtain ⟨_, hname⟩ := rpnParse_ptr hnodes n hn hop
        exact lt_of_lookupDs hname
      rw [packed_backwards_iff fun hop => (hlt hop).le]
      refine forall_congr' fun hop => ?_
      rw [ShortBefore]
      exact and_iff_left fun heq => absurd heq (hlt hop).ne
  · have hnot : ¬ some dst = some Dst.cdef := fun heq => hc (Option.some.inj heq)
    rw [if_neg hnot]
    simp [DsDef.Backwards, hc]

/-- What has been defined stays. -/
theorem createArgs_ds (h : createArgs hashedName args d = .ok d') : d.ds <+: d'.ds := by
  induction args generalizing d with
  | nil =>
    obtain rfl := Except.ok.inj h
    exact List.prefix_refl _
  | cons arg args ih =>
    obtain ⟨d₁, h₁, h⟩ := bind_eq_ok.mp h
    rcases createArg_eq_ok h₁ with ⟨rest, def_, -, -, rfl⟩ | ⟨rest, s, rras, -, -, -, -, rfl⟩
    · exact (List.prefix_append _ _).trans (ih h)
    · have hrest := ih h
      exact hrest

/-- **The argument loop**: the data sources that it adds look back. -/
theorem createArgs_backwards_iff (h : createArgs hashedName args d = .ok d') :
    (∀ (k : ℕ) (x : DsDef), d.ds.length ≤ k → d'.ds[k]? = some x → x.Backwards k) ↔ CreateArgsFit hashedName args d := by
  induction args generalizing d with
  | nil =>
    obtain rfl := Except.ok.inj h
    refine iff_of_true (fun k x hk hx => ?_) trivial
    rw [List.getElem?_eq_none hk] at hx
    cases hx
  | cons arg args ih =>
    obtain ⟨d₁, h₁, h⟩ := bind_eq_ok.mp h
    have hnext : (∀ d₂, createArg hashedName arg d = .ok d₂ → CreateArgsFit hashedName args d₂) ↔
        CreateArgsFit hashedName args d₁ := by
      rw [h₁]
      simp only [Except.ok.injEq, forall_eq']
    rw [CreateArgsFit, hnext, ← ih h]
    rcases createArg_eq_ok h₁ with ⟨rest, def_, hword, hdef, rfl⟩ | ⟨rest, s, rras, hword, -, -, -, rfl⟩
    · have hself : d'.ds[d.ds.length]? = some def_ := by
        obtain ⟨t, ht⟩ := createArgs_ds h
        rw [← ht]
        simp
      rw [← parseDsArg_backwards_iff hword hdef, List.length_append, List.length_singleton]
      constructor
      · intro hall
        exact ⟨hall _ _ le_rfl hself, fun k x hk hx => hall k x (by omega) hx⟩
      · rintro ⟨hfirst, hall⟩ k x hk hx
        rcases eq_or_lt_of_le hk with rfl | hlt
        · rw [hself] at hx
          rw [← Option.some.inj hx]
          exact hfirst
        · exact hall k x hlt hx
    · refine (and_iff_right ?_).symm
      rw [ArgFits, hword]
      simp

namespace Restore

open Parse

/-! ## Restored data sources -/

/-- A node of a program, as it is in memory. -/
inductive Cell : Type where
  /-- `OP_END` -/
  | opEnd
  /-- any other code, with the operator if it is that of one -/
  | node (op : Option Op) (val : ℤ)
  deriving DecidableEq

/-- How the machine lays out a number: each half of it, as a node. -/
structure Layout : Type where
  /-- an `unsigned long` -/
  cnt : ℕ → Bool → Cell
  /-- a `double` -/
  val : RrdValue → Bool → Cell

/-- The node in place `i` that a store leaves behind, if it reaches that place. -/
def ParStore.cell (l : Layout) (i : ℕ) : ParStore → Option Cell
  | .mrhb n => if i = 0 then some (l.cnt n false) else if i = 1 then some (l.cnt n true) else none
  | .min v => if i = 2 then some (l.val v false) else if i = 3 then some (l.val v true) else none
  | .max v => if i = 4 then some (l.val v false) else if i = 5 then some (l.val v true) else none
  | .cdef _ _ prog => if i = prog.length then some .opEnd else prog[i]?.map fun c => .node (some c.op) c.val

/-- The node in place `i` of `par`, which has been cleared. -/
def cell (l : Layout) (par : List ParStore) (i : ℕ) : Cell :=
  (par.findSome? (ParStore.cell l i)).getD (.node (some .number) 0)

/-- A node in memory names a data source in front of `k`, if any. -/
def Cell.Backwards (k : ℕ) : Cell → Prop
  | .opEnd => True
  | .node op val => op = some .variable ∨ op = some .prevOther → 0 ≤ val ∧ val < k

instance (k : ℕ) (c : Cell) : Decidable (c.Backwards k) :=
  match c with
  | .opEnd => inferInstanceAs (Decidable True)
  | .node _ _ => inferInstanceAs (Decidable (_ ∨ _ → _ ∧ _))

/-- `OP_END` is not among the first `i` nodes. -/
def Reached (l : Layout) (par : List ParStore) (i : ℕ) : Prop := ∀ j < i, cell l par j ≠ .opEnd

instance (l : Layout) (par : List ParStore) (i : ℕ) : Decidable (Reached l par i) :=
  inferInstanceAs (Decidable (∀ j < i, _))

/-- The program of data source `k` looks back, if it has one: its nodes are those in front of `OP_END`. -/
def DsEntry.Backwards (l : Layout) (k : ℕ) (d : DsEntry) : Prop :=
  dstConv d.dst = some .cdef → ∀ i < dsCdefMaxRpnNodes, Reached l d.par i → (cell l d.par i).Backwards k

/-- **All programs look back.** -/
def RestoredRrd.Backwards (l : Layout) (rrd : RestoredRrd) : Prop :=
  ∀ (k : ℕ) (d : DsEntry), rrd.ds[k]? = some d → d.Backwards l k

/-- What is stored into place `i` of `par` of data source `k`, behind those called `names`, can stay there: a name in a
program is not that of the data source itself, nor of one whose index becomes negative, and the half of a number is no
node that does not look back. -/
def ParStore.Fits (l : Layout) (names : List Text) (i : ℕ) : ParStore → Prop
  | .cdef name expr _ =>
    ∀ nodes ∈ rpnParse (lookupName (names ++ [name])) expr, ∀ n ∈ nodes[i]?,
      n.op = .variable ∨ n.op = .prevOther → ShortBefore names.length n.ptr
  | s => ∀ c ∈ s.cell l i, c.Backwards names.length

instance (l : Layout) (names : List Text) (i : ℕ) (s : ParStore) : Decidable (s.Fits l names i) :=
  match s with
  | .mrhb _ => inferInstanceAs (Decidable (∀ _ ∈ _, _))
  | .min _ => inferInstanceAs (Decidable (∀ _ ∈ _, _))
  | .max _ => inferInstanceAs (Decidable (∀ _ ∈ _, _))
  | .cdef _ _ _ => inferInstanceAs (Decidable (∀ _ ∈ _, ∀ _ ∈ _, _))

/-- **The stores fit**: in front of `OP_END`, what has been stored last. -/
def DsEntry.Fits (l : Layout) (names : List Text) (d : DsEntry) : Prop :=
  dstConv d.dst = some .cdef → ∀ i < dsCdefMaxRpnNodes, Reached l d.par i →
    ∀ s ∈ d.par.find? fun s => (s.cell l i).isSome, s.Fits l names i

/-- The same for all data sources. -/
def RestoredRrd.Fits (l : Layout) (rrd : RestoredRrd) : Prop :=
  ∀ (k : ℕ) (d : DsEntry), rrd.ds[k]? = some d → d.Fits l ((rrd.ds.take k).map DsEntry.name)

/-! ## What the parser stores -/

/-- The programs in `par` are those of their texts. -/
def DsEntry.Parsed (names : List Text) (d : DsEntry) : Prop :=
  ∀ name expr prog, .cdef name expr prog ∈ d.par → parseCdefDs (lookupName (names ++ [name])) expr = .ok prog

variable {names : List Text} {element : Text} {d d' : DsEntry} {r r' : Reader} {rrd rrd' : RestoredRrd}

/-- **One tag.** -/
theorem parsed_field (hd : d.Parsed names) (h : parseTagDsField names element d r = (some d', r')) : d'.Parsed names := by
  -- a number is no program
  have hother (s : ParStore) (hs : ∀ name expr prog, s ≠ .cdef name expr prog) :
      DsEntry.Parsed names { d with par := s :: d.par } := by
    intro name expr prog hmem
    rcases List.mem_cons.mp hmem with heq | hmem
    · exact absurd heq.symm (hs _ _ _)
    · exact hd _ _ _ hmem
  rw [parseTagDsField] at h
  split_ifs at h
  · obtain ⟨_, -, rfl⟩ := map_eq_some.mp h
    exact hd
  · obtain ⟨dst, r₁, -, h⟩ := bind_eq_some.mp h
    cases hdst : dstConv dst with
    | none =>
      rw [hdst] at h
      cases h
    | some _ =>
      rw [hdst] at h
      obtain ⟨rfl, -⟩ := ret_eq_some.mp h
      exact hd
  · obtain ⟨n, r₁, -, h⟩ := bind_eq_some.mp h
    obtain ⟨_, -, rfl⟩ := map_eq_some.mp h
    exact hother _ fun _ _ _ heq => by cases heq
  · obtain ⟨v, r₁, -, h⟩ := bind_eq_some.mp h
    obtain ⟨_, -, rfl⟩ := map_eq_some.mp h
    exact hother _ fun _ _ _ heq => by cases heq
  · obtain ⟨v, r₁, -, h⟩ := bind_eq_some.mp h
    obtain ⟨_, -, rfl⟩ := map_eq_some.mp h
    exact hother _ fun _ _ _ heq => by cases heq
  · obtain ⟨expr, r₁, -, h⟩ := bind_eq_some.mp h
    cases hprog : parseCdefDs (lookupName (names ++ [d.name])) expr with
    | error e =>
      rw [hprog] at h
      cases h
    | ok prog =>
      rw [hprog] at h
      obtain ⟨_, r₂, -, h⟩ := bind_eq_some.mp h
      split_ifs at h
      · obtain ⟨heq, -⟩ := Prod.mk.inj h
        rw [← Option.some.inj heq]
        intro name' expr' prog' hmem
        rcases List.mem_cons.mp hmem with heq | hmem
        · obtain ⟨rfl, rfl, rfl⟩ := ParStore.cdef.inj heq
          exact hprog
        · exact hd _ _ _ hmem
      · cases h
  · obtain ⟨_, -, rfl⟩ := map_eq_some.mp h
    exact hd
  · obtain ⟨_, -, rfl⟩ := map_eq_some.mp h
    exact hd
  · obtain ⟨_, -, rfl⟩ := map_eq_some.mp h
    exact hd
  · cases h

/-- All programs of a document are those of their texts. -/
def RestoredRrd.Parsed (rrd : RestoredRrd) : Prop :=
  ∀ (k : ℕ) (d : DsEntry), rrd.ds[k]? = some d → d.Parsed ((rrd.ds.take k).map DsEntry.name)

/-- **A data source.** -/
theorem parsed_ds (hrrd : rrd.Parsed) (h : parseTagDs rrd r = (some rrd', r')) : rrd'.Parsed := by
  rw [parseTagDs] at h
  split_ifs at h
  · cases h
  obtain ⟨d, hd, rfl⟩ := map_eq_some.mp h
  have hparsed : d.Parsed (rrd.ds.map DsEntry.name) := by
    refine loop_invariant (DsEntry.Parsed (rrd.ds.map DsEntry.name)) (DsEntry.Parsed (rrd.ds.map DsEntry.name)) ?_ ?_ (fun _ _ _ hmem => by cases hmem) hd
    · intro a a' s t ha hret
      obtain ⟨rfl, -⟩ := ret_eq_some.mp hret
      exact ha
    · intro element a p s t ha hpass
      split_ifs at hpass
      · obtain ⟨rfl, -⟩ := ret_eq_some.mp hpass
        exact ha
      · obtain ⟨a', r₁, ha', rfl⟩ := closing_eq_some hpass
        exact parsed_field ha ha'
  intro k x hk
  rcases Nat.lt_trichotomy k rrd.ds.length with hlt | rfl | hgt
  · rw [List.getElem?_append_left hlt] at hk
    rw [List.take_append_of_le_length hlt.le]
    exact hrrd k x hk
  · rw [List.getElem?_concat_length] at hk
    rw [← Option.some.inj hk, List.take_left]
    exact hparsed
  · rw [List.getElem?_eq_none (by rw [List.length_append, List.length_singleton]; omega)] at hk
    cases hk

/-- A round robin archive leaves the data sources alone. -/
theorem parseTagRra_ds {random : ℕ} (h : parseTagRra random rrd r = (some rrd', r')) : rrd'.ds = rrd.ds := by
  obtain ⟨_, r₁, -, h⟩ := bind_eq_some.mp h
  obtain ⟨_, -, rfl⟩ := map_eq_some.mp h
  rfl

/-- **The document.** -/
theorem parsed_restore {random : ℕ} {doc : List XmlNode} (h : (rrdRestore random doc).1 = some rrd) : rrd.Parsed := by
  obtain ⟨rrd₁, hfile, rfl⟩ := map_eq_some.mp (Prod.ext h rfl : rrdRestore random doc = (some rrd, (rrdRestore random doc).2))
  obtain ⟨_, r₁, -, htags⟩ := bind_eq_some.mp hfile
  have hparsed : rrd₁.Parsed := by
    refine loop_invariant RestoredRrd.Parsed RestoredRrd.Parsed ?_ ?_ (fun k d hk => by cases hk) htags
    · intro a a' s t ha hret
      obtain ⟨rfl, -⟩ := ret_eq_some.mp hret
      exact ha
    · intro element a p s t ha hpass
      rw [parseTagRrdPass] at hpass
      split_ifs at hpass
      · obtain ⟨a', r₁, ha', rfl⟩ := closing_eq_some hpass
        obtain ⟨_, -, rfl⟩ := map_eq_some.mp ha'
        exact ha
      · obtain ⟨a', r₁, ha', rfl⟩ := closing_eq_some hpass
        obtain ⟨_, -, rfl⟩ := map_eq_some.mp ha'
        exact ha
      · obtain ⟨a', r₁, ha', rfl⟩ := closing_eq_some hpass
        obtain ⟨_, -, rfl⟩ := map_eq_some.mp ha'
        exact ha
      · obtain ⟨a', ha', rfl⟩ := map_eq_some.mp hpass
        exact parsed_ds ha ha'
      · obtain ⟨a', ha', rfl⟩ := map_eq_some.mp hpass
        change RestoredRrd.Parsed a'
        rw [RestoredRrd.Parsed, parseTagRra_ds ha']
        exact ha
      · obtain ⟨rfl, -⟩ := ret_eq_some.mp hpass
        exact ha
      · cases hpass
  rw [writeFile]
  split_ifs
  · exact hparsed
  · exact hparsed

/-! ## When the programs look back -/

theorem find_cell (l : Layout) (par : List ParStore) (i : ℕ) :
    cell l par i = (((par.find? fun s => (s.cell l i).isSome).bind (ParStore.cell l i)).getD (.node (some .number) 0)) := by
  rw [cell]
  congr 1
  induction par with
  | nil => rfl
  | cons s par ih =>
    rw [List.findSome?_cons, List.find?_cons]
    cases hs : s.cell l i with
    | none => exact ih
    | some c =>
      simp only [Option.isSome_some, Option.bind_some]
      exact hs.symm

/-- **One place of `par`.** -/
theorem cell_backwards_iff (l : Layout) (hd : d.Parsed names) (i : ℕ) :
    (cell l d.par i).Backwards names.length ↔
      ∀ s ∈ d.par.find? fun s => (s.cell l i).isSome, s.Fits l names i := by
  rw [find_cell]
  cases hfind : d.par.find? fun s => (s.cell l i).isSome with
  | none => exact iff_of_true (fun hop => by simp at hop) fun s hs => by cases hs
  | some s =>
    have hsome := List.find?_some hfind
    obtain ⟨c, hc⟩ := Option.isSome_iff_exists.mp hsome
    have hmem : s ∈ d.par := List.mem_of_find?_eq_some hfind
    rw [Option.bind_some, hc, Option.getD_some]
    simp only [Option.mem_some_iff, forall_eq']
    cases s with
    | mrhb n => simp only [ParStore.Fits, hc, Option.mem_some_iff, forall_eq']
    | min v => simp only [ParStore.Fits, hc, Option.mem_some_iff, forall_eq']
    | max v => simp only [ParStore.Fits, hc, Option.mem_some_iff, forall_eq']
    | cdef name expr prog =>
      obtain ⟨nodes, hnodes, -, rfl⟩ := parseCdefDs_eq_ok.mp (hd _ _ _ hmem)
      rw [ParStore.Fits, hnodes]
      simp only [Option.mem_some_iff, forall_eq']
      rw [ParStore.cell, List.length_map] at hc
      split_ifs at hc with hend
      · rw [← Option.some.inj hc, hend, List.getElem?_length]
        exact iff_of_true trivial fun n hn => by cases hn
      · rw [List.getElem?_map] at hc
        cases hn : nodes[i]? with
        | none =>
          rw [hn] at hc
          cases hc
        | some n =>
          rw [hn] at hc
          rw [← Option.some.inj hc]
          simp only [Option.mem_some_iff, forall_eq', Cell.Backwards, Option.some.injEq]
          refine packed_backwards_iff fun hop => ?_
          obtain ⟨name', hname⟩ := rpnParse_ptr hnodes n (List.mem_of_getElem? hn) hop
          obtain ⟨hlt, -⟩ := List.findIdx?_eq_some_iff_getElem.mp hname
          rw [List.length_append, List.length_singleton] at hlt
          exact Nat.le_of_lt_succ hlt

/-- **Restored programs.** -/
theorem restored_backwards_iff (l : Layout) {random : ℕ} {doc : List XmlNode} (h : (rrdRestore random doc).1 = some rrd) :
    rrd.Backwards l ↔ rrd.Fits l := by
  have hparsed := parsed_restore h
  refine forall₃_congr fun k d hk => forall_congr' fun _ => forall₂_congr fun i _ => forall_congr' fun _ => ?_
  have hlen : ((rrd.ds.take k).map DsEntry.name).length = k := by
    obtain ⟨hlt, -⟩ := List.getElem?_eq_some_iff.mp hk
    rw [List.length_map, List.length_take, Nat.min_eq_left hlt.le]
  have hcell := cell_backwards_iff l (hparsed k d hk) i
  rw [hlen] at hcell
  exact hcell

end Restore

/-- **Programs look back** in all that `rrd_create_r` and `rrd_restore` produce, as far as these conditions hold. -/
theorem backwards_iff (hashedName pdpStep : ℕ) (args : List Text) (l : Restore.Layout) (random : ℕ)
    (doc : List Restore.XmlNode) :
    (∀ d, rrdCreateR hashedName pdpStep args = .ok d →
      ((∀ (k : ℕ) (x : DsDef), d.ds[k]? = some x → x.Backwards k) ↔ CreateArgsFit hashedName args ⟨3, [], [], 0⟩)) ∧
    ∀ rrd, (Restore.rrdRestore random doc).1 = some rrd → (rrd.Backwards l ↔ rrd.Fits l) := by
  refine ⟨fun d h => ?_, fun rrd h => Restore.restored_backwards_iff l h⟩
  obtain ⟨d₁, hargs, h⟩ := bind_eq_ok.mp h
  split_ifs at h
  obtain rfl := Except.ok.inj h
  rw [← createArgs_backwards_iff hargs]
  simp only [List.length_nil, Nat.zero_le, forall_const]

/-! ## A data source under its own name -/

instance decidableCreateArgsFit (hashedName : ℕ) :
    (args : List Text) → (d : Defs) → Decidable (CreateArgsFit hashedName args d)
  | [], _ => inferInstanceAs (Decidable True)
  | arg :: args, d =>
    match h : createArg hashedName arg d with
    | .ok d' =>
      have := decidableCreateArgsFit hashedName args d'
      decidable_of_iff (ArgFits d.ds arg ∧ CreateArgsFit hashedName args d') (by simp [CreateArgsFit, h])
    | .error _ => decidable_of_iff (ArgFits d.ds arg) (by simp [CreateArgsFit, h])

namespace Restore

/-- A `GAUGE` called `a` and a `COMPUTE` called `b`, with a text for its program. -/
def computeDoc (expr : String) : List XmlNode :=
  block "rrd" (leaf "version" "0003" ++ leaf "step" "300" ++ leaf "lastupdate" "900" ++
    block "ds" (leaf "name" " a " ++ leaf "type" " GAUGE " ++ leaf "minimal_heartbeat" "600" ++ leaf "min" "NaN" ++
      leaf "max" "NaN" ++ leaf "last_ds" "U" ++ leaf "value" "0.0" ++ leaf "unknown_sec" " 0 ") ++
    block "ds" (leaf "name" " b " ++ leaf "type" " COMPUTE " ++ leaf "cdef" expr ++ leaf "last_ds" "U" ++
      leaf "value" "0.0" ++ leaf "unknown_sec" " 0 ") ++
    block "rra" (leaf "cf" "AVERAGE" ++ leaf "pdp_per_row" "1" ++ block "params" (leaf "xff" "0.5") ++
      block "cdp_prep" (block "ds" (leaf "value" "NaN" ++ leaf "unknown_datapoints" "0") ++
        block "ds" (leaf "value" "NaN" ++ leaf "unknown_datapoints" "0")) ++
      block "database" (block "row" (leaf "v" "NaN" ++ leaf "v" "NaN"))))

/-- The name of the `COMPUTE`. -/
def computeName : Text := ['b']

/-- What is restored from it. -/
def computeRestored (expr : String) (prog : List RpnCdefds) : RestoredRrd where
  version := "0003".toList
  pdpStep := 300
  lastUp := 900
  ds := [⟨['a'], "GAUGE".toList, [.max dnan, .min dnan, .mrhb 600], ['U'], .num 0, 0⟩,
    ⟨computeName, "COMPUTE".toList, [.cdef computeName expr.toList prog], ['U'], .num 0, 0⟩]
  rras := [⟨"AVERAGE".toList, 1, 1, .num (1 / 2), .num 0, .num 0, 0, 0, 0, 0⟩]

/-- A machine on which a number is no operator. -/
def plainLayout : Layout := ⟨fun _ _ => .node none 0, fun _ _ => .node none 0⟩

theorem computeDoc_restored : (rrdRestore 0 (computeDoc "a,2,*")).1 =
    some (computeRestored "a,2,*" [⟨.variable, 0⟩, ⟨.number, 2⟩, ⟨.mul, 0⟩]) := by
  decide +kernel

theorem computeDoc_restored_self : (rrdRestore 0 (computeDoc "b,2,*")).1 =
    some (computeRestored "b,2,*" [⟨.variable, 1⟩, ⟨.number, 2⟩, ⟨.mul, 0⟩]) := by
  decide +kernel

end Restore

open Restore (computeDoc computeRestored computeDoc_restored computeDoc_restored_self plainLayout)

/-- A `COMPUTE` that names a `GAUGE` in front of it. -/
theorem backwards_compute :
    (∀ (k : ℕ) (x : DsDef), computeDefs.ds[k]? = some x → x.Backwards k) ∧
      (computeRestored "a,2,*" [⟨.variable, 0⟩, ⟨.number, 2⟩, ⟨.mul, 0⟩]).Backwards plainLayout := by
  obtain ⟨hcreate, hrestore⟩ := backwards_iff 0 300 computeArgs plainLayout 0 (computeDoc "a,2,*")
  refine ⟨(hcreate computeDefs computeDefs_created).mpr (by decide +kernel),
    (hrestore _ computeDoc_restored).mpr fun k d hk => ?_⟩
  obtain hk0 | hk1 | hk2 : k = 0 ∨ k = 1 ∨ 2 ≤ k := by omega
  · subst hk0
    obtain rfl := Option.some.inj hk
    exact fun hdst => absurd hdst (by decide)
  · subst hk1
    obtain rfl := Option.some.inj hk
    intro _
    decide +kernel
  · rw [List.getElem?_eq_none (by exact hk2)] at hk
    cases hk

/-- A restored `COMPUTE` that names itself. -/
theorem restored_self : ¬ ((∀ (hashedName pdpStep : ℕ) (args : List Text) (d : Defs),
      rrdCreateR hashedName pdpStep args = .ok d → ∀ (k : ℕ) (x : DsDef), d.ds[k]? = some x → x.Backwards k) ∧
    ∀ (l : Restore.Layout) (random : ℕ) (doc : List Restore.XmlNode) (rrd : Restore.RestoredRrd),
      (Restore.rrdRestore random doc).1 = some rrd → rrd.Backwards l) := by
  rintro ⟨-, h⟩
  have hback := h plainLayout 0 (computeDoc "b,2,*") _ computeDoc_restored_self 1 _ rfl (by decide) 0 (by decide) (by decide)
  exact absurd hback (by decide +kernel)

end Rrdtool
