import Rrdtool.Create
import Rrdtool.Usable

/-!
# Created files

What `rrd_create_r` enforces of its data sources, and the file that `rrd_create_fn` writes from
definitions that have passed. The names are distinct and not empty, a minimum is below its
maximum, and a `COMPUTE` program names data sources in front of its own, as far as their indices
fit into the `short` they are stored in.
-/

namespace Rrdtool

open Loop

/-! ## Data sources -/

/-- The `par` array fits the type of data source `k`. -/
def DsDef.ParOk (k : ℕ) (d : DsDef) : Prop :=
  match d.par with
  | .generic _ lo hi => d.dst ≠ .cdef ∧ (lo.isnan = false → hi.isnan = false → lo.lt hi = true)
  | .cdef prog => d.dst = .cdef ∧ CdefOk k prog

/-- What `rrd_create_r` enforces of data sources. -/
structure DsOk (ds : List DsDef) : Prop where
  distinct : (ds.map DsDef.dsNam).Nodup
  named : ∀ d ∈ ds, d.dsNam ≠ []
  par : ∀ (k : ℕ) (d : DsDef), ds[k]? = some d → d.ParOk k

theorem dsOk_nil : DsOk [] := ⟨by simp, by simp, by simp⟩

theorem lt_of_lookupDs {ds : List DsDef} {name : Text} {i : ℕ} (h : lookupDs ds name = some i) :
    i < ds.length := (List.findIdx?_eq_some_iff_getElem.mp h).1

theorem parseGenericDs_ok {rest : Text} {par : DsPar} (h : parseGenericDs rest = .ok par) :
    ∃ mrhb lo hi, par = .generic mrhb lo hi ∧
      (lo.isnan = false → hi.isnan = false → lo.lt hi = true) := by
  simp only [parseGenericDs] at h
  split at h
  · exact absurd h (by simp)
  · rename_i mrhb lo hi hf
    split_ifs at h with hle
    obtain rfl := Except.ok.inj h
    refine ⟨mrhb, lo, hi, rfl, fun hlo hhi => ?_⟩
    simp only [hlo, hhi, Bool.not_false, Bool.and_self, Bool.true_and] at hle
    cases lo <;> cases hi <;> simp_all [Dbl.lt, Dbl.le]

/-- **A `DS` argument** that is accepted keeps what is enforced. -/
theorem DsOk.snoc {ds : List DsDef} {arg : Text} {d : DsDef} (hds : DsOk ds)
    (h : parseDsArg ds arg = .ok d) : DsOk (ds ++ [d]) := by
  simp only [parseDsArg] at h
  split at h
  · exact absurd h (by simp)
  rename_i name r hname
  split at h
  · exact absurd h (by simp)
  split at h
  · exact absurd h (by simp)
  rename_i type rest htype
  split_ifs at h with hdup
  split at h
  · exact absurd h (by simp)
  rename_i dst hdst
  obtain ⟨par, hpar, rfl⟩ := map_eq_ok.mp h
  have hne : name ≠ [] := by
    simp only [CStr.scanSet] at hname
    split_ifs at hname with hnil
    obtain ⟨rfl, -⟩ := Prod.mk.inj (Option.some.inj hname)
    exact hnil
  have hnew : (⟨name, dst, par⟩ : DsDef).ParOk ds.length := by
    simp only [parseDsPar] at hpar
    split_ifs at hpar with hc
    · cases hp : parseCdefDs (lookupDs ds) rest with
      | error e => simp [hp] at hpar
      | ok prog =>
        simp only [hp] at hpar
        obtain rfl := Except.ok.inj hpar
        exact ⟨hc, parseCdefDs_ok (fun _ _ => lt_of_lookupDs) hp⟩
    · obtain ⟨mrhb, lo, hi, rfl, hlt⟩ := parseGenericDs_ok hpar
      exact ⟨hc, hlt⟩
  refine ⟨?_, ?_, fun k d' hk => ?_⟩
  · rw [List.map_append, List.nodup_append]
    refine ⟨hds.distinct, by simp, fun a ha b hb hab => hdup ?_⟩
    obtain ⟨d', hd', rfl⟩ := List.mem_map.mp ha
    obtain rfl : b = name := by simpa using hb
    exact List.any_eq_true.mpr ⟨d', hd', by simpa using hab⟩
  · intro d' hd'
    rcases List.mem_append.mp hd' with hd' | hd'
    · exact hds.named d' hd'
    · obtain rfl := List.mem_singleton.mp hd'
      exact hne
  · rcases Nat.lt_trichotomy k ds.length with hlt | rfl | hgt
    · rw [List.getElem?_append_left hlt] at hk
      exact hds.par k d' hk
    · obtain rfl : _ = d' := by simpa using hk
      exact hnew
    · rw [List.getElem?_eq_none (by simp; omega)] at hk
      exact absurd hk (by simp)

/-- **The argument loop** keeps what is enforced of data sources. -/
theorem createArgs_dsOk {hashedName : ℕ} {args : List Text} {d d' : Defs} (hd : DsOk d.ds)
    (h : createArgs hashedName args d = .ok d') : DsOk d'.ds := by
  induction args generalizing d with
  | nil =>
    obtain rfl := Except.ok.inj h
    exact hd
  | cons arg args ih =>
    obtain ⟨d₁, h₁, h⟩ := bind_eq_ok.mp h
    refine ih ?_ h
    rcases createArg_eq_ok h₁ with ⟨rest, def_, -, hdef, rfl⟩ | ⟨rest, s, rras, -, -, -, -, rfl⟩
    · exact hd.snoc hdef
    · exact hd

/-! ## Files -/

/-- Definitions that `rrd_create_r` accepts. -/
structure Defs.Accepted (d : Defs) : Prop where
  ds_ne : d.ds ≠ []
  rras_ne : d.rras ≠ []
  ds : DsOk d.ds
  rras : ∀ r ∈ d.rras, r.Checked

theorem accepted_of_rrdCreateR {hashedName pdpStep : ℕ} {args : List Text} {d : Defs}
    (h : rrdCreateR hashedName pdpStep args = .ok d) : d.Accepted ∧ 0 < pdpStep := by
  obtain ⟨d', hd', h⟩ := bind_eq_ok.mp h
  split_ifs at h with hr hds hdiv
  obtain rfl := Except.ok.inj h
  have hone : StepOk 1 := ⟨by decide, by decide⟩
  obtain ⟨new, hnew, hchk, -, -⟩ := createArgs_fit_iff hone hd'
  refine ⟨⟨hds, hr, createArgs_dsOk dsOk_nil hd', ?_⟩, ?_⟩
  · rw [hnew]
    exact hchk
  · exact Nat.pos_of_ne_zero fun h0 => hdiv (by simp [divisors, h0])

/-- What stands in a table behind its last entry. -/
def DsDef.none : DsDef := ⟨[], .gauge, .generic 0 dnan dnan⟩

theorem Defs.Accepted.checked {d : Defs} (hd : d.Accepted) (r : RraDef) {i : ℕ}
    (hi : i < d.rras.length) : (d.rras.getD i r).Checked := by
  have hget : d.rras.getD i r = d.rras[i] := by simp [hi]
  rw [hget]
  exact hd.rras _ (List.getElem_mem hi)

/-- The definitions as `rrd_create_fn` gets them. -/
def Defs.toArgs (d : Defs) (pdpStep lastUp : ℕ) (hd : d.Accepted) (hstep : 0 < pdpStep) :
    CreateArgs where
  version := d.version
  pdpStep := pdpStep
  lastUp := lastUp
  dsCnt := d.ds.length
  rraCnt := d.rras.length
  dsDef := fun i => d.ds.getD i .none
  rraDef := fun i => d.rras.getD i (rraDefault 0 .average)
  pdpStep_pos := hstep
  dsCnt_pos := List.length_pos_of_ne_nil hd.ds_ne
  rraCnt_pos := List.length_pos_of_ne_nil hd.rras_ne
  rowCnt_pos := fun _ hi => (hd.checked _ hi).rowCnt_pos
  rowCnt_lt := fun _ hi => (hd.checked _ hi).rowCnt_lt
  pdpCnt_pos := fun _ hi => (hd.checked _ hi).pdpCnt_pos
  pdpCnt_one := fun _ hi => (hd.checked _ hi).pdpCnt_one

/-- **A file that `rrd_create_r` has created.** -/
def Created (r : Rrd) : Prop :=
  ∃ hashedName pdpStep lastUp args random d, ∃ h : rrdCreateR hashedName pdpStep args = .ok d,
    r = rrdCreateFn (d.toArgs pdpStep lastUp (accepted_of_rrdCreateR h).1
      (accepted_of_rrdCreateR h).2) random

/-- The data sources of a file. -/
def Rrd.dsList (r : Rrd) : List DsDef := (List.range r.dsCnt).map r.dsDef

theorem Rrd.dsList_get {r : Rrd} {k : ℕ} (hk : k < r.dsCnt) : r.dsList[k]? = some (r.dsDef k) := by
  simp [Rrd.dsList, hk]

/-- What is checked of the archives of a created file. -/
theorem Created.checked {r : Rrd} (h : Created r) {i : ℕ} (hi : i < r.rraCnt) :
    (r.rraDef i).Checked := by
  obtain ⟨_, pdpStep, lastUp, _, random, d, hd, rfl⟩ := h
  exact (accepted_of_rrdCreateR hd).1.checked _ hi

/-- What is enforced of the data sources of a created file. -/
theorem Created.dsOk {r : Rrd} (h : Created r) : DsOk r.dsList := by
  obtain ⟨_, pdpStep, lastUp, _, random, d, hd, rfl⟩ := h
  obtain ⟨hacc, hstep⟩ := accepted_of_rrdCreateR hd
  have hlist : (rrdCreateFn (d.toArgs pdpStep lastUp hacc hstep) random).dsList = d.ds := by
    refine List.ext_getElem (by simp [Rrd.dsList, rrdCreateFn, Defs.toArgs]) fun k hk hk' => ?_
    simp [Rrd.dsList, rrdCreateFn, Defs.toArgs, hk']
  rw [hlist]
  exact hacc.ds

/-- A `GAUGE` and twice its value. -/
def computeArgs : List Text :=
  ["DS:a:GAUGE:600:U:U".toList, "DS:b:COMPUTE:a,2,*".toList, "RRA:AVERAGE:0.5:1:3".toList]

/-- What `rrd_create_r` makes of them. -/
def computeDefs : Defs where
  version := 3
  ds := [⟨['a'], .gauge, .generic 600 dnan dnan⟩,
    ⟨['b'], .cdef, .cdef [⟨.variable, 0⟩, ⟨.number, 2⟩, ⟨.mul, 0⟩]⟩]
  rras := [⟨.average, 3, 1, .num (1 / 2), .num 0, .num 0, 0, 0, 0⟩]
  period := 0

theorem computeDefs_created : rrdCreateR 0 300 computeArgs = .ok computeDefs := by decide +kernel

theorem computeDefs_accepted : computeDefs.Accepted :=
  (accepted_of_rrdCreateR computeDefs_created).1

theorem computeDefs_step : 0 < 300 := (accepted_of_rrdCreateR computeDefs_created).2

/-- The new file. -/
def newCompute : Rrd :=
  rrdCreateFn (computeDefs.toArgs 300 900 computeDefs_accepted computeDefs_step) fun _ => 0

theorem newCompute_created : Created newCompute :=
  ⟨0, 300, 900, computeArgs, fun _ => 0, computeDefs, computeDefs_created, rfl⟩

end Rrdtool
