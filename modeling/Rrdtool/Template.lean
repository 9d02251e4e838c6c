import Rrdtool.NoMmap

/-!
# Updates by template

`parse_template` turns the names of a template into the slots of `updvals` that the values go to.
Slot 0 is the time, and the `COMPUTE` DSs have slots that nothing is read into. What comes behind
`parse_ds` only looks at the slots, so a template is nothing but another order of the values.

* `parseDsWith_reorder` — both arguments fill the slots alike;
* `template_eq_reordered` — and both calls do the same.
-/

namespace Rrdtool

open Loop

/-! ## Two ways to write an update -/

/-- **A template** that names the DSs `dss`, no two of them the same and none of them computed. -/
structure Template (r : Rrd) (tmplt : Text) (dss : List ℕ) : Prop where
  names : (CStr.splitOn ':' tmplt).map (lookupDs r.dsList) = dss.map some
  nodup : dss.Nodup
  notCompute : ∀ i ∈ dss, ((r.dsDef i).dst ≠ .cdef)

/-- The argument has a value for each of the DSs. -/
def ValuesFor (dss : List ℕ) (arg : Text) : Prop :=
  ∃ at_ time rest, cutTime arg = some (at_, time, rest) ∧
    (CStr.splitOn ':' rest).length = dss.length

/-- The DSs that take a value, in the order of their definitions. -/
def inputDss (r : Rrd) : List ℕ := (List.range r.dsCnt).filter (fun i => (r.dsDef i).dst ≠ .cdef)

/-- The value of `values`, given for the DSs `dss`, that is meant for DS `i`. -/
def valueFor (dss : List ℕ) (values : List Text) (i : ℕ) : Text :=
  ((dss.zip values).lookup i).getD ['U']

/-- An update argument. -/
def updateArg (at_ : Bool) (time : Text) (values : List Text) : Text :=
  time ++ (if at_ then '@' else ':') :: [':'].intercalate values

/-- **The argument for a call without a template**: the same time, and the values in the order of
the definitions. -/
def reorder (r : Rrd) (dss : List ℕ) (arg : Text) : Text :=
  match cutTime arg with
  | none => arg
  | some (at_, time, rest) =>
    updateArg at_ time ((inputDss r).map (valueFor dss (CStr.splitOn ':' rest)))

variable {env : Env} {r : Rrd} {s t : Upd} {dss : List ℕ} {tmplt arg : Text}

theorem mem_inputDss {i : ℕ} : i ∈ inputDss r ↔ i < r.dsCnt ∧ (r.dsDef i).dst ≠ .cdef := by
  simp [inputDss]

theorem inputDss_nodup (r : Rrd) : (inputDss r).Nodup := List.nodup_range.filter _

theorem tmplIdx_eq (r : Rrd) : tmplIdx r = 0 :: (inputDss r).map (· + 1) := rfl

/-! ## The template -/

theorem Template.mem_inputDss (ht : Template r tmplt dss) {i : ℕ} (hi : i ∈ dss) :
    i ∈ inputDss r := by
  have hsome : some i ∈ (CStr.splitOn ':' tmplt).map (lookupDs r.dsList) := by
    rw [ht.names]
    exact List.mem_map_of_mem hi
  obtain ⟨name, -, hname⟩ := List.mem_map.mp hsome
  have hlt := lt_of_lookupDs hname
  rw [Rrd.dsList, List.length_map, List.length_range] at hlt
  exact Rrdtool.mem_inputDss.mpr ⟨hlt, ht.notCompute i hi⟩

theorem Template.ne_nil (ht : Template r tmplt dss) : dss ≠ [] := by
  rintro rfl
  exact CStr.splitOn_ne_nil ':' tmplt (List.map_eq_nil_iff.mp ht.names)

/-- No more DSs than the file has. -/
theorem Template.length_le (ht : Template r tmplt dss) : dss.length ≤ r.dsCnt := by
  have hsub : dss ⊆ List.range r.dsCnt :=
    fun i hi => List.mem_range.mpr (Rrdtool.mem_inputDss.mp (ht.mem_inputDss hi)).1
  simpa using (List.subperm_of_subset ht.nodup hsub).length_le

/-- The loop of `parse_template` finds every name, and does not run out of slots. -/
theorem parseTemplateFrom_eq {names : List Text} {cnt : ℕ}
    (hnames : names.map (lookupDs r.dsList) = dss.map some)
    (hcnt : cnt + dss.length ≤ r.dsCnt + 1) :
    parseTemplateFrom r cnt names = .ok (dss.map (· + 1)) := by
  induction names generalizing cnt dss with
  | nil =>
    obtain rfl : dss = [] := List.map_eq_nil_iff.mp hnames.symm
    rfl
  | cons name names ih =>
    cases dss with
    | nil => exact absurd hnames (by simp)
    | cons i dss =>
      obtain ⟨hname, hrest⟩ := List.cons.inj hnames
      rw [List.length_cons] at hcnt
      have hle : ¬ r.dsCnt < cnt := by omega
      have hnext : cnt + 1 + dss.length ≤ r.dsCnt + 1 := by omega
      rw [parseTemplateFrom, if_neg hle, hname, ih hrest hnext]
      rfl

theorem Template.tmplIdxOf_eq (ht : Template r tmplt dss) :
    tmplIdxOf r (some tmplt) = .ok (0 :: dss.map (· + 1)) := by
  have hlen := ht.length_le
  rw [tmplIdxOf, parseTemplateFrom_eq ht.names (by omega)]
  rfl

/-! ## The slots -/

theorem lookup_of_not_mem {i : ℕ} (values : List Text) (hi : i ∉ dss) :
    (dss.zip values).lookup i = none := by
  refine List.lookup_eq_none_iff.mpr fun p hp => ?_
  have hmem : p.1 ∈ dss := (List.of_mem_zip hp).1
  have hne : i ≠ p.1 := fun h => hi (h ▸ hmem)
  simpa using hne

/-- The value loop of `parse_ds`, when there are as many values as slots. -/
theorem assignFields_eq {idxs : List ℕ} {values : List Text} (hd : idxs.Nodup)
    (hlen : values.length = idxs.length) (f : ℕ → Text) :
    assignFields idxs values f = .ok fun k => ((idxs.zip values).lookup k).getD (f k) := by
  induction idxs generalizing values f with
  | nil =>
    obtain rfl := List.length_eq_zero_iff.mp hlen
    rfl
  | cons idx idxs ih =>
    cases values with
    | nil => exact absurd hlen (by simp)
    | cons v values =>
      obtain ⟨hnot, hd⟩ := List.nodup_cons.mp hd
      rw [assignFields, ih hd (Nat.succ.inj hlen)]
      refine congrArg Except.ok (funext fun k => ?_)
      rw [List.zip_cons_cons, List.lookup_cons]
      by_cases hk : k = idx
      · subst hk
        simp [lookup_of_not_mem values hnot]
      · simp [beq_eq_false_iff_ne.mpr hk, Function.update_of_ne hk]

/-- The value for a slot is that of its DS. -/
theorem lookup_slots (dss : List ℕ) (values : List Text) (i : ℕ) :
    ((dss.map (· + 1)).zip values).lookup (i + 1) = (dss.zip values).lookup i := by
  induction dss generalizing values with
  | nil => rfl
  | cons d dss ih =>
    cases values with
    | nil => rfl
    | cons v values =>
      rw [List.map_cons, List.zip_cons_cons, List.zip_cons_cons, List.lookup_cons, List.lookup_cons,
        ih]
      simp

theorem lookup_slot_zero (dss : List ℕ) (values : List Text) :
    ((dss.map (· + 1)).zip values).lookup 0 = none := by
  refine List.lookup_eq_none_iff.mpr fun p hp => ?_
  have hmem : p.1 ∈ dss.map (· + 1) := (List.of_mem_zip hp).1
  obtain ⟨i, -, hi⟩ := List.mem_map.mp hmem
  rw [← hi]
  rfl

theorem lookup_inputDss {i : ℕ} (g : ℕ → Text) (hi : i ∈ inputDss r) :
    ((inputDss r).zip ((inputDss r).map g)).lookup i = some (g i) := by
  rw [← List.map_prod_left_eq_zip]
  exact List.lookup_graph g hi

/-- `parse_ds` on an argument with as many values as there are slots: every DS that is not given a
value is given `U`. -/
theorem parseDsWith_eq {at_ : Bool} {time rest : Text} (hcut : cutTime arg = some (at_, time, rest))
    (hd : dss.Nodup) (hlen : (CStr.splitOn ':' rest).length = dss.length) :
    parseDsWith env (0 :: dss.map (· + 1)) arg s =
      getTimeFromReading env at_ { s with
        updvals := fun k => (((dss.map (· + 1)).zip (CStr.splitOn ':' rest)).lookup k).getD
          (if k = 0 then time else if k ≤ s.rrd.dsCnt then ['U'] else s.updvals k) } := by
  have hfields := CStr.splitOn_ne_nil ':' rest
  simp only [parseDsWith, hcut]
  cases hs : CStr.splitOn ':' rest with
  | nil => exact absurd hs hfields
  | cons v vs =>
    rw [hs] at hlen
    cases dss with
    | nil => exact absurd hlen (by simp)
    | cons d dss =>
      have hslots : ((d :: dss).map (· + 1)).Nodup := hd.map (add_left_injective 1)
      have hcount : (v :: vs).length = ((d :: dss).map (· + 1)).length := by simpa using hlen
      have hall := assignFields_eq hslots hcount
        (Function.update (fun i => if i = 0 then arg else if i ≤ s.rrd.dsCnt then ['U']
          else s.updvals i) 0 time)
      rw [List.map_cons, assignFields] at hall
      simp only [List.map_cons, List.tail_cons, List.head?_cons, List.headD_cons, hall]
      rw [if_neg (by simpa using hlen)]
      refine congrArg (getTimeFromReading env at_) ?_
      refine congrArg (fun f => { s with updvals := f }) (funext fun k => ?_)
      refine congrArg (Option.getD _) ?_
      by_cases hk : k = 0
      · subst hk
        simp
      · simp [hk]

/-! ## The argument for a call without a template -/

theorem cutTime_updateArg {at_ : Bool} {time rest : Text} {values : List Text}
    (hcut : cutTime arg = some (at_, time, rest))
    (hvalues : at_ = false → '@' ∉ [':'].intercalate values) :
    cutTime (updateArg at_ time values) = some (at_, time, [':'].intercalate values) := by
  rw [cutTime] at hcut
  cases hat : CStr.cutAt '@' arg with
  | some p =>
    rw [hat] at hcut
    obtain ⟨rfl, rfl⟩ : true = at_ ∧ p = (time, rest) := by simpa using hcut
    have hagain : CStr.cutAt '@' (updateArg true time values) = some (time, _) :=
      CStr.cutAt_eq_some.mpr ⟨rfl, (CStr.cutAt_eq_some.mp hat).2⟩
    rw [cutTime, hagain]
  | none =>
    rw [hat] at hcut
    obtain ⟨q, hcolon, hq⟩ := Option.map_eq_some_iff.mp hcut
    obtain ⟨rfl, rfl⟩ : false = at_ ∧ q = (time, rest) := by simpa using hq
    obtain ⟨rfl, hnot⟩ := CStr.cutAt_eq_some.mp hcolon
    have htime : '@' ∉ time := fun h => CStr.cutAt_eq_none.mp hat (List.mem_append_left _ h)
    have hno : CStr.cutAt '@' (updateArg false time values) = none := by
      refine CStr.cutAt_eq_none.mpr fun h => ?_
      rcases List.mem_append.mp h with h | h
      · exact htime h
      · exact hvalues rfl (by simpa using h)
    have hagain : CStr.cutAt ':' (updateArg false time values) = some (time, _) :=
      CStr.cutAt_eq_some.mpr ⟨rfl, hnot⟩
    rw [cutTime, hno, hagain]
    rfl

/-- A value is one of the argument, or `U`. -/
theorem valueFor_mem (dss : List ℕ) (values : List Text) (i : ℕ) :
    valueFor dss values i ∈ values ∨ valueFor dss values i = ['U'] := by
  rw [valueFor]
  cases h : (dss.zip values).lookup i with
  | none => exact .inr rfl
  | some v =>
    have hmem : (i, v) ∈ dss.zip values := by
      obtain ⟨l₁, l₂, heq, -⟩ := List.lookup_eq_some_iff.mp h
      simp [heq]
    exact .inl (List.of_mem_zip hmem).2

/-- Without an `@` in front there is none at all. -/
theorem not_mem_of_cutTime {time rest : Text} (hcut : cutTime arg = some (false, time, rest)) :
    '@' ∉ rest := by
  rw [cutTime] at hcut
  cases hat : CStr.cutAt '@' arg with
  | some p =>
    rw [hat] at hcut
    exact absurd hcut (by simp)
  | none =>
    rw [hat] at hcut
    obtain ⟨q, hcolon, hq⟩ := Option.map_eq_some_iff.mp hcut
    obtain rfl : q = (time, rest) := by simpa using hq
    obtain ⟨rfl, -⟩ := CStr.cutAt_eq_some.mp hcolon
    intro h
    exact CStr.cutAt_eq_none.mp hat (List.mem_append_right _ (List.mem_cons_of_mem _ h))

/-- What `parse_ds` finds in the argument for a call without a template. -/
theorem cutTime_reorder (dss : List ℕ) {at_ : Bool} {time rest : Text}
    (hcut : cutTime arg = some (at_, time, rest)) (hne : inputDss r ≠ []) :
    ∃ rest', cutTime (reorder r dss arg) = some (at_, time, rest') ∧
      CStr.splitOn ':' rest' = (inputDss r).map (valueFor dss (CStr.splitOn ':' rest)) := by
  have hcolon : ∀ w ∈ (inputDss r).map (valueFor dss (CStr.splitOn ':' rest)), ':' ∉ w := by
    intro w hw hc
    obtain ⟨i, -, rfl⟩ := List.mem_map.mp hw
    rcases valueFor_mem dss (CStr.splitOn ':' rest) i with hv | hv
    · exact (CStr.mem_splitOn hv ':' hc).1 rfl
    · rw [hv] at hc
      exact absurd hc (by decide)
  have hat : at_ = false →
      '@' ∉ [':'].intercalate ((inputDss r).map (valueFor dss (CStr.splitOn ':' rest))) := by
    rintro rfl hmem
    rcases CStr.mem_intercalate hmem with hc | ⟨w, hw, hc⟩
    · exact absurd hc (by decide)
    · obtain ⟨i, -, rfl⟩ := List.mem_map.mp hw
      rcases valueFor_mem dss (CStr.splitOn ':' rest) i with hv | hv
      · exact not_mem_of_cutTime hcut (CStr.mem_splitOn hv '@' hc).2
      · rw [hv] at hc
        exact absurd hc (by decide)
  refine ⟨_, ?_, CStr.splitOn_intercalate hcolon fun h => hne (List.map_eq_nil_iff.mp h)⟩
  rw [reorder, hcut]
  exact cutTime_updateArg hcut hat

/-- **`parse_ds` does the same** with the template and with the values in order. -/
theorem parseDsWith_reorder (ht : Template r tmplt dss) (harg : ValuesFor dss arg)
    (hs : s.rrd.dsCnt = r.dsCnt) :
    parseDsWith env (0 :: dss.map (· + 1)) arg s =
      parseDsWith env (tmplIdx r) (reorder r dss arg) s := by
  obtain ⟨at_, time, rest, hcut, hlen⟩ := harg
  have hne : inputDss r ≠ [] := by
    obtain ⟨i, hi⟩ := List.exists_mem_of_ne_nil _ ht.ne_nil
    exact List.ne_nil_of_mem (ht.mem_inputDss hi)
  obtain ⟨rest', hcut', hvalues⟩ := cutTime_reorder dss hcut hne
  rw [tmplIdx_eq, parseDsWith_eq hcut ht.nodup hlen,
    parseDsWith_eq hcut' (inputDss_nodup r) (by rw [hvalues, List.length_map]), hvalues]
  refine congrArg (getTimeFromReading env at_) ?_
  refine congrArg (fun f => { s with updvals := f }) (funext fun k => ?_)
  cases k with
  | zero => rw [lookup_slot_zero, lookup_slot_zero]
  | succ i =>
    rw [lookup_slots, lookup_slots]
    by_cases hi : i ∈ inputDss r
    · -- a DS that takes a value: its own, or `U`
      have hle : i + 1 ≤ s.rrd.dsCnt := by
        rw [hs]
        exact (mem_inputDss.mp hi).1
      rw [lookup_inputDss _ hi, if_neg (Nat.succ_ne_zero i), if_pos hle]
      rfl
    · -- any other slot is left alone by both
      have hnot : i ∉ dss := fun h => hi (ht.mem_inputDss h)
      rw [lookup_of_not_mem _ hi, lookup_of_not_mem _ hnot]

/-! ## Calls -/

/-- The argument loop. -/
theorem processArgsWith_reorder (env : Env) (ht : Template r tmplt dss) {args : List Text}
    (hargs : ∀ arg ∈ args, ValuesFor dss arg) (hs : HasDefs r s) :
    processArgsWith env (0 :: dss.map (· + 1)) args s =
      processArgsWith env (tmplIdx r) (args.map (reorder r dss)) s := by
  induction args generalizing s with
  | nil => rfl
  | cons arg args ih =>
    have harg : processArgWith env (0 :: dss.map (· + 1)) arg s =
        processArgWith env (tmplIdx r) (reorder r dss arg) s := by
      rw [processArgWith, processArgWith,
        parseDsWith_reorder ht (hargs arg List.mem_cons_self) hs.dsCnt]
    have hdefs := processArgsWith_hasDefs env (tmplIdx r) [reorder r dss arg] hs
    rw [List.map_cons, processArgsWith, processArgsWith, harg]
    cases ha : processArgWith env (tmplIdx r) (reorder r dss arg) s with
    | fail e t => rfl
    | ok t =>
      simp only [processArgsWith, ha, Outcome.ok_andThen] at hdefs ⊢
      exact ih (fun x hx => hargs x (List.mem_cons_of_mem _ hx)) hdefs

namespace NoMmap

/-- The header still counts as many DSs. -/
def SameDsCnt (r : Rrd) (s : Upd) : Prop := s.rrd.dsCnt = r.dsCnt

theorem writeToRras_dsCnt (s : Upd) : (writeToRras s).rrd.dsCnt = s.rrd.dsCnt := by
  let dsCnt : Upd → ℕ := fun s => s.rrd.dsCnt
  have hrow : ∀ i sc s, dsCnt (writeRRARow i sc s) = dsCnt s :=
    fun i sc s => forLoop_frame dsCnt fun _ _ _ => rfl
  have hnext : ∀ i sc s, dsCnt (writeNextRow i sc s) = dsCnt s := by
    intro i sc s
    simp only [writeNextRow]
    split_ifs
    · rfl
    · exact hrow i sc _
  have hrows : ∀ i n sc s, dsCnt (writeRows i n sc s) = dsCnt s := by
    intro i n
    induction n with
    | zero => exact fun _ _ => rfl
    | succ n ih => exact fun sc s => (ih .secondary _).trans (hnext i sc s)
  exact forLoop_frame dsCnt fun i s _ => hrows i _ _ s

theorem processPdps_sameDsCnt (env : Env) (interval : ℚ) (h : SameDsCnt r s) :
    SameDsCnt r (processPdps env interval s).state := by
  simp only [processPdps]
  split_ifs
  · exact (simpleUpdate_frame interval s).sameDefs.dsCnt.trans h
  · have hpdp : ∀ el, SameDsCnt r (processAllPdpSt env.lib interval el s).state :=
      fun el => (processAllPdpSt_state _ _ el s).sameDefs.dsCnt.trans h
    refine Outcome.andThen_state (Outcome.andThen_state (Outcome.andThen_state (hpdp _) ?_) ?_) ?_
    · exact fun u hu => (updateAllCdpPrep_state _ _ u).sameDefs.dsCnt.trans hu
    · exact fun u hu => (updateAberrantCdps_state _ u).prep.sameDefs.dsCnt.trans hu
    · exact fun u hu => (writeToRras_dsCnt u).trans hu

theorem processReadings_sameDsCnt (env : Env) (h : SameDsCnt r s) :
    SameDsCnt r (processReadings env s).state := by
  have hprep : SameDsCnt r (updatePdpPrep (updateInterval s) s).state :=
    (updatePdpPrep_state _ s).sameDefs.dsCnt.trans h
  refine Outcome.andThen_state (Outcome.andThen_state hprep ?_) ?_
  · exact fun u hu => processPdps_sameDsCnt env _ hu
  · exact fun u hu => hu

theorem processArgsWith_reorder (env : Env) (ht : Template r tmplt dss) {args : List Text}
    (hargs : ∀ arg ∈ args, ValuesFor dss arg) (hs : SameDsCnt r s) :
    processArgsWith env (0 :: dss.map (· + 1)) args s =
      processArgsWith env (tmplIdx r) (args.map (reorder r dss)) s := by
  induction args generalizing s with
  | nil => rfl
  | cons arg args ih =>
    rw [List.map_cons, processArgsWith, processArgsWith, processArgWith, processArgWith,
      parseDsWith_reorder ht (hargs arg List.mem_cons_self) hs]
    have hparse : SameDsCnt r (parseDsWith env (tmplIdx r) (reorder r dss arg) s).state :=
      (parseDsWith_state _ _ s).sameDefs.dsCnt.trans hs
    have hdone := Outcome.andThen_state hparse fun u hu => processReadings_sameDsCnt env hu
    cases hp : (parseDsWith env (tmplIdx r) (reorder r dss arg) s).andThen
        (processReadings env) with
    | fail e u => rfl
    | ok u =>
      rw [hp] at hdone
      exact ih (fun x hx => hargs x (List.mem_cons_of_mem _ hx)) hdone

end NoMmap

/-- **A template is another order of the values.** With arguments that have a value for each of the
DSs the template names, a call does the same as without the template on the arguments put into the
order of the definitions, in both builds. -/
theorem template_eq_reordered (ht : Template r tmplt dss) {args : List Text}
    (hargs : ∀ arg ∈ args, ValuesFor dss arg) (env : Env) (junk : Upd) :
    rrdUpdateR env junk (some tmplt) args r =
        rrdUpdateR env junk none (args.map (reorder r dss)) r ∧
      NoMmap.rrdUpdateR env junk (some tmplt) args r =
        NoMmap.rrdUpdateR env junk none (args.map (reorder r dss)) r := by
  have hstart : HasDefs r (junk.start r) := SameDefs.refl r
  have hmapped := processArgsWith_reorder env ht hargs hstart
  have hread := NoMmap.processArgsWith_reorder env ht hargs hstart.dsCnt
  have hdefault : tmplIdxOf r none = .ok (tmplIdx r) := rfl
  simp only [rrdUpdateR, NoMmap.rrdUpdateR, ht.tmplIdxOf_eq, hdefault, hmapped, hread,
    List.map_eq_nil_iff, and_self]

/-- A `GAUGE`, twice its value, a `COUNTER` and another `GAUGE`. -/
def CreateArgs.mixed : CreateArgs :=
  { CreateArgs.pair with
    dsCnt := 4
    dsCnt_pos := by decide
    dsDef := fun
      | 0 => ⟨['a'], .gauge, .generic 600 dnan dnan⟩
      | 1 => ⟨['b'], .cdef, .cdef [⟨.variable, 0⟩, ⟨.number, 2⟩, ⟨.mul, 0⟩]⟩
      | 2 => ⟨['c'], .counter, .generic 600 dnan dnan⟩
      | _ => ⟨['d'], .gauge, .generic 600 dnan dnan⟩ }

/-- A template that names the last DS before the first one. -/
theorem mixed_reordered :
    let r := rrdCreateFn .mixed fun _ => 0
    let junk := Upd.blank r
    reorder r [3, 0] "1200:7:5".toList = "1200:5:U:7".toList ∧
      (rrdUpdateR .bare junk (some "d:a".toList) ["1200:7:5".toList] r).isOk = true ∧
      rrdUpdateR .bare junk (some "d:a".toList) ["1200:7:5".toList] r =
        rrdUpdateR .bare junk none ["1200:5:U:7".toList] r := by
  intro r junk
  have hreorder : reorder r [3, 0] "1200:7:5".toList = "1200:5:U:7".toList := by decide +kernel
  have htemplate : Template r "d:a".toList [3, 0] := by
    refine ⟨by decide +kernel, by decide, ?_⟩
    intro i hi
    rcases List.mem_pair.mp hi with rfl | rfl
    · exact fun h => nomatch h
    · exact fun h => nomatch h
  have hvalues : ∀ arg ∈ ["1200:7:5".toList], ValuesFor [3, 0] arg := by
    intro arg harg
    obtain rfl := List.mem_singleton.mp harg
    exact ⟨false, "1200".toList, "7:5".toList, by decide +kernel, by decide +kernel⟩
  have hboth := (template_eq_reordered htemplate hvalues .bare junk).1
  rw [List.map_singleton, hreorder] at hboth
  exact ⟨hreorder, by decide +kernel, hboth⟩

end Rrdtool
