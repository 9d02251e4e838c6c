import Rrdtool.Batch
import Rrdtool.Created
import Rrdtool.Position

/-!
# Splitting a bulk update

`rrd_update_r` with a template, and what becomes of a list of values that is handed over in two
calls instead of one. The second call starts with fresh arrays, reads the header again and looks
at a later clock.

* `split_update` — for a file without seasonal RRAs, values with absolute timestamps leave the
  same file in one call and in two.
-/

namespace Rrdtool

open Loop

/-! ## Templates -/

/-- The errors of `parse_template`. -/
inductive TmpltError : Type where
  /-- `tmplt contains more DS definitions than RRD` -/
  | more
  /-- `unknown DS name '%s'` -/
  | unknown (name : Text)
  deriving DecidableEq

/-- The loop of `parse_template`, with `tmpl_cnt` entries filled. -/
def parseTemplateFrom (rrd : Rrd) : ℕ → List Text → Except TmpltError (List ℕ)
  | _, [] => .ok []
  | tmplCnt, name :: names =>
    if rrd.dsCnt < tmplCnt then .error .more
    else
      match lookupDs rrd.dsList name with
      | none => .error (.unknown name)
      | some i => (parseTemplateFrom rrd (tmplCnt + 1) names).map fun idxs => (i + 1) :: idxs

/-- `tmpl_idx`, as `allocate_data_structures` sets it up. -/
def tmplIdxOf (rrd : Rrd) : Option Text → Except TmpltError (List ℕ)
  | none => .ok (tmplIdx rrd)
  | some tmplt => (parseTemplateFrom rrd 1 (CStr.splitOn ':' tmplt)).map (0 :: ·)

/-- `process_arg`, with the entries of `tmpl_idx`. -/
def processArgWith (env : Env) (tmpl : List ℕ) (arg : Text) (s : Upd) : UpdResult :=
  (parseDsWith env tmpl arg s).andThen (processReadings env)

/-- The argument loop of `_rrd_update`. -/
def processArgsWith (env : Env) (tmpl : List ℕ) : List Text → Upd → UpdResult
  | [], s => .ok s
  | arg :: args, s => (processArgWith env tmpl arg s).andThen (processArgsWith env tmpl args)

/-- The errors of a call. -/
inductive CallError : Type where
  /-- `Not enough arguments` -/
  | arguments
  /-- an error of `parse_template` -/
  | tmplt (e : TmpltError)
  /-- an error of `process_arg` -/
  | update (e : UpdError)
  deriving DecidableEq

/-- `rrd_update_r` on a file that `rrd_open` accepts. -/
def rrdUpdateR (env : Env) (junk : Upd) (tmplt : Option Text) (args : List Text) (rrd : Rrd) :
    Outcome CallError Rrd :=
  if args = [] then .fail .arguments rrd
  else
    match tmplIdxOf rrd tmplt with
    | .error e => .fail (.tmplt e) rrd
    | .ok tmpl =>
      match processArgsWith env tmpl args (junk.start rrd) with
      | .fail e s => .fail (.update e) s.rrd
      | .ok s => .ok (if s.scheduleSmooth then smoothAllRras s.rrd else s.rrd)

/-- **Files that come from `rrd_create_r`**: created, and then updated in any way. -/
inductive Reached : Rrd → Prop where
  /-- a new file -/
  | create {r : Rrd} : Created r → Reached r
  /-- one more call, which may fail -/
  | update {r : Rrd} (env : Env) (junk : Upd) (tmplt : Option Text) (args : List Text) :
      Reached r → Reached (rrdUpdateR env junk tmplt args r).state

/-! ## Clocks -/

/-- No `COMPUTE` program asks for the time. -/
def Rrd.NoNow (r : Rrd) : Prop := ∀ i, i < r.dsCnt → ∀ c ∈ (r.dsDef i).cdef, c.op ≠ .now

/-- The same library, looked at with another clock. -/
def Libm.SameMath (lib lib' : Libm) : Prop :=
  { lib with now := lib'.now, tzoffset := lib'.tzoffset } = lib'

/-- **An absolute timestamp**: an at-style time that is read alike at both times, or a number
that is not counted back from now. -/
def Absolute (env env' : Env) (arg : Text) : Prop :=
  ∀ at_ time rest, cutTime arg = some (at_, time, rest) →
    if at_ then env.parsetime time = env'.parsetime time
    else time ≠ ['N'] ∧ (CStr.strtod time).value.lt (.num 0) = false

/-- Two surroundings in which the arguments mean the same. -/
structure SameMeaning (args : List Text) (env env' : Env) : Prop where
  lib : env.lib.SameMath env'.lib
  absolute : ∀ arg ∈ args, Absolute env env' arg

variable {env env' : Env} {r r' : Rrd} {s t u v : Upd} {tmpl : List ℕ}

theorem absolute_of_number {arg : Text} (time rest : Text)
    (hcut : cutTime arg = some (false, time, rest))
    (h : time ≠ ['N'] ∧ (CStr.strtod time).value.lt (.num 0) = false) : Absolute env env' arg := by
  intro at_ time' rest' hcut'
  obtain ⟨rfl, rfl, rfl⟩ : false = at_ ∧ time = time' ∧ rest = rest' := by
    simpa using hcut.symm.trans hcut'
  exact h

theorem readTime_eq {at_ : Bool} {time : Text}
    (h : if at_ then env.parsetime time = env'.parsetime time
      else time ≠ ['N'] ∧ (CStr.strtod time).value.lt (.num 0) = false) :
    readTime env at_ time = readTime env' at_ time := by
  cases at_ with
  | true => simp only [readTime, if_true] at h ⊢; rw [h]
  | false =>
    simp only [Bool.false_eq_true, if_false] at h
    simp only [readTime, Bool.false_eq_true, if_false, h.1, h.2]

theorem assignFields_zero {idxs : List ℕ} {fs : List Text} {f g : ℕ → Text}
    (hidx : ∀ i ∈ idxs, i ≠ 0) (h : assignFields idxs fs f = .ok g) : g 0 = f 0 := by
  induction idxs generalizing fs f with
  | nil =>
    cases fs with
    | nil =>
      obtain rfl := Except.ok.inj h
      rfl
    | cons x fs => exact absurd h (by simp [assignFields])
  | cons idx idxs ih =>
    cases fs with
    | nil =>
      obtain rfl := Except.ok.inj h
      rfl
    | cons x fs =>
      rw [ih (fun i hi => hidx i (List.mem_cons_of_mem _ hi)) h,
        Function.update_of_ne (hidx idx List.mem_cons_self).symm]

/-- The end of `parse_ds` does not touch entry 0, which is the time. -/
theorem assignReadings_env {at_ : Bool} {time : Text} {idxs : List ℕ} {f : ℕ → Text} {n : ℕ}
    (s : Upd) (fields : List Text) (hread : readTime env at_ time = readTime env' at_ time)
    (hidx : ∀ i ∈ idxs, i ≠ 0) (hf : f 0 = time) :
    (match assignFields idxs fields.tail f with
      | .error e => .fail e { s with updvals := f }
      | .ok updvals =>
        if fields.length + 1 ≠ n then
          .fail (.readings (n - 1) fields.length time) { s with updvals := updvals }
        else getTimeFromReading env at_ { s with updvals := updvals } : UpdResult) =
    match assignFields idxs fields.tail f with
      | .error e => .fail e { s with updvals := f }
      | .ok updvals =>
        if fields.length + 1 ≠ n then
          .fail (.readings (n - 1) fields.length time) { s with updvals := updvals }
        else getTimeFromReading env' at_ { s with updvals := updvals } := by
  cases ha : assignFields idxs fields.tail f with
  | error e => rfl
  | ok g =>
    have hg : g 0 = time := (assignFields_zero hidx ha).trans hf
    dsimp only
    split_ifs
    · rfl
    · simp only [getTimeFromReading, hg, hread]

/-- An absolute timestamp is read alike at both times. -/
theorem parseDsWith_env {arg : Text} (hidx : ∀ i ∈ tmpl.tail, i ≠ 0) (habs : Absolute env env' arg)
    (s : Upd) : parseDsWith env tmpl arg s = parseDsWith env' tmpl arg s := by
  simp only [parseDsWith]
  cases hc : cutTime arg with
  | none => rfl
  | some p =>
    obtain ⟨at_, time, rest⟩ := p
    have hread := readTime_eq (habs at_ time rest hc)
    have hidx' : ∀ i ∈ tmpl.tail.tail, i ≠ 0 := fun i hi => hidx i (List.mem_of_mem_tail hi)
    dsimp only
    cases hh : tmpl.tail.head? with
    | none => exact assignReadings_env s _ hread hidx' (by simp)
    | some idx =>
      have hne : idx ≠ 0 := hidx idx (List.mem_of_mem_head? hh)
      refine assignReadings_env s _ hread hidx' ?_
      dsimp only
      rw [Function.update_of_ne hne.symm, Function.update_self]

/-- No entry of a template but the first is the time. -/
theorem tmplIdxOf_ne_zero {tmplt : Option Text} (h : tmplIdxOf r tmplt = .ok tmpl) :
    ∀ i ∈ tmpl.tail, i ≠ 0 := by
  have hloop : ∀ cnt names idxs, parseTemplateFrom r cnt names = .ok idxs → ∀ i ∈ idxs, i ≠ 0 := by
    intro cnt names
    induction names generalizing cnt with
    | nil =>
      intro idxs h
      obtain rfl := Except.ok.inj h
      simp
    | cons name names ih =>
      intro idxs h
      simp only [parseTemplateFrom] at h
      split_ifs at h
      cases hl : lookupDs r.dsList name with
      | none => simp [hl] at h
      | some i =>
        simp only [hl] at h
        obtain ⟨idxs', hi, rfl⟩ := map_eq_ok.mp h
        simpa using ih _ _ hi
  cases tmplt with
  | none =>
    obtain rfl := Except.ok.inj h
    intro i hi
    obtain ⟨j, -, rfl⟩ := List.mem_map.mp hi
    exact Nat.succ_ne_zero j
  | some t =>
    obtain ⟨idxs, hidxs, rfl⟩ := map_eq_ok.mp h
    exact hloop _ _ _ hidxs

/-! ## Programs without a clock -/

/-- No program asks for the clock or for the time zone. -/
def Rrd.ClockFree (r : Rrd) : Prop :=
  ∀ i, i < r.dsCnt → ∀ c ∈ (r.dsDef i).cdef, c.op ≠ .now ∧ c.op ≠ .ltime

theorem Rrd.ClockFree.congr (h : r.ClockFree) (hd : SameDefs r r') : r'.ClockFree := by
  intro i hi
  rw [hd.dsDef]
  exact h i (hd.dsCnt ▸ hi)

theorem rpnStep_clock {lib lib' : Libm} (h : lib.SameMath lib') {f : ℕ → RrdValue} {i : ℕ}
    {n : Rpnp} (hop : n.op ≠ .now ∧ n.op ≠ .ltime) (st : List RrdValue) :
    rpnStep lib f i n st = rpnStep lib' f i n st := by
  rw [← h]
  simp only [rpnStep]
  cases hn : n.op <;> first | rfl | exact absurd hn hop.1 | exact absurd hn hop.2

theorem rpnExpand_op (c : RpnCdefds) : (rpnExpand c).op = c.op := by
  simp only [rpnExpand]
  cases c.op <;> rfl

theorem computeDs_clock {lib lib' : Libm} (h : lib.SameMath lib') {prog : List RpnCdefds}
    (hprog : ∀ c ∈ prog, c.op ≠ .now ∧ c.op ≠ .ltime) (f : ℕ → RrdValue) (i : ℕ) :
    computeDs lib prog f i = computeDs lib' prog f i := by
  have hcalc : ∀ (p : List Rpnp), (∀ n ∈ p, n.op ≠ .now ∧ n.op ≠ .ltime) →
      ∀ st, rpnCalc lib f i p st = rpnCalc lib' f i p st := by
    intro p
    induction p with
    | nil => exact fun _ st => by rcases st with _ | ⟨a, _ | ⟨b, st⟩⟩ <;> rfl
    | cons n p ih =>
      intro hp st
      simp only [rpnCalc, rpnStep_clock h (hp n List.mem_cons_self)]
      cases rpnStep lib' f i n st with
      | error e => rfl
      | ok st' => exact ih (fun m hm => hp m (List.mem_cons_of_mem _ hm)) st'
  rw [computeDs, computeDs, hcalc]
  intro n hn
  obtain ⟨c, hc, rfl⟩ := List.mem_map.mp hn
  simp only [substVariable]
  split_ifs
  · exact ⟨by simp, by simp⟩
  · rw [rpnExpand_op]
    exact hprog c hc

/-- Two outcomes of the same state. -/
theorem eq_of_rel {R : Upd → Upd → Prop} {o o' : UpdResult} (hR : ∀ s t, R s t → s = t)
    (h : Outcome.Rel R Eq o o') : o = o' := by
  cases o with
  | ok s =>
    cases o' with
    | ok t => rw [hR s t h]
    | fail e' t => exact h.elim
  | fail e s =>
    cases o' with
    | ok t => exact h.elim
    | fail e' t => rw [h.1, h.2]

theorem processAllPdpSt_clock {lib lib' : Libm} (h : lib.SameMath lib') (interval : ℚ)
    (el : Elapsed) (hc : s.rrd.ClockFree) :
    processAllPdpSt lib interval el s = processAllPdpSt lib' interval el s := by
  let R : Upd → Upd → Prop := fun u v => u = v ∧ u.rrd.dsDef = s.rrd.dsDef
  have hR : ∀ u v, R u v → u = v := fun _ _ h => h.1
  refine eq_of_rel hR (forLoopE_rel (fun _ => R) ⟨rfl, rfl⟩ ?_)
  rintro i u v hi ⟨rfl, hdef⟩
  have hprog : ∀ c ∈ (u.rrd.dsDef i).cdef, c.op ≠ .now ∧ c.op ≠ .ltime := by
    rw [hdef]
    exact hc i hi
  have heq : processPdpSt lib interval el.preInt el.postInt (el.elapsedPdpSt * s.rrd.pdpStep) i u =
      processPdpSt lib' interval el.preInt el.postInt (el.elapsedPdpSt * s.rrd.pdpStep) i u := by
    simp only [processPdpSt, computeDs_clock h hprog]
  have hframe := processPdpSt_state lib' interval el.preInt el.postInt
    (el.elapsedPdpSt * s.rrd.pdpStep) i u
  rw [heq]
  cases hb : processPdpSt lib' interval el.preInt el.postInt
      (el.elapsedPdpSt * s.rrd.pdpStep) i u with
  | ok t =>
    obtain ⟨_, _, _, rfl⟩ : PdpFrame u t := Outcome.of_state_ok hb hframe
    exact ⟨rfl, hdef⟩
  | fail e t => exact ⟨rfl, rfl⟩

/-- An argument behind `parse_ds`, at another time. -/
theorem processReadings_env (hlib : env.lib.SameMath env'.lib) (hc : s.rrd.ClockFree) :
    processReadings env s = processReadings env' s := by
  simp only [processReadings]
  cases hu : updatePdpPrep (updateInterval s) s with
  | fail e t => rfl
  | ok t =>
    have hframe : PdpFrame s t :=
      Outcome.of_state_ok hu (updatePdpPrep_state (updateInterval s) s)
    have hct := hc.congr hframe.sameDefs
    simp only [Outcome.ok_andThen, processPdps, processAllPdpSt_clock hlib _ _ hct]

/-! ## Arguments -/

/-- The working storage does not matter. -/
theorem processArgsWith_alike (env : Env) (tmpl : List ℕ) (args : List Text) (hs : r.NoSeasonal)
    (hc : r.LooksBack) (h : SameFile r u v) :
    Outcome.Rel (SameFile r) SameRrd (processArgsWith env tmpl args u)
      (processArgsWith env tmpl args v) := by
  induction args generalizing u v with
  | nil => exact h
  | cons arg args ih =>
    refine Outcome.Rel.andThen ((parseDsWith_alike tmpl arg h).andThen fun _ _ => ?_)
      fun _ _ => ih
    exact processReadings_alike env hs hc

/-- The clock does not matter. -/
theorem processArgsWith_env {args : List Text} (hidx : ∀ i ∈ tmpl.tail, i ≠ 0)
    (hm : SameMeaning args env env') (hs : r.NoSeasonal) (hl : r.LooksBack) (hc : r.ClockFree)
    (h : SameFile r s s) : processArgsWith env tmpl args s = processArgsWith env' tmpl args s := by
  induction args generalizing s with
  | nil => rfl
  | cons arg args ih =>
    have hparse := parseDsWith_env hidx (hm.absolute arg List.mem_cons_self) s
    have harg : processArgWith env tmpl arg s = processArgWith env' tmpl arg s := by
      rw [processArgWith, processArgWith, hparse]
      cases hp : parseDsWith env' tmpl arg s with
      | fail e t => rfl
      | ok t =>
        have hframe : ParseFrame s t := Outcome.of_state_ok hp (parseDsWith_state tmpl arg s)
        exact processReadings_env hm.lib (hc.congr (h.defs.trans hframe.sameDefs))
    rw [processArgsWith, processArgsWith, harg]
    have hsame := processArgsWith_alike env' tmpl [arg] hs hl h
    cases ha : processArgWith env' tmpl arg s with
    | fail e t => rfl
    | ok t =>
      simp only [processArgsWith, ha, Outcome.ok_andThen] at hsame ⊢
      exact ih ⟨hm.lib, fun x hx => hm.absolute x (List.mem_cons_of_mem _ hx)⟩ hsame

theorem processArgsWith_append (env : Env) (tmpl : List ℕ) (a b : List Text) (s : Upd) :
    processArgsWith env tmpl (a ++ b) s =
      (processArgsWith env tmpl a s).andThen (processArgsWith env tmpl b) := by
  induction a generalizing s with
  | nil => rfl
  | cons x a ih =>
    simp only [List.cons_append, processArgsWith]
    cases processArgWith env tmpl x s with
    | fail e t => rfl
    | ok t => exact ih t

/-! ## Reached files -/

/-- The file still has the definitions of `r`. -/
def HasDefs (r : Rrd) (s : Upd) : Prop := SameDefs r s.rrd

theorem processReadings_hasDefs (env : Env) (h : HasDefs r s) :
    HasDefs r (processReadings env s).state := by
  have hk : Keeps s ((updatePdpPrep (updateInterval s) s).andThen
      (processPdps env (updateInterval s))).state :=
    Outcome.andThen_state (updatePdpPrep_state _ s).keeps
      fun t ht => ht.trans (processPdps_keeps _ t)
  have hdefs : HasDefs r ((updatePdpPrep (updateInterval s) s).andThen
      (processPdps env (updateInterval s))).state := SameDefs.trans h hk.defs
  refine Outcome.andThen_state hdefs fun t ht => ?_
  exact SameDefs.trans ht ⟨rfl, rfl, rfl, rfl, rfl, rfl, rfl⟩

theorem processArgsWith_hasDefs (env : Env) (tmpl : List ℕ) (args : List Text) (h : HasDefs r s) :
    HasDefs r (processArgsWith env tmpl args s).state := by
  induction args generalizing s with
  | nil => exact h
  | cons arg args ih =>
    have hparse : HasDefs r (parseDsWith env tmpl arg s).state :=
      SameDefs.trans h (parseDsWith_state tmpl arg s).sameDefs
    have harg : HasDefs r (processArgWith env tmpl arg s).state :=
      Outcome.andThen_state hparse fun t ht => processReadings_hasDefs env ht
    exact Outcome.andThen_state harg fun t ht => ih ht

/-- **A call keeps the definitions**, whether it succeeds or not. -/
theorem rrdUpdateR_sameDefs (env : Env) (junk : Upd) (tmplt : Option Text) (args : List Text)
    (r : Rrd) : SameDefs r (rrdUpdateR env junk tmplt args r).state := by
  simp only [rrdUpdateR]
  split_ifs
  · exact SameDefs.refl r
  · cases tmplIdxOf r tmplt with
    | error e => exact SameDefs.refl r
    | ok tmpl =>
      have hstart : HasDefs r (junk.start r) := SameDefs.refl r
      have hdefs := processArgsWith_hasDefs env tmpl args hstart
      dsimp only
      cases hp : processArgsWith env tmpl args (junk.start r) with
      | fail e s =>
        rw [hp] at hdefs
        exact hdefs
      | ok s =>
        rw [hp] at hdefs
        dsimp only [Outcome.state_ok]
        split_ifs
        · obtain ⟨_, _, hsm⟩ := smoothAllRras_frame s.rrd
          rw [hsm]
          exact SameDefs.trans hdefs ⟨rfl, rfl, rfl, rfl, rfl, rfl, rfl⟩
        · exact hdefs

theorem SameDefs.dsList (h : SameDefs r r') : r'.dsList = r.dsList := by
  rw [Rrd.dsList, Rrd.dsList, h.dsCnt, h.dsDef]

theorem Reached.dsOk (h : Reached r) : DsOk r.dsList := by
  induction h with
  | create hr => exact hr.dsOk
  | update env junk tmplt args _ ih =>
    rw [(rrdUpdateR_sameDefs env junk tmplt args _).dsList]
    exact ih

/-- The programs of a file that comes from `rrd_create_r`. -/
theorem Reached.cdefOk (h : Reached r) {i : ℕ} (hi : i < r.dsCnt) :
    CdefOk i (r.dsDef i).cdef := by
  have hpar := h.dsOk.par i _ (Rrd.dsList_get hi)
  simp only [DsDef.ParOk, DsDef.cdef] at hpar ⊢
  cases hp : (r.dsDef i).par with
  | generic m lo hi => exact ⟨Nat.succ_pos _, by simp, by simp⟩
  | cdef prog =>
    rw [hp] at hpar
    exact hpar.2

theorem Reached.looksBack (h : Reached r) : r.LooksBack := by
  intro i hi c hc
  have hle : ∀ j : ℕ, ((j : ℤ).bmod (2 ^ 16)).toNat ≤ j := by
    intro j
    have hmod : (j : ℤ) % 2 ^ 16 ≤ j := by omega
    simp only [Int.bmod]
    split_ifs <;> omega
  have hnamed := (h.cdefOk hi).named c hc
  simp only [rpnExpand]
  cases hop : c.op <;> simp only [hop] at hnamed ⊢ <;> try exact Nat.zero_le i
  all_goals
    obtain ⟨j, hj, hval⟩ := hnamed (by simp)
    rw [hval]
    exact (hle j).trans hj.le

theorem Reached.clockFree (h : Reached r) (hn : r.NoNow) : r.ClockFree := by
  intro i hi c hc
  refine ⟨hn i hi c hc, fun hop => (h.cdefOk hi).op c hc ?_⟩
  rw [hop]
  decide

theorem tmplIdxOf_congr (h : SameDefs r r') (tmplt : Option Text) :
    tmplIdxOf r' tmplt = tmplIdxOf r tmplt := by
  have hloop : ∀ names cnt, parseTemplateFrom r' cnt names = parseTemplateFrom r cnt names := by
    intro names
    induction names with
    | nil => exact fun _ => rfl
    | cons name names ih =>
      intro cnt
      simp only [parseTemplateFrom, h.dsCnt, h.dsList, ih]
  cases tmplt with
  | none => simp only [tmplIdxOf, tmplIdx, h.dsCnt, h.dsDef]
  | some t => simp only [tmplIdxOf, hloop]

/-! ## Two calls -/

/-- **A call in the place of a run of the argument loop**: if the loop gets from `u` to `m`, a call
on the file of `u` leaves the file of `m`. -/
theorem rrdUpdateR_state_of {m : Upd} {junk : Upd} {tmplt : Option Text} {args : List Text}
    (hs : r.NoSeasonal) (hl : r.LooksBack) (hc : r.ClockFree) (hm : SameMeaning args env env')
    (htm : tmplIdxOf r tmplt = .ok tmpl) (hu : SameFile r u (junk.start r))
    (h : processArgsWith env tmpl args u = .ok m) :
    (rrdUpdateR env' junk tmplt args r).state = m.rrd := by
  simp only [rrdUpdateR]
  split_ifs with hargs
  · subst hargs
    obtain rfl := Outcome.ok.inj h
    exact hu.rrd.symm
  · have hrel := processArgsWith_alike env tmpl args hs hl hu
    have hstart : SameFile r (junk.start r) (junk.start r) := sameFile_start junk junk r
    rw [processArgsWith_env (tmplIdxOf_ne_zero htm) hm hs hl hc hstart, h] at hrel
    simp only [htm]
    cases hp : processArgsWith env' tmpl args (junk.start r) with
    | fail e t =>
      rw [hp] at hrel
      exact hrel.elim
    | ok t =>
      rw [hp] at hrel
      simp only [hrel.smooth.2, Bool.false_eq_true, if_false]
      exact hrel.rrd.symm

/-- **Splitting a bulk update.** For a file that comes from `rrd_create_r`, without seasonal RRAs
and without `NOW`, a list of values with absolute timestamps that one call takes leaves the same
file in two calls, at other times and with other working storage. -/
theorem split_update (hr : Reached r) (hs : r.NoSeasonal) (hn : r.NoNow) (tmplt : Option Text)
    (a b : List Text) {env₁ env₂ : Env} (h₁ : SameMeaning a env env₁) (h₂ : SameMeaning b env env₂)
    (junk junk₁ junk₂ : Upd) (h : rrdUpdateR env junk tmplt (a ++ b) r = .ok r') :
    (rrdUpdateR env₂ junk₂ tmplt b (rrdUpdateR env₁ junk₁ tmplt a r).state).state = r' := by
  have hl := hr.looksBack
  have hc := hr.clockFree hn
  simp only [rrdUpdateR] at h
  split_ifs at h
  cases htm : tmplIdxOf r tmplt with
  | error e => simp [htm] at h
  | ok tmpl =>
    simp only [htm] at h
    cases hp : processArgsWith env tmpl (a ++ b) (junk.start r) with
    | fail e t => simp [hp] at h
    | ok t =>
      simp only [hp] at h
      rw [processArgsWith_append] at hp
      obtain ⟨m, hm, ht⟩ := Outcome.andThen_eq_ok.mp hp
      -- the first call reaches the file in the middle
      have hfirst := rrdUpdateR_state_of hs hl hc h₁ htm (sameFile_start junk junk₁ r) hm
      have hmid := processArgsWith_alike env tmpl a hs hl (sameFile_start junk junk r)
      rw [hm] at hmid
      have hdefs : SameDefs r m.rrd := hmid.defs
      -- and the second one starts from there
      have hstart : SameFile m.rrd m (junk₂.start m.rrd) :=
        ⟨rfl, SameDefs.refl _, ⟨hmid.error.1, rfl⟩, ⟨hmid.smooth.1, rfl⟩⟩
      have htm' : tmplIdxOf m.rrd tmplt = .ok tmpl := (tmplIdxOf_congr hdefs tmplt).trans htm
      have hsecond := rrdUpdateR_state_of (hs.congr hdefs) (hl.congr hdefs) (hc.congr hdefs) h₂
        htm' hstart ht
      have hend := processArgsWith_alike env tmpl b (hs.congr hdefs) (hl.congr hdefs)
        (show SameFile m.rrd m m from ⟨rfl, SameDefs.refl _, ⟨hmid.error.1, hmid.error.1⟩,
          ⟨hmid.smooth.1, hmid.smooth.1⟩⟩)
      rw [ht] at hend
      rw [hfirst, hsecond, ← Outcome.ok.inj h, hend.smooth.1]
      rfl

/-- Five minutes later. -/
def Env.later : Env :=
  { Env.bare with
    lib := { Env.bare.lib with now := .num 1000000300 }
    now := (1000000300, 0) }

/-- Two values for the `GAUGE`, by template, in one call and in two. -/
theorem compute_split :
    let a : List Text := ["1200:5".toList]
    let b : List Text := ["1500:7".toList]
    let junk := Upd.blank newCompute
    let whole := rrdUpdateR .bare junk (some ['a']) (a ++ b) newCompute
    whole.isOk = true ∧
      (rrdUpdateR .later junk (some ['a']) b
        (rrdUpdateR .bare junk (some ['a']) a newCompute).state).state = whole.state := by
  intro a b junk whole
  have hok : whole.isOk = true := by decide +kernel
  have hs : newCompute.NoSeasonal := by
    intro i hi
    obtain rfl : i = 0 := Nat.lt_one_iff.mp hi
    rfl
  have hn : newCompute.NoNow := by
    have hall : ∀ i < 2, ∀ c ∈ (newCompute.dsDef i).cdef, c.op ≠ .now := by decide +kernel
    exact hall
  have h₁ : SameMeaning a .bare .bare := ⟨rfl, fun x hx => by
    obtain rfl := List.mem_singleton.mp hx
    exact absolute_of_number "1200".toList ['5'] (by decide) (by decide +kernel)⟩
  have h₂ : SameMeaning b .bare .later := ⟨rfl, fun x hx => by
    obtain rfl := List.mem_singleton.mp hx
    exact absolute_of_number "1500".toList ['7'] (by decide) (by decide +kernel)⟩
  exact ⟨hok, split_update (.create newCompute_created) hs hn (some ['a']) a b h₁ h₂ junk junk junk
    (Outcome.eq_ok_state hok)⟩

end Rrdtool
