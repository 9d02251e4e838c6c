import Rrdtool.Define
import Rrdtool.Lib.Loop

/-!
# Which archives `rrd_create_r` lets through

Later tools divide by the row and step counts of an archive and follow its index to another one
without a look. `RraDef.Usable` says what they rely on. `rrd_create_r` checks the counts, but it
compares an `xff` that may be NaN, cuts a seasonal period down to 16 bits before it divides by it,
multiplies two `unsigned long`s, and takes any index to another archive.

* `createsUsable_iff` — on arguments it does not refuse, `rrd_create_r` creates usable archives
  without dividing by zero if and only if the arguments are `Proper`;
* `hwpredict_names_average` — an accepted prediction that names an `AVERAGE` archive.
-/

namespace Rrdtool

open Loop

/-! ## Usable archives -/

/-- The CF an archive of CF `cf` has to depend on. -/
def Cf.dependsOn : Cf → Cf → Bool
  | .hwpredict, cf => cf = .seasonal
  | .mhwpredict, cf => cf = .seasonal
  | .seasonal, cf => cf.isHwpredict
  | .devseasonal, cf => cf.isHwpredict
  | .devpredict, cf => cf = .devseasonal
  | .failures, cf => cf = .devseasonal
  | _, _ => true

/-- Index `idx` designates, among archives with the CFs `cfs`, one that `cf` can depend on. -/
def Designates (cfs : List Cf) (cf : Cf) (idx : ℕ) : Prop :=
  ∃ c, cfs[idx]? = some c ∧ cf.dependsOn c = true

/-- A usable archive, among archives with the CFs `cfs`. -/
structure RraDef.Usable (cfs : List Cf) (r : RraDef) : Prop where
  pdpCnt : 1 ≤ r.pdpCnt
  rowCnt : 1 ≤ r.rowCnt
  xff : r.cf.isPlain = true → ∃ q, r.xffVal = .num q ∧ 0 ≤ q ∧ q < 1
  failures : r.cf = .failures → 1 ≤ r.failureThreshold ∧ r.failureThreshold ≤ r.windowLen ∧
    r.windowLen ≤ maxFailuresWindowLen
  dependent : r.cf.isPlain = false → Designates cfs r.cf r.dependentRraIdx

/-- `rrd_create_r` does not divide by zero, and all archives it creates are usable. -/
def CreatesUsable (hashedName pdpStep : ℕ) (args : List Text) : Prop :=
  rrdCreateR hashedName pdpStep args ≠ .error .divisionByZero ∧
    ∀ d, rrdCreateR hashedName pdpStep args = .ok d →
      ∀ r ∈ d.rras, r.Usable (d.rras.map RraDef.cf)

/-! ## Proper arguments -/

/-- The tokens of the `RRA` arguments. -/
def rraArgs (args : List Text) : List (List Text) :=
  args.filterMap fun arg =>
    match CStr.scanWord "DS:".toList arg with
    | some _ => none
    | none => (CStr.scanWord "RRA:".toList arg).map (CStr.strtok ':')

/-- The token that is the index of another archive: the sixth, or the one that the CF has. -/
def indexToken (cf : Cf) (tokens : List Text) : Option Text :=
  (tokens[5]?).or <|
    match cf with
    | .seasonal => tokens[3]?
    | .devseasonal => tokens[3]?
    | .devpredict => tokens[2]?
    | .failures => tokens[4]?
    | _ => none

/-- The index an archive at `idx` is given. Without a token a prediction gets its own, which
stands for the archives it brings with it, and any other CF gets minus one. -/
def dependentArg (cf : Cf) (idx : ℕ) (tokens : List Text) : ℕ :=
  match indexToken cf tokens with
  | some token => toUlong (CStr.atoi token - 1)
  | none => if cf.isHwpredict then idx else toUlong (-1)

/-- Does the archive bring the four archives it needs with it? -/
def bringsOthers (cf : Cf) (idx : ℕ) (tokens : List Text) : Bool :=
  cf.isHwpredict && decide (dependentArg cf idx tokens = idx)

/-- The CFs of the archives that an `RRA` argument at `idx` stands for. -/
def cfsOfArg (idx : ℕ) (tokens : List Text) : List Cf :=
  match rraCf (tokens.headD []) with
  | .error _ => []
  | .ok cf =>
    if bringsOthers cf idx tokens then [cf, .seasonal, .devseasonal, .devpredict, .failures]
    else [cf]

/-- The CFs of all archives, from index `idx` on. -/
def cfsFrom : ℕ → List (List Text) → List Cf
  | _, [] => []
  | idx, tokens :: rest =>
    cfsOfArg idx tokens ++ cfsFrom (idx + (cfsOfArg idx tokens).length) rest

/-- A proper `RRA` argument at `idx`, among archives with the CFs `cfs`: the `xff` is a number
and the product of the steps does not wrap to zero; a prediction has a period left after the cut
to 16 bits, or names a `SEASONAL` archive; every other index designates an archive of the CF it
is for. -/
def ProperArg (pdpStep : ℕ) (cfs : List Cf) (idx : ℕ) (tokens : List Text) : Prop :=
  ∀ cf, rraCf (tokens.headD []) = .ok cf →
    if cf.isPlain then
      (CStr.atof (tokens.getD 1 [])).isnan = false ∧
        pdpStep * (CStr.atoi (tokens.getD 2 [])).toNat % 2 ^ 64 ≠ 0
    else if bringsOthers cf idx tokens then CStr.atoi (tokens.getD 4 []) % 2 ^ 16 ≠ 0
    else Designates cfs cf (dependentArg cf idx tokens)

/-- Proper arguments from index `idx` on. -/
def ProperFrom (pdpStep : ℕ) (cfs : List Cf) : ℕ → List (List Text) → Prop
  | _, [] => True
  | idx, tokens :: rest =>
    ProperArg pdpStep cfs idx tokens ∧
      ProperFrom pdpStep cfs (idx + (cfsOfArg idx tokens).length) rest

/-- **Proper arguments** of `rrd_create_r`. -/
def Proper (pdpStep : ℕ) (args : List Text) : Prop :=
  ProperFrom pdpStep (cfsFrom 0 (rraArgs args)) 0 (rraArgs args)

/-! ## One archive -/

/-- What is known of an archive of CF `cf` at `idx` after the tokens `seen`. -/
structure Seen (cf : Cf) (idx : ℕ) (seen : List Text) (s : RraSt) : Prop where
  same : s.rra.cf = cf
  rowCnt : (if cf.isPlain then 4 else 2) ≤ seen.length → 0 < s.rra.rowCnt ∧ s.rra.rowCnt < 2 ^ 31
  pdpCnt : 0 < s.rra.pdpCnt ∧ (cf.isPlain = false → s.rra.pdpCnt = 1)
  steps : cf.isPlain = true → 3 ≤ seen.length →
    s.rra.pdpCnt = (CStr.atoi (seen.getD 2 [])).toNat
  xff : cf.isPlain = true → 2 ≤ seen.length → s.rra.xffVal = CStr.atof (seen.getD 1 []) ∧
    s.rra.xffVal.lt (.num 0) = false ∧ Dbl.le (.num 1) s.rra.xffVal = false
  threshold : cf = .failures → 3 ≤ seen.length → 1 ≤ s.rra.failureThreshold
  window : cf = .failures → 4 ≤ seen.length → s.rra.failureThreshold ≤ s.rra.windowLen ∧
    s.rra.windowLen ≤ maxFailuresWindowLen
  dependent : cf.isPlain = false → s.rra.dependentRraIdx = dependentArg cf idx seen
  period : cf.isHwpredict = true → 5 ≤ seen.length →
    s.period = (CStr.atoi (seen.getD 4 []) % 2 ^ 16).toNat

variable {cf : Cf} {idx hashedName pdpStep : ℕ} {s s' : RraSt}

theorem seen_default (cf : Cf) (idx version period : ℕ) (token : Text) :
    Seen cf idx [token] ⟨rraDefault idx cf, version, period⟩ := by
  constructor <;> cases cf <;>
    simp [rraDefault, Cf.isPlain, Cf.isHwpredict, dependentArg, indexToken]

theorem atoi_lt (token : Text) : CStr.atoi token < 2 ^ 31 := by
  have h := Int.bmod_lt (x := ((CStr.scanLong token).map Prod.fst).getD 0) (m := 2 ^ 32) (by decide)
  simp only [CStr.atoi]
  omega

theorem setRowCnt_eq_ok {token : Text} (h : setRowCnt token s = .ok s') :
    ∃ n, 0 < n ∧ n < 2 ^ 31 ∧ s' = { s with rra.rowCnt := n } := by
  have hlt := atoi_lt token
  simp only [setRowCnt] at h
  split_ifs at h with hpos
  obtain rfl := Except.ok.inj h
  exact ⟨(CStr.atoi token).toNat, by omega, by omega, rfl⟩

theorem seen_token1 {a b : Text} (h : Seen cf idx [a] s) (hs : rraToken1 b s = .ok s') :
    Seen cf idx [a, b] s' := by
  obtain ⟨hcf, -, hpdp, -, -, -, -, hdep, -⟩ := h
  simp only [rraToken1, hcf] at hs
  split_ifs at hs with hplain hxff
  · obtain rfl := Except.ok.inj hs
    simp only [Bool.or_eq_true, not_or, Bool.not_eq_true] at hxff
    exact ⟨rfl, by simp [hplain], hpdp, by simp, fun _ _ => ⟨rfl, hxff⟩, by simp, by simp,
      by simp [hplain], by simp⟩
  · obtain ⟨n, hpos, hlt, rfl⟩ := setRowCnt_eq_ok hs
    refine ⟨hcf, fun _ => ⟨hpos, hlt⟩, hpdp, by simp, by simp [hplain], by simp, by simp,
      fun hp => ?_, by simp⟩
    rw [hdep hp]
    cases cf <;> rfl

theorem seen_token2 {a b c : Text} (h : Seen cf idx [a, b] s)
    (hs : rraToken2 hashedName c s = .ok s') : Seen cf idx [a, b, c] s' := by
  obtain ⟨hcf, hrow, hpdp, -, hxff, -, -, hdep, -⟩ := h
  cases cf <;> simp only [rraToken2, hcf] at hs
  case average | minimum | maximum | last =>
    split_ifs at hs with hstep
    obtain rfl := Except.ok.inj hs
    exact ⟨rfl, by simp [Cf.isPlain], ⟨by dsimp only; omega, nofun⟩, fun _ _ => rfl,
      fun _ _ => hxff rfl le_rfl, nofun, nofun, nofun, nofun⟩
  case hwpredict | mhwpredict =>
    split_ifs at hs
    obtain rfl := Except.ok.inj hs
    exact ⟨rfl, fun _ => hrow le_rfl, hpdp, nofun, nofun, nofun, nofun, hdep, by simp⟩
  case seasonal | devseasonal =>
    obtain ⟨n, -, hs⟩ := bind_eq_ok.mp hs
    split_ifs at hs
    obtain rfl := Except.ok.inj hs
    exact ⟨rfl, fun _ => hrow le_rfl, hpdp, nofun, nofun, nofun, nofun, hdep, nofun⟩
  case devpredict =>
    obtain rfl := Except.ok.inj hs
    exact ⟨hcf, fun _ => hrow le_rfl, hpdp, nofun, nofun, nofun, nofun, fun _ => rfl, nofun⟩
  case failures =>
    split_ifs at hs with hrange
    obtain rfl := Except.ok.inj hs
    exact ⟨rfl, fun _ => hrow le_rfl, hpdp, nofun, nofun, fun _ _ => by dsimp only; omega,
      by simp, hdep, nofun⟩

theorem seen_token3 {a b c d : Text} (h : Seen cf idx [a, b, c] s)
    (hs : rraToken3 d s = .ok s') : Seen cf idx [a, b, c, d] s' := by
  obtain ⟨hcf, hrow, hpdp, hsteps, hxff, hthr, -, hdep, -⟩ := h
  cases cf <;> simp only [rraToken3, hcf] at hs
  case average | minimum | maximum | last =>
    obtain ⟨n, hpos, hlt, rfl⟩ := setRowCnt_eq_ok hs
    exact ⟨hcf, fun _ => ⟨hpos, hlt⟩, hpdp, fun _ _ => hsteps rfl le_rfl,
      fun _ _ => hxff rfl (by simp), nofun, nofun, nofun, nofun⟩
  case hwpredict | mhwpredict =>
    split_ifs at hs
    obtain rfl := Except.ok.inj hs
    exact ⟨rfl, fun _ => hrow (by simp [Cf.isPlain]), hpdp, nofun, nofun, nofun, nofun, hdep,
      by simp⟩
  case seasonal | devseasonal =>
    obtain rfl := Except.ok.inj hs
    exact ⟨hcf, fun _ => hrow (by simp [Cf.isPlain]), hpdp, nofun, nofun, nofun, nofun,
      fun _ => rfl, nofun⟩
  case devpredict => exact absurd hs (by simp)
  case failures =>
    split_ifs at hs with hrange hshort
    obtain rfl := Except.ok.inj hs
    refine ⟨rfl, fun _ => hrow (by simp [Cf.isPlain]), hpdp, nofun, nofun,
      fun _ _ => hthr rfl le_rfl, fun _ _ => ⟨?_, ?_⟩, hdep, nofun⟩
    · simp only [RraDef.windowLen]
      omega
    · simp only [RraDef.windowLen]
      omega

theorem seen_token4 {a b c d e : Text} (h : Seen cf idx [a, b, c, d] s)
    (hs : rraToken4 e s = .ok s') : Seen cf idx [a, b, c, d, e] s' := by
  obtain ⟨hcf, hrow, hpdp, hsteps, hxff, hthr, hwin, hdep, -⟩ := h
  cases cf <;> simp only [rraToken4, hcf] at hs
  case average | minimum | maximum | last | devpredict => exact absurd hs (by simp)
  case hwpredict | mhwpredict =>
    split_ifs at hs
    obtain rfl := Except.ok.inj hs
    exact ⟨hcf, fun _ => hrow (by simp [Cf.isPlain]), hpdp, nofun, nofun, nofun, nofun, hdep,
      fun _ _ => rfl⟩
  case seasonal | devseasonal =>
    cases hv : scanSmoothingWindow s.rra.hwBeta e with
    | none => exact absurd hs (by simp [hv])
    | some v =>
      simp only [hv] at hs
      split_ifs at hs
      obtain rfl := Except.ok.inj hs
      exact ⟨rfl, fun _ => hrow (by simp [Cf.isPlain]), hpdp, nofun, nofun, nofun, nofun, hdep,
        nofun⟩
  case failures =>
    obtain rfl := Except.ok.inj hs
    exact ⟨hcf, fun _ => hrow (by simp [Cf.isPlain]), hpdp, nofun, nofun,
      fun _ _ => hthr rfl (by simp), fun _ _ => hwin rfl le_rfl, fun _ => rfl, nofun⟩

/-- No plain CF and no `DEVPREDICT` gets here. -/
theorem seen_token5 {a b c d e f : Text} (h : Seen cf idx [a, b, c, d, e] s) :
    Seen cf idx [a, b, c, d, e, f] (setDependentIdx f s) := by
  obtain ⟨hcf, hrow, hpdp, hsteps, hxff, hthr, hwin, -, hper⟩ := h
  have hrow' : (if cf.isPlain then 4 else 2) ≤ 5 := by split_ifs <;> simp
  exact ⟨hcf, fun _ => hrow hrow', hpdp, fun hp _ => hsteps hp (by simp),
    fun hp _ => hxff hp (by simp), fun hf _ => hthr hf (by simp), fun hf _ => hwin hf (by simp),
    fun _ => rfl, fun hp _ => hper hp le_rfl⟩

/-- **The token loop** of an archive. -/
theorem seen_tokens {a : Text} {rest : List Text} (h : Seen cf idx [a] s)
    (hs : rraTokens hashedName 1 rest s = .ok s') : Seen cf idx (a :: rest) s' := by
  rcases rest with _ | ⟨b, rest⟩
  · obtain rfl := Except.ok.inj hs
    exact h
  obtain ⟨s₁, h₁, hs⟩ := bind_eq_ok.mp hs
  replace h := seen_token1 h h₁
  rcases rest with _ | ⟨c, rest⟩
  · obtain rfl := Except.ok.inj hs
    exact h
  obtain ⟨s₂, h₂, hs⟩ := bind_eq_ok.mp hs
  replace h := seen_token2 h h₂
  rcases rest with _ | ⟨d, rest⟩
  · obtain rfl := Except.ok.inj hs
    exact h
  obtain ⟨s₃, h₃, hs⟩ := bind_eq_ok.mp hs
  replace h := seen_token3 h h₃
  rcases rest with _ | ⟨e, rest⟩
  · obtain rfl := Except.ok.inj hs
    exact h
  obtain ⟨s₄, h₄, hs⟩ := bind_eq_ok.mp hs
  replace h := seen_token4 h h₄
  rcases rest with _ | ⟨f, rest⟩
  · obtain rfl := Except.ok.inj hs
    exact h
  obtain ⟨s₅, h₅, hs⟩ := bind_eq_ok.mp hs
  obtain rfl := Except.ok.inj h₅
  replace h := seen_token5 (f := f) h
  rcases rest with _ | ⟨g, rest⟩
  · obtain rfl := Except.ok.inj hs
    exact h
  · obtain ⟨s₆, h₆, -⟩ := bind_eq_ok.mp hs
    exact absurd h₆ (by simp [rraToken])

/-- **An `RRA` argument that is read**: what is known after its last token. -/
theorem parseRra_seen {version period : ℕ} {tokens : List Text}
    (h : parseRra hashedName idx version period tokens = .ok s) :
    ∃ cf, rraCf (tokens.headD []) = .ok cf ∧ tokenMin cf ≤ tokens.length ∧
      Seen cf idx tokens s := by
  cases tokens with
  | nil => exact absurd h (by simp [parseRra])
  | cons token rest =>
    obtain ⟨cf, hcf, h⟩ := bind_eq_ok.mp h
    obtain ⟨s₁, hs, h⟩ := bind_eq_ok.mp h
    split_ifs at h with hmin
    obtain rfl := Except.ok.inj h
    exact ⟨cf, hcf, not_lt.mp hmin, seen_tokens (seen_default cf idx _ _ token) hs⟩

/-- A row count has been read before anything is divided by it. -/
theorem rraToken2_error {a b c : Text} (h : Seen cf idx [a, b] s) :
    rraToken2 hashedName c s ≠ .error .divisionByZero := by
  have hcf := h.same
  cases cf <;> simp only [rraToken2, hcf]
  case seasonal | devseasonal =>
    have hrow := (h.rowCnt le_rfl).1
    simp only [checkedMod, hrow.ne', if_false, Except.bind]
    split_ifs <;> simp
  all_goals (try split_ifs) <;> simp

theorem rraToken1_error {b : Text} : rraToken1 b s ≠ .error .divisionByZero := by
  simp only [rraToken1, setRowCnt]
  split_ifs <;> simp

theorem rraToken3_error {b : Text} : rraToken3 b s ≠ .error .divisionByZero := by
  simp only [rraToken3, setRowCnt]
  cases s.rra.cf <;> dsimp only <;> (try split_ifs) <;> simp

theorem rraToken4_error {b : Text} : rraToken4 b s ≠ .error .divisionByZero := by
  simp only [rraToken4]
  cases s.rra.cf <;> simp only []
  case seasonal | devseasonal =>
    cases scanSmoothingWindow s.rra.hwBeta b with
    | none => simp
    | some v =>
      simp only []
      split_ifs <;> simp
  all_goals (try split_ifs) <;> simp

/-- Behind the second token nothing is divided by. -/
theorem rraTokens_error {k : ℕ} (hk : 3 ≤ k) (tokens : List Text) (s : RraSt) :
    rraTokens hashedName k tokens s ≠ .error .divisionByZero := by
  induction tokens generalizing k s with
  | nil => simp [rraTokens]
  | cons t tokens ih =>
    intro h
    rcases bind_eq_error.mp h with h | ⟨s', -, h⟩
    · match k, hk with
      | 3, _ => exact rraToken3_error h
      | 4, _ => exact rraToken4_error h
      | 5, _ => exact absurd h (by simp [rraToken])
      | k + 6, _ => exact absurd h (by simp [rraToken])
    · exact ih (by omega) s' h

theorem rraCf_error {token : Text} : rraCf token ≠ .error .divisionByZero := by
  simp only [rraCf]
  cases CStr.scanSet 19 CStr.isupper token with
  | none => simp
  | some p =>
    simp only []
    cases cfConv p.1 <;> simp

theorem parseRra_error {version period : ℕ} {tokens : List Text} :
    parseRra hashedName idx version period tokens ≠ .error .divisionByZero := by
  cases tokens with
  | nil => simp [parseRra]
  | cons token rest =>
    intro h
    rcases bind_eq_error.mp h with h | ⟨cf, -, h⟩
    · exact rraCf_error h
    rcases bind_eq_error.mp h with h | ⟨s, -, h⟩
    · have hseen := seen_default cf idx (if cf = .mhwpredict then 4 else version) period token
      rcases rest with _ | ⟨b, rest⟩
      · exact absurd h (by simp [rraTokens])
      rcases bind_eq_error.mp h with h | ⟨s₁, h₁, h⟩
      · exact rraToken1_error h
      rcases rest with _ | ⟨c, rest⟩
      · exact absurd h (by simp [rraTokens])
      rcases bind_eq_error.mp h with h | ⟨s₂, -, h⟩
      · exact rraToken2_error (seen_token1 hseen h₁) h
      · exact rraTokens_error le_rfl rest s₂ h
    · split_ifs at h
      exact absurd h (by simp)

/-! ## The archives of one argument -/

/-- The archives of a list stand at `idx` among archives with the CFs `cfs`. -/
def Placed (cfs : List Cf) (idx : ℕ) (block : List Cf) : Prop :=
  ∀ k, k < block.length → cfs[idx + k]? = block[k]?

theorem Placed.append {cfs a b : List Cf} (h : Placed cfs idx (a ++ b)) :
    Placed cfs idx a ∧ Placed cfs (idx + a.length) b := by
  constructor
  · intro k hk
    rw [h k (by simp; omega), List.getElem?_append_left hk]
  · intro k hk
    rw [Nat.add_assoc, h (a.length + k) (by simp; omega), List.getElem?_append_right (by omega)]
    congr 1
    omega

/-- A usable archive whose steps do not multiply to zero. -/
def Fit (pdpStep : ℕ) (cfs : List Cf) (r : RraDef) : Prop :=
  r.Usable cfs ∧ pdpStep * r.pdpCnt % 2 ^ 64 ≠ 0

/-- A step that is an `unsigned long`. -/
def StepOk (pdpStep : ℕ) : Prop := 0 < pdpStep ∧ pdpStep < 2 ^ 64

theorem StepOk.mul_one (h : StepOk pdpStep) : pdpStep * 1 % 2 ^ 64 ≠ 0 := by
  rw [Nat.mul_one, Nat.mod_eq_of_lt h.2]
  exact h.1.ne'

theorem xff_unit {v : RrdValue} (h0 : v.lt (.num 0) = false) (h1 : Dbl.le (.num 1) v = false) :
    (∃ q, v = .num q ∧ 0 ≤ q ∧ q < 1) ↔ v.isnan = false := by
  cases v with
  | nan => simp
  | neginf => simp at h0
  | inf => simp [Dbl.le] at h1
  | num q =>
    simp only [Dbl.num_lt, decide_eq_false_iff_not, not_lt] at h0
    simp only [Dbl.num_le, decide_eq_false_iff_not, not_le] at h1
    simp [h0, h1]

theorem properArg_iff {cfs : List Cf} {tokens : List Text}
    (hcf : rraCf (tokens.headD []) = .ok cf) :
    ProperArg pdpStep cfs idx tokens ↔
      if cf.isPlain then
        (CStr.atof (tokens.getD 1 [])).isnan = false ∧
          pdpStep * (CStr.atoi (tokens.getD 2 [])).toNat % 2 ^ 64 ≠ 0
      else if bringsOthers cf idx tokens then CStr.atoi (tokens.getD 4 []) % 2 ^ 16 ≠ 0
      else Designates cfs cf (dependentArg cf idx tokens) := by
  refine ⟨fun h => h cf hcf, fun h cf' hcf' => ?_⟩
  obtain rfl := Except.ok.inj (hcf.symm.trans hcf')
  exact h

instance (cfs : List Cf) (cf : Cf) (idx : ℕ) : Decidable (Designates cfs cf idx) :=
  decidable_of_iff ((cfs[idx]?).any cf.dependsOn = true) (Option.any_eq_true _ _)

instance (pdpStep : ℕ) (cfs : List Cf) (idx : ℕ) (tokens : List Text) :
    Decidable (ProperArg pdpStep cfs idx tokens) :=
  match h : rraCf (tokens.headD []) with
  | .ok _ => decidable_of_iff _ (properArg_iff h).symm
  | .error _ => isTrue fun _ h' => absurd (h.symm.trans h') (by simp)

instance ProperFrom.decidable (pdpStep : ℕ) (cfs : List Cf) :
    (idx : ℕ) → (args : List (List Text)) → Decidable (ProperFrom pdpStep cfs idx args)
  | _, [] => isTrue trivial
  | idx, tokens :: rest =>
    have := ProperFrom.decidable pdpStep cfs (idx + (cfsOfArg idx tokens).length) rest
    inferInstanceAs (Decidable (_ ∧ _))

instance (pdpStep : ℕ) (args : List Text) : Decidable (Proper pdpStep args) :=
  inferInstanceAs (Decidable (ProperFrom _ _ _ _))

/-- An archive that stands for itself. -/
theorem single_fit_iff {cfs : List Cf} {tokens : List Text} (hstep : StepOk pdpStep)
    (hcf : rraCf (tokens.headD []) = .ok cf) (hmin : tokenMin cf ≤ tokens.length)
    (h : Seen cf idx tokens s) (hb : bringsOthers cf idx tokens = false) :
    Fit pdpStep cfs s.rra ↔ ProperArg pdpStep cfs idx tokens := by
  obtain ⟨rfl, hrow, hpdp, hsteps, hxff, hthr, hwin, hdep, -⟩ := h
  have hcount : (if s.rra.cf.isPlain then 4 else 2) ≤ tokens.length := by
    revert hmin
    cases s.rra.cf <;> simp [tokenMin, Cf.isPlain] <;> omega
  rw [properArg_iff hcf]
  by_cases hp : s.rra.cf.isPlain = true
  · rw [if_pos hp]
    have hlen : 4 ≤ tokens.length := by simpa [hp] using hcount
    obtain ⟨hv, h0, h1⟩ := hxff hp (by omega)
    rw [← hv, ← hsteps hp (by omega), ← xff_unit h0 h1]
    constructor
    · exact fun ⟨hu, hm⟩ => ⟨hu.xff hp, hm⟩
    · refine fun ⟨hx, hm⟩ => ⟨⟨hpdp.1, (hrow hcount).1, fun _ => hx, ?_, ?_⟩, hm⟩
      · exact fun hf => absurd hp (by simp [hf, Cf.isPlain])
      · exact fun hn => absurd hp (by simp [hn])
  · have hp' : s.rra.cf.isPlain = false := by simpa using hp
    rw [if_neg hp, if_neg (by simp [hb]), ← hdep hp']
    constructor
    · exact fun ⟨hu, _⟩ => hu.dependent hp'
    · refine fun hd => ⟨⟨hpdp.1, (hrow hcount).1, fun h => absurd h hp, fun hf => ?_, fun _ => hd⟩,
        ?_⟩
      · have hlen : 5 ≤ tokens.length := by simpa [hf, tokenMin] using hmin
        exact ⟨hthr hf (by omega), hwin hf (by omega)⟩
      · rw [hpdp.2 hp']
        exact hstep.mul_one

theorem isHwpredict_cases (h : cf.isHwpredict = true) : cf = .hwpredict ∨ cf = .mhwpredict := by
  cases cf <;> simp_all [Cf.isHwpredict]

/-- A prediction has at least five tokens. -/
theorem isHwpredict_facts (h : cf.isHwpredict = true) :
    cf.isPlain = false ∧ tokenMin cf = 5 ∧ cf.dependsOn .seasonal = true ∧ cf ≠ .failures := by
  obtain rfl | rfl := isHwpredict_cases h <;> exact ⟨rfl, rfl, rfl, nofun⟩

/-- A prediction with the archives it brings along. -/
theorem contingent_fit {cfs : List Cf} {tokens : List Text} {rras : List RraDef}
    (hstep : StepOk pdpStep) (hmin : tokenMin cf ≤ tokens.length) (h : Seen cf idx tokens s)
    (hhw : cf.isHwpredict = true) (hrras : createHwContingentRras hashedName s.period idx s.rra = .ok rras)
    (hp : Placed cfs idx [cf, .seasonal, .devseasonal, .devpredict, .failures]) :
    ∀ r ∈ rras, Fit pdpStep cfs r := by
  obtain ⟨n, hn, hrras⟩ := bind_eq_ok.mp hrras
  obtain rfl := Except.ok.inj hrras
  obtain ⟨hplain, hfive, hdep, hne⟩ := isHwpredict_facts hhw
  have hperiod : 0 < s.period := by
    simp only [checkedMod] at hn
    split_ifs at hn
    omega
  have hrow : 0 < s.rra.rowCnt := (h.rowCnt (by rw [hplain, if_neg (by simp)]; omega)).1
  have h0 : cfs[idx]? = some cf := hp 0 (by simp)
  have h1 : cfs[idx + 1]? = some .seasonal := hp 1 (by simp)
  have h2 : cfs[idx + 2]? = some .devseasonal := hp 2 (by simp)
  have hcf := h.same
  have hpdp := h.pdpCnt.2 hplain
  intro r hr
  simp only [List.mem_cons, List.not_mem_nil, or_false] at hr
  obtain rfl | rfl | rfl | rfl | rfl := hr
  · refine ⟨⟨h.pdpCnt.1, hrow, ?_, ?_, fun _ => ⟨_, h1, ?_⟩⟩, by rw [hpdp]; exact hstep.mul_one⟩
    · exact fun hx => absurd hx (by simp [hcf, hplain])
    · exact fun hf => absurd (hcf.symm.trans hf) hne
    · rw [hcf]
      exact hdep
  · exact ⟨⟨le_rfl, hperiod, nofun, nofun, fun _ => ⟨_, h0, hhw⟩⟩, hstep.mul_one⟩
  · exact ⟨⟨le_rfl, hperiod, nofun, nofun, fun _ => ⟨_, h0, hhw⟩⟩, hstep.mul_one⟩
  · exact ⟨⟨le_rfl, hrow, nofun, nofun, fun _ => ⟨_, h2, rfl⟩⟩, hstep.mul_one⟩
  · exact ⟨⟨le_rfl, hperiod, nofun, fun _ => by simp [maxFailuresWindowLen, RraDef.windowLen],
      fun _ => ⟨_, h2, rfl⟩⟩, hstep.mul_one⟩

/-- **The archives of one `RRA` argument**: they are fit where the argument is proper. -/
theorem arg_fit_iff {version period : ℕ} {tokens : List Text} {rras : List RraDef}
    (hstep : StepOk pdpStep) (hs : parseRra hashedName idx version period tokens = .ok s)
    (hrras : contingentRras hashedName idx s = .ok rras) :
    rras.map RraDef.cf = cfsOfArg idx tokens ∧
      ∀ cfs, Placed cfs idx (cfsOfArg idx tokens) →
        ((∀ r ∈ rras, Fit pdpStep cfs r) ↔ ProperArg pdpStep cfs idx tokens) := by
  obtain ⟨cf, hcf, hmin, hseen⟩ := parseRra_seen hs
  have hcfs : cfsOfArg idx tokens =
      if bringsOthers cf idx tokens then [cf, .seasonal, .devseasonal, .devpredict, .failures]
      else [cf] := by
    simp only [cfsOfArg, hcf]
  simp only [contingentRras, hseen.same] at hrras
  rw [hcfs]
  split_ifs at hrras with hb
  · obtain ⟨hplain, hfive, -, -⟩ := isHwpredict_facts hb.1
    have hdep := hseen.dependent hplain
    have hbrings : bringsOthers cf idx tokens = true := by
      simp [bringsOthers, hb.1, ← hdep, hb.2]
    have hper := hseen.period hb.1 (hfive ▸ hmin)
    rw [if_pos hbrings]
    refine ⟨?_, fun cfs hp => ?_⟩
    · obtain ⟨n, -, hr⟩ := bind_eq_ok.mp hrras
      obtain rfl := Except.ok.inj hr
      simp [hseen.same]
    · have hfit := contingent_fit hstep hmin hseen hb.1 hrras hp
      rw [properArg_iff hcf, if_neg (by simp [hplain]), if_pos hbrings]
      refine ⟨fun _ hz => ?_, fun _ => hfit⟩
      obtain ⟨n, hn, -⟩ := bind_eq_ok.mp hrras
      simp only [checkedMod, hper, hz] at hn
      exact absurd hn (by simp)
  · obtain rfl := Except.ok.inj hrras
    have hbrings : bringsOthers cf idx tokens = false := by
      cases hhw : cf.isHwpredict
      · simp [bringsOthers, hhw]
      · have hdep := hseen.dependent (isHwpredict_facts hhw).1
        have : s.rra.dependentRraIdx ≠ idx := fun h => hb ⟨hhw, h⟩
        simp [bringsOthers, ← hdep, this]
    rw [if_neg (by simp [hbrings])]
    refine ⟨by simp [hseen.same], fun cfs _ => ?_⟩
    simp only [List.mem_singleton, forall_eq]
    exact single_fit_iff hstep hcf hmin hseen hbrings

/-- What `rrd_create_r` checks of every archive. -/
structure RraDef.Checked (r : RraDef) : Prop where
  rowCnt_pos : 0 < r.rowCnt
  rowCnt_lt : r.rowCnt < 2 ^ 31
  pdpCnt_pos : 0 < r.pdpCnt
  pdpCnt_one : r.cf.isPlain = false → r.pdpCnt = 1
  failures : r.cf = .failures → r.failureThreshold ≤ r.windowLen

theorem arg_checked {version period : ℕ} {tokens : List Text} {rras : List RraDef}
    (hs : parseRra hashedName idx version period tokens = .ok s)
    (hrras : contingentRras hashedName idx s = .ok rras) : ∀ r ∈ rras, r.Checked := by
  obtain ⟨cf, -, hmin, hseen⟩ := parseRra_seen hs
  have hcount : (if cf.isPlain then 4 else 2) ≤ tokens.length := by
    revert hmin
    cases cf <;> simp [tokenMin, Cf.isPlain] <;> omega
  obtain ⟨hrow, hlt⟩ := hseen.rowCnt hcount
  have hpdp : s.rra.cf.isPlain = false → s.rra.pdpCnt = 1 := hseen.same ▸ hseen.pdpCnt.2
  have hfail : s.rra.cf = .failures → s.rra.failureThreshold ≤ s.rra.windowLen := by
    intro hf
    obtain rfl : cf = .failures := hseen.same.symm.trans hf
    have hlen : 5 ≤ tokens.length := hmin
    exact (hseen.window rfl (by omega)).1
  simp only [contingentRras, hseen.same] at hrras
  split_ifs at hrras with hb
  · obtain ⟨-, hfive, -, -⟩ := isHwpredict_facts hb.1
    have hper := hseen.period hb.1 (hfive ▸ hmin)
    obtain ⟨n, hn, hrras⟩ := bind_eq_ok.mp hrras
    have hpos : 0 < s.period := by
      simp only [checkedMod] at hn
      split_ifs at hn
      omega
    obtain rfl := Except.ok.inj hrras
    intro r hr
    simp only [List.mem_cons, List.not_mem_nil, or_false] at hr
    obtain rfl | rfl | rfl | rfl | rfl := hr
    · exact ⟨hrow, hlt, hseen.pdpCnt.1, hpdp, hfail⟩
    · exact ⟨hpos, by dsimp only; omega, Nat.one_pos, fun _ => rfl, nofun⟩
    · exact ⟨hpos, by dsimp only; omega, Nat.one_pos, fun _ => rfl, nofun⟩
    · exact ⟨hrow, hlt, Nat.one_pos, fun _ => rfl, nofun⟩
    · exact ⟨hpos, by dsimp only; omega, Nat.one_pos, fun _ => rfl,
        fun _ => by simp [RraDef.windowLen]⟩
  · obtain rfl := Except.ok.inj hrras
    simp only [List.mem_singleton, forall_eq]
    exact ⟨hrow, hlt, hseen.pdpCnt.1, hpdp, hfail⟩

/-! ## The argument loop -/

variable {args : List Text} {arg : Text} {d d' : Defs}

/-- What one argument can add. -/
theorem createArg_eq_ok (h : createArg hashedName arg d = .ok d') :
    (∃ rest def_, CStr.scanWord "DS:".toList arg = some rest ∧ parseDsArg d.ds rest = .ok def_ ∧
      d' = { d with ds := d.ds ++ [def_] }) ∨
    ∃ rest s rras, CStr.scanWord "DS:".toList arg = none ∧
      CStr.scanWord "RRA:".toList arg = some rest ∧
      parseRra hashedName d.rras.length d.version d.period (CStr.strtok ':' rest) = .ok s ∧
      contingentRras hashedName d.rras.length s = .ok rras ∧
      d' = { d with version := s.version, rras := d.rras ++ rras, period := s.period } := by
  simp only [createArg] at h
  cases hds : CStr.scanWord "DS:".toList arg with
  | some rest =>
    simp only [hds] at h
    obtain ⟨def_, hdef, rfl⟩ := map_eq_ok.mp h
    exact .inl ⟨rest, def_, rfl, hdef, rfl⟩
  | none =>
    simp only [hds] at h
    cases hrra : CStr.scanWord "RRA:".toList arg with
    | none => simp only [hrra, reduceCtorEq] at h
    | some rest =>
      simp only [hrra] at h
      obtain ⟨s, hs, h⟩ := bind_eq_ok.mp h
      obtain ⟨rras, hrras, rfl⟩ := map_eq_ok.mp h
      exact .inr ⟨rest, s, rras, rfl, rfl, hs, hrras, rfl⟩

theorem parseDsPar_error {ds : List DsDef} {dst : Dst} {rest : Text} :
    parseDsPar ds dst rest ≠ .error .divisionByZero := by
  simp only [parseDsPar]
  split_ifs
  · cases parseCdefDs (lookupDs ds) rest <;> simp
  · simp only [parseGenericDs]
    split
    · simp
    · split_ifs <;> simp

theorem parseDsArg_error {ds : List DsDef} {rest : Text} :
    parseDsArg ds rest ≠ .error .divisionByZero := by
  simp only [parseDsArg]
  split
  · split_ifs <;> simp
  · split
    · simp
    · split
      · simp
      · split_ifs
        · simp
        · split
          · simp
          · rw [ne_eq, map_eq_error]
            exact parseDsPar_error

/-- An argument that divides by zero is an `RRA` argument that has been read. -/
theorem createArg_eq_error (h : createArg hashedName arg d = .error .divisionByZero) :
    ∃ rest s, CStr.scanWord "DS:".toList arg = none ∧
      CStr.scanWord "RRA:".toList arg = some rest ∧
      parseRra hashedName d.rras.length d.version d.period (CStr.strtok ':' rest) = .ok s ∧
      contingentRras hashedName d.rras.length s = .error .divisionByZero := by
  simp only [createArg] at h
  cases hds : CStr.scanWord "DS:".toList arg with
  | some rest =>
    simp only [hds] at h
    exact absurd (map_eq_error.mp h) parseDsArg_error
  | none =>
    simp only [hds] at h
    cases hrra : CStr.scanWord "RRA:".toList arg with
    | none =>
      simp only [hrra, Except.error.injEq] at h
      exact absurd h (by simp)
    | some rest =>
      simp only [hrra] at h
      rcases bind_eq_error.mp h with h | ⟨s, hs, h⟩
      · exact absurd h parseRra_error
      · exact ⟨rest, s, rfl, rfl, hs, map_eq_error.mp h⟩

theorem rraArgs_ds {rest : Text} (h : CStr.scanWord "DS:".toList arg = some rest) :
    rraArgs (arg :: args) = rraArgs args := by
  simp only [rraArgs, List.filterMap_cons, h]

theorem rraArgs_rra {rest : Text} (hds : CStr.scanWord "DS:".toList arg = none)
    (h : CStr.scanWord "RRA:".toList arg = some rest) :
    rraArgs (arg :: args) = CStr.strtok ':' rest :: rraArgs args := by
  simp only [rraArgs, List.filterMap_cons, hds, h, Option.map_some]

/-- **The argument loop**: the archives it adds have the CFs that can be read off the arguments,
and they are fit where the arguments are proper. -/
theorem createArgs_fit_iff (hstep : StepOk pdpStep) (h : createArgs hashedName args d = .ok d') :
    ∃ new, d'.rras = d.rras ++ new ∧ (∀ r ∈ new, r.Checked) ∧
      new.map RraDef.cf = cfsFrom d.rras.length (rraArgs args) ∧
      ∀ cfs, Placed cfs d.rras.length (cfsFrom d.rras.length (rraArgs args)) →
        ((∀ r ∈ new, Fit pdpStep cfs r) ↔
          ProperFrom pdpStep cfs d.rras.length (rraArgs args)) := by
  induction args generalizing d with
  | nil =>
    obtain rfl := Except.ok.inj h
    exact ⟨[], by simp, by simp, rfl, fun cfs _ => by simp [rraArgs, ProperFrom]⟩
  | cons arg args ih =>
    obtain ⟨d₁, h₁, h⟩ := bind_eq_ok.mp h
    rcases createArg_eq_ok h₁ with ⟨rest, def_, hds, -, rfl⟩ |
      ⟨rest, s, rras, hds, hrra, hs, hrras, rfl⟩
    · rw [rraArgs_ds hds]
      have hrest := ih h
      exact hrest
    · obtain ⟨new, hnew, hchk, hcfs, hiff⟩ := ih h
      obtain ⟨hblock, hfit⟩ := arg_fit_iff hstep hs hrras
      have hlen : (d.rras ++ rras).length =
          d.rras.length + (cfsOfArg d.rras.length (CStr.strtok ':' rest)).length := by
        rw [List.length_append, ← hblock, List.length_map]
      dsimp only at hnew hcfs hiff
      rw [hlen] at hcfs hiff
      rw [rraArgs_rra hds hrra]
      refine ⟨rras ++ new, by rw [hnew, List.append_assoc], ?_, ?_, fun cfs hp => ?_⟩
      · intro r hr
        rcases List.mem_append.mp hr with hr | hr
        · exact arg_checked hs hrras r hr
        · exact hchk r hr
      · rw [List.map_append, hblock, hcfs, cfsFrom]
      · rw [cfsFrom] at hp
        obtain ⟨hp₁, hp₂⟩ := hp.append
        simp only [List.mem_append, or_imp, forall_and, ProperFrom]
        rw [hfit cfs hp₁, hiff cfs hp₂]

/-- Arguments that divide by zero are not proper. -/
theorem createArgs_error (h : createArgs hashedName args d = .error .divisionByZero)
    (cfs : List Cf) : ¬ProperFrom pdpStep cfs d.rras.length (rraArgs args) := by
  induction args generalizing d with
  | nil => exact absurd h (by simp [createArgs])
  | cons arg args ih =>
    rcases bind_eq_error.mp h with h | ⟨d₁, h₁, h⟩
    · obtain ⟨rest, s, hds, hrra, hs, he⟩ := createArg_eq_error h
      rw [rraArgs_rra hds hrra]
      rintro ⟨hproper, -⟩
      obtain ⟨cf, hcf, hmin, hseen⟩ := parseRra_seen hs
      simp only [contingentRras, hseen.same] at he
      split_ifs at he with hb
      obtain ⟨hplain, hfive, -, -⟩ := isHwpredict_facts hb.1
      have hbrings : bringsOthers cf d.rras.length (CStr.strtok ':' rest) = true := by
        simp [bringsOthers, hb.1, ← hseen.dependent hplain, hb.2]
      rw [properArg_iff hcf, if_neg (by simp [hplain]), if_pos hbrings] at hproper
      have hper := hseen.period hb.1 (hfive ▸ hmin)
      have hpos : s.period ≠ 0 := by omega
      exact absurd he (by simp [createHwContingentRras, checkedMod, hpos, Except.bind])
    · rcases createArg_eq_ok h₁ with ⟨rest, def_, hds, -, rfl⟩ |
        ⟨rest, s, rras, hds, hrra, hs, hrras, rfl⟩
      · rw [rraArgs_ds hds]
        have hrest := ih h
        exact hrest
      · have hone : StepOk 1 := ⟨by decide, by decide⟩
        obtain ⟨hblock, -⟩ := arg_fit_iff hone hs hrras
        have hlen : (d.rras ++ rras).length =
            d.rras.length + (cfsOfArg d.rras.length (CStr.strtok ':' rest)).length := by
          rw [List.length_append, ← hblock, List.length_map]
        rw [rraArgs_rra hds hrra]
        rintro ⟨-, hproper⟩
        have hrest := ih h
        dsimp only at hrest
        rw [hlen] at hrest
        exact hrest hproper

/-- The CFs of all arguments are placed at the start. -/
theorem placed_all (cfs : List Cf) : Placed cfs 0 cfs := fun k _ => by rw [Nat.zero_add]

theorem mem_divisors_iff (hstep : StepOk pdpStep) {rras : List RraDef}
    (h : ∀ r ∈ rras, r.Checked) :
    0 ∈ divisors pdpStep rras ↔ ∃ r ∈ rras, pdpStep * r.pdpCnt % 2 ^ 64 = 0 := by
  simp only [divisors, List.mem_cons, List.mem_flatMap, List.not_mem_nil, or_false]
  constructor
  · rintro (h0 | ⟨r, hr, h0 | h0⟩)
    · exact absurd h0.symm hstep.1.ne'
    · exact ⟨r, hr, h0.symm⟩
    · exact absurd h0.symm (h r hr).rowCnt_pos.ne'
  · rintro ⟨r, hr, h0⟩
    exact .inr ⟨r, hr, .inl h0.symm⟩

/-- **Only usable archives are created**: on arguments that are not refused, `rrd_create_r`
divides by no zero and creates usable archives only, if and only if the arguments are proper. -/
theorem createsUsable_iff (hashedName : ℕ) (args : List Text) (hstep : StepOk pdpStep)
    (hread : ∀ e, rrdCreateR hashedName pdpStep args = .error e → e = .divisionByZero) :
    CreatesUsable hashedName pdpStep args ↔ Proper pdpStep args := by
  cases h : createArgs hashedName args ⟨3, [], [], 0⟩ with
  | error e =>
    have hr : rrdCreateR hashedName pdpStep args = .error e := by
      rw [rrdCreateR, h]
      rfl
    obtain rfl := hread e hr
    have hnot : ¬ProperFrom pdpStep (cfsFrom 0 (rraArgs args)) 0 (rraArgs args) :=
      createArgs_error h _
    exact ⟨fun hu => absurd hr hu.1, fun hp => absurd hp hnot⟩
  | ok d =>
    obtain ⟨new, hnew, hchk, hcfs, hiff⟩ := createArgs_fit_iff hstep h
    obtain rfl : d.rras = new := hnew
    have hfit : (∀ r ∈ d.rras, Fit pdpStep (cfsFrom 0 (rraArgs args)) r) ↔
        ProperFrom pdpStep (cfsFrom 0 (rraArgs args)) 0 (rraArgs args) := hiff _ (placed_all _)
    have hcfs' : d.rras.map RraDef.cf = cfsFrom 0 (rraArgs args) := hcfs
    have hdiv := mem_divisors_iff hstep hchk
    rw [Proper, ← hfit, ← hcfs']
    have hr : rrdCreateR hashedName pdpStep args =
        if d.rras = [] then .error .noRra else if d.ds = [] then .error .noDs
        else if 0 ∈ divisors pdpStep d.rras then .error .divisionByZero else .ok d := by
      rw [rrdCreateR, h]
      rfl
    rw [hr] at hread
    rw [CreatesUsable, hr]
    split_ifs at hread ⊢ with h1 h2 h3
    · exact absurd (hread _ rfl) (by simp)
    · exact absurd (hread _ rfl) (by simp)
    · obtain ⟨r, hr, hzero⟩ := hdiv.mp h3
      exact ⟨fun hu => absurd rfl hu.1, fun hall => absurd hzero (hall r hr).2⟩
    · constructor
      · intro hu r hr
        exact ⟨hu.2 d rfl r hr, fun hzero => h3 (hdiv.mpr ⟨r, hr, hzero⟩)⟩
      · refine fun hall => ⟨by simp, fun d' hd' r hr => ?_⟩
        obtain rfl := Except.ok.inj hd'
        exact (hall r hr).1

/-- A prediction that brings its archives with it, behind an `AVERAGE`. -/
def hwArgs : List Text :=
  ["DS:d:GAUGE:600:U:U".toList, "RRA:AVERAGE:0.5:1:10".toList,
    "RRA:HWPREDICT:1440:0.1:0.0035:288".toList]

/-- Proper arguments, and the six archives they create. -/
theorem hwArgs_usable :
    ((rrdCreateR 4 300 hwArgs).toOption.map fun d => d.rras.map RraDef.cf) =
      some [.average, .hwpredict, .seasonal, .devseasonal, .devpredict, .failures] ∧
    CreatesUsable 4 300 hwArgs := by
  have hok : (rrdCreateR 4 300 hwArgs).isOk = true := by decide +kernel
  refine ⟨by decide +kernel, (createsUsable_iff 4 hwArgs ⟨by decide, by decide⟩ ?_).mpr ?_⟩
  · intro e he
    rw [he] at hok
    exact absurd hok (by simp [Except.isOk, Except.toBool])
  · decide +kernel

/-- A prediction that names the first archive, an `AVERAGE`, as its `SEASONAL` one. -/
def strayArgs : List Text :=
  ["DS:d:GAUGE:600:U:U".toList, "RRA:AVERAGE:0.5:1:10".toList,
    "RRA:HWPREDICT:1440:0.1:0.0035:288:1".toList]

/-- The arguments are accepted, and the prediction depends on an `AVERAGE`. -/
theorem hwpredict_names_average :
    (rrdCreateR 4 300 strayArgs).isOk = true ∧ ¬CreatesUsable 4 300 strayArgs := by
  have hrras : ((rrdCreateR 4 300 strayArgs).toOption.map fun d =>
      d.rras.map fun r => (r.cf, r.dependentRraIdx)) = some [(.average, 0), (.hwpredict, 0)] := by
    decide +kernel
  cases h : rrdCreateR 4 300 strayArgs with
  | error e => simp [h, Except.toOption] at hrras
  | ok d =>
    refine ⟨rfl, fun hu => ?_⟩
    simp only [h, Except.toOption, Option.map_some, Option.some.injEq] at hrras
    obtain ⟨a, b, hd⟩ : ∃ a b, d.rras = [a, b] := List.length_eq_two.mp (by
      simpa using congrArg List.length hrras)
    simp only [hd, List.map_cons, List.map_nil, List.cons.injEq, Prod.mk.injEq, and_true] at hrras
    obtain ⟨⟨ha, -⟩, hb, hdep⟩ := hrras
    obtain ⟨c, hc, hcf⟩ := (hu.2 d h b (by simp [hd])).dependent (by rw [hb]; rfl)
    simp only [hd, hdep, hb, List.map_cons, ha, List.getElem?_cons_zero, Option.some.injEq] at hc hcf
    subst hc
    exact absurd hcf (by decide)

end Rrdtool
