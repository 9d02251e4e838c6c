import Rrdtool.Lib.Loop
import Rrdtool.Parsetime.Scanner

/-!
# The offset of a time specification

`plus_minus` adds a number of units to the fields of a time. An item without a sign repeats the last one. The unit `m`
are months or minutes, by the unit before it; behind a sign it is guessed from the number, and the limit is 6 where
the heuristics say 25. All numbers are `int`s.

* `plusMinus`, `offsetLoop`, `offsetSpec` — the code;
* `Item`, `change` — an offset, and what it adds for a limit;
* `offsetSpec_items` — what the code adds;
* `offset_iff` — when it is what the heuristics say.
-/

namespace Rrdtool.Parsetime

open CStr

/-! ## The code -/

/-- The fields of `rrd_time_value_t` that an offset changes. -/
@[ext] structure TimeValue : Type where
  /-- `tm.tm_year` -/
  year : ℤ
  /-- `tm.tm_mon` -/
  mon : ℤ
  /-- `tm.tm_mday` -/
  mday : ℤ
  /-- `offset` -/
  offset : ℤ
  deriving DecidableEq

/-- `PLUS` and `MINUS` -/
inductive Sign : Type where
  | plus | minus
  deriving DecidableEq

/-- `op == PLUS ? delta : -delta` -/
def Sign.apply (op : Sign) (delta : ℤ) : ℤ :=
  match op with
  | .plus => delta
  | .minus => -delta

/-- The character of a sign. -/
def Sign.char : Sign → Char
  | .plus => '+'
  | .minus => '-'

/-- The ways to fail. -/
inductive TimeError : Type where
  /-- an error message -/
  | message (text : Text)
  /-- a number that its type does not hold: the C standard does not say what happens -/
  | undefined

/-- An `int`. -/
def int (z : ℤ) : Except TimeError ℤ := if -2 ^ 31 ≤ z ∧ z < 2 ^ 31 then .ok z else .error .undefined

/-- A `long`. -/
def long (z : ℤ) : Except TimeError ℤ := if -2 ^ 63 ≤ z ∧ z < 2 ^ 63 then .ok z else .error .undefined

/-- The static variables of `plus_minus`. -/
structure Statics : Type where
  /-- `op` -/
  op : Sign
  /-- `prev_multiplier`; there is none at first and behind a sign -/
  prevMultiplier : Option TokId

/-- What `m` means. -/
def guess (prevMultiplier : Option TokId) (delta : ℤ) : TokId :=
  match prevMultiplier with
  | some .days | some .weeks | some .months | some .years => .months
  | some .seconds | some .minutes | some .hours => .minutes
  | _ => if delta < 6 then .months else .minutes

/-- `switch (sc_tokid)` -/
def addUnits (ptv : TimeValue) (op : Sign) (delta : ℤ) (unit : TokId) : Except TimeError TimeValue :=
  match unit with
  | .years => (int (ptv.year + op.apply delta)).map fun y => { ptv with year := y }
  | .months => (int (ptv.mon + op.apply delta)).map fun m => { ptv with mon := m }
  | .weeks => (int (delta * 7)).bind fun delta =>
      (int (ptv.mday + op.apply delta)).map fun d => { ptv with mday := d }
  | .days => (int (ptv.mday + op.apply delta)).map fun d => { ptv with mday := d }
  | .hours => (int (op.apply delta * 60)).bind fun d => (int (d * 60)).bind fun d =>
      (long (ptv.offset + d)).map fun o => { ptv with offset := o }
  | .minutes => (int (op.apply delta * 60)).bind fun d =>
      (long (ptv.offset + d)).map fun o => { ptv with offset := o }
  -- seconds are the default
  | _ => (long (ptv.offset + op.apply delta)).map fun o => { ptv with offset := o }

/-- `plus_minus`, behind the sign, with the number in `sc_token` -/
def plusMinusNumber (ptv : TimeValue) (statics : Statics) (number sct : Text) :
    Except TimeError (TimeValue × Statics × Text) :=
  (int (digitsVal number)).bind fun delta =>
    let next := token timeMultipliers sct
    let unit := if next.1.id = .monthsMinutes then guess statics.prevMultiplier delta else next.1.id
    (addUnits ptv statics.op delta unit).map fun ptv => (ptv, ⟨statics.op, some unit⟩, next.2)

/-- `plus_minus`; `doop` is `none` for `PREVIOUS_OP` -/
def plusMinus (ptv : TimeValue) (doop : Option Sign) (statics : Statics) (scToken sct : Text) :
    Except TimeError (TimeValue × Statics × Text) :=
  match doop with
  | some op =>
    let next := token timeMultipliers sct
    if next.1.id = .number then plusMinusNumber ptv ⟨op, none⟩ next.1.text next.2
    else .error (.message ("There should be number after '".toList ++ [op.char] ++ "'".toList))
  | none => plusMinusNumber ptv statics scToken sct

/-- Does the loop go on? -/
def goesOn (tokid : TokId) : Bool := tokid = .plus || tokid = .minus || tokid = .number

/-- The sign that a token asks for. -/
def doopOf (tokid : TokId) : Option Sign :=
  if tokid = .plus then some .plus else if tokid = .minus then some .minus else none

theorem length_plusMinusNumber {ptv : TimeValue} {statics : Statics} {number sct : Text} {r : TimeValue × Statics × Text}
    (h : plusMinusNumber ptv statics number sct = .ok r) : r.2.2.length ≤ sct.length := by
  obtain ⟨delta, -, hadd⟩ := Loop.bind_eq_ok.mp h
  obtain ⟨ptv', -, rfl⟩ := Loop.map_eq_ok.mp hadd
  exact (length_token timeMultipliers sct).1

theorem length_plusMinus {ptv : TimeValue} {doop : Option Sign} {statics : Statics} {scToken sct : Text}
    {r : TimeValue × Statics × Text} (h : plusMinus ptv doop statics scToken sct = .ok r) : r.2.2.length ≤ sct.length := by
  cases doop with
  | none => exact length_plusMinusNumber h
  | some op =>
    unfold plusMinus at h
    dsimp only at h
    split_ifs at h
    exact (length_plusMinusNumber h).trans (length_token timeMultipliers sct).1

/-- What is left to read; a sign or a number has been read. -/
def left (tok : Token) (sct : Text) : ℕ := sct.length + if goesOn tok.id then 1 else 0

theorem left_token_le (s : Text) : left (token timeMultipliers s).1 (token timeMultipliers s).2 ≤ s.length := by
  obtain ⟨hle, hlt⟩ := length_token timeMultipliers s
  unfold left
  split_ifs with h
  · apply hlt
    intro heof
    rw [heof] at h
    cases h
  · exact hle

/-- `while (sc_tokid == PLUS || sc_tokid == MINUS || sc_tokid == NUMBER)` -/
def offsetLoop (ptv : TimeValue) (statics : Statics) (tok : Token) (sct : Text) :
    Except TimeError (TimeValue × Token × Text) :=
  if hgoes : goesOn tok.id then
    match hstep : plusMinus ptv (doopOf tok.id) statics tok.text sct with
    | .error e => .error e
    | .ok (ptv, statics, sct') =>
      have : left (token timeMultipliers sct').1 (token timeMultipliers sct').2 < left tok sct := by
        have hleft : left tok sct = sct.length + 1 := congrArg (sct.length + ·) (if_pos hgoes)
        rw [hleft]
        exact Nat.lt_succ_of_le ((left_token_le sct').trans (length_plusMinus hstep))
      offsetLoop ptv statics (token timeMultipliers sct').1 (token timeMultipliers sct').2
  else .ok (ptv, tok, sct)
termination_by left tok sct

/-- The offset part of `rrd_parsetime`, behind the token that has been fetched, and the check that nothing follows -/
def offsetSpec (ptv : TimeValue) (statics : Statics) (tok : Token) (sct : Text) : Except TimeError TimeValue :=
  (offsetLoop ptv statics tok sct).bind fun r =>
    if r.2.1.id = .eof then .ok r.1
    else .error (.message ("unparsable trailing text: '...".toList ++ r.2.1.text ++ r.2.2 ++ "'".toList))

theorem offsetLoop_step {ptv ptv' : TimeValue} {statics statics' : Statics} {tok : Token} {sct sct' : Text}
    (hgoes : goesOn tok.id = true)
    (hstep : plusMinus ptv (doopOf tok.id) statics tok.text sct = .ok (ptv', statics', sct')) :
    offsetLoop ptv statics tok sct
      = offsetLoop ptv' statics' (token timeMultipliers sct').1 (token timeMultipliers sct').2 := by
  rw [offsetLoop, dif_pos hgoes]
  split
  · rename_i heq
    rw [hstep] at heq
    cases heq
  · rename_i heq
    rw [hstep] at heq
    cases heq
    rfl

theorem offsetLoop_error {ptv : TimeValue} {statics : Statics} {tok : Token} {sct : Text} {e : TimeError}
    (hgoes : goesOn tok.id = true) (hstep : plusMinus ptv (doopOf tok.id) statics tok.text sct = .error e) :
    offsetLoop ptv statics tok sct = .error e := by
  rw [offsetLoop, dif_pos hgoes]
  split
  · rename_i heq
    rw [hstep] at heq
    cases heq
    rfl
  · rename_i heq
    rw [hstep] at heq
    cases heq

theorem offsetLoop_end {ptv : TimeValue} {statics : Statics} {tok : Token} {sct : Text} (hend : goesOn tok.id = false) :
    offsetLoop ptv statics tok sct = .ok (ptv, tok, sct) := by
  rw [offsetLoop, dif_neg (by rw [hend]; decide)]

/-! ## Offsets -/

/-- The time units of an offset. -/
inductive TimeUnit : Type where
  | seconds | minutes | hours | days | weeks | months | years | m
  deriving DecidableEq

/-- The token of a unit. -/
def TimeUnit.tokId : TimeUnit → TokId
  | .seconds => .seconds
  | .minutes => .minutes
  | .hours => .hours
  | .days => .days
  | .weeks => .weeks
  | .months => .months
  | .years => .years
  | .m => .monthsMinutes

/-- The token of a sign. -/
def Sign.token : Sign → Token
  | .plus => ⟨.plus, ['+']⟩
  | .minus => ⟨.minus, ['-']⟩

/-- **An item of an offset**: a number of units, with a sign or without. -/
structure Item : Type where
  /-- the sign -/
  sign : Option Sign
  /-- the digits of the number -/
  digits : Text
  /-- the unit -/
  unit : TimeUnit
  /-- the word for the unit -/
  word : Text

namespace Item

/-- The tokens of an item. -/
def tokens (it : Item) : List Token := it.sign.toList.map Sign.token ++ [⟨.number, it.digits⟩, ⟨it.unit.tokId, it.word⟩]

/-- The number. -/
def number (it : Item) : ℕ := digitsVal it.digits

/-- The sign, behind another one. -/
def op (it : Item) (op : Sign) : Sign := it.sign.getD op

/-- The unit that the item follows; a sign takes it out of the context. -/
def context (it : Item) (prev : Option TokId) : Option TokId := if it.sign.isSome then none else prev

end Item

/-- What `m` means, in a context and for a number: out of context, months are below the limit. -/
def meaning (limit : ℕ) (context : Option TokId) (n : ℕ) : TokId :=
  match context with
  | some .days | some .weeks | some .months | some .years => .months
  | some .seconds | some .minutes | some .hours => .minutes
  | _ => if n < limit then .months else .minutes

/-- The unit of an item. -/
def Item.reading (it : Item) (limit : ℕ) (prev : Option TokId) : TokId :=
  if it.unit = .m then meaning limit (it.context prev) it.number else it.unit.tokId

namespace TimeValue

/-- Sums. -/
def plus (v w : TimeValue) : TimeValue := ⟨v.year + w.year, v.mon + w.mon, v.mday + w.mday, v.offset + w.offset⟩

/-- What fits into the fields. -/
def InRange (v : TimeValue) : Prop :=
  (-2 ^ 31 ≤ v.year ∧ v.year < 2 ^ 31) ∧ (-2 ^ 31 ≤ v.mon ∧ v.mon < 2 ^ 31) ∧ (-2 ^ 31 ≤ v.mday ∧ v.mday < 2 ^ 31)
    ∧ -2 ^ 63 ≤ v.offset ∧ v.offset < 2 ^ 63

instance (v : TimeValue) : Decidable v.InRange := inferInstanceAs (Decidable (_ ∧ _))

theorem plus_assoc (u v w : TimeValue) : (u.plus v).plus w = u.plus (v.plus w) := by
  simp only [plus, add_assoc]

theorem plus_left_cancel {u v w : TimeValue} : u.plus v = u.plus w ↔ v = w := by
  simp only [plus, TimeValue.ext_iff, add_right_inj]

end TimeValue

/-- How many days or seconds a unit has. -/
def factor : TokId → ℕ
  | .weeks => 7
  | .hours => 3600
  | .minutes => 60
  | _ => 1

/-- So many units. -/
def amount (unit : TokId) (a : ℤ) : TimeValue :=
  match unit with
  | .years => ⟨a, 0, 0, 0⟩
  | .months => ⟨0, a, 0, 0⟩
  | .weeks => ⟨0, 0, 7 * a, 0⟩
  | .days => ⟨0, 0, a, 0⟩
  | .hours => ⟨0, 0, 0, 3600 * a⟩
  | .minutes => ⟨0, 0, 0, 60 * a⟩
  | _ => ⟨0, 0, 0, a⟩

/-- **The sum of the items**, for a limit between months and minutes. -/
def change (limit : ℕ) : List Item → Sign → Option TokId → TimeValue
  | [], _, _ => ⟨0, 0, 0, 0⟩
  | it :: items, op, prev =>
    (amount (it.reading limit prev) ((it.op op).apply it.number)).plus
      (change limit items (it.op op) (some (it.reading limit prev)))

/-- **All numbers fit**: each one, its product with the unit, and the fields behind each item. -/
def Fits : List Item → TimeValue → Sign → Option TokId → Prop
  | [], _, _, _ => True
  | it :: items, v, op, prev =>
    it.number < 2 ^ 31 ∧ it.number * factor (it.reading 6 prev) < 2 ^ 31 ∧
      let v := v.plus (amount (it.reading 6 prev) ((it.op op).apply it.number))
      v.InRange ∧ Fits items v (it.op op) (some (it.reading 6 prev))

/-- The tokens from one that has been fetched on. -/
def stream (tok : Token) (sct : Text) : List Token := if tok.id = .eof then [] else tok :: Parsetime.tokens timeMultipliers sct

theorem tokens_eq_stream (s : Text) :
    tokens timeMultipliers s = stream (token timeMultipliers s).1 (token timeMultipliers s).2 := by
  rw [tokens, stream]
  split_ifs <;> rfl

/-! ## What the code adds -/

variable {v : TimeValue} {statics : Statics} {tok : Token} {sct : Text} {items : List Item}

theorem int_map_eq_ok {β : Type} {z : ℤ} {g : ℤ → β} {r : β} :
    (int z).map g = .ok r ↔ (-2 ^ 31 ≤ z ∧ z < 2 ^ 31) ∧ g z = r := by
  by_cases h : -2 ^ 31 ≤ z ∧ z < 2 ^ 31
  · rw [int, if_pos h, and_iff_right h, Except.map, Except.ok.injEq]
  · rw [int, if_neg h]
    exact ⟨fun hr => (by cases hr), fun hr => absurd hr.1 h⟩

theorem int_bind_eq_ok {β : Type} {z : ℤ} {g : ℤ → Except TimeError β} {r : β} :
    (int z).bind g = .ok r ↔ (-2 ^ 31 ≤ z ∧ z < 2 ^ 31) ∧ g z = .ok r := by
  by_cases h : -2 ^ 31 ≤ z ∧ z < 2 ^ 31
  · rw [int, if_pos h, and_iff_right h, Except.bind]
  · rw [int, if_neg h]
    exact ⟨fun hr => (by cases hr), fun hr => absurd hr.1 h⟩

theorem long_map_eq_ok {β : Type} {z : ℤ} {g : ℤ → β} {r : β} :
    (long z).map g = .ok r ↔ (-2 ^ 63 ≤ z ∧ z < 2 ^ 63) ∧ g z = r := by
  by_cases h : -2 ^ 63 ≤ z ∧ z < 2 ^ 63
  · rw [long, if_pos h, and_iff_right h, Except.map, Except.ok.injEq]
  · rw [long, if_neg h]
    exact ⟨fun hr => (by cases hr), fun hr => absurd hr.1 h⟩

/-- A sum in the field of the seconds. -/
theorem addOffset_eq_ok (hv : v.InRange) {d : ℤ} {w : TimeValue} :
    ((long (v.offset + d)).map fun o => { v with offset := o }) = .ok w ↔
      (v.plus ⟨0, 0, 0, d⟩).InRange ∧ v.plus ⟨0, 0, 0, d⟩ = w := by
  have hsum : v.plus ⟨0, 0, 0, d⟩ = { v with offset := v.offset + d } := by
    ext <;> simp only [TimeValue.plus, add_zero]
  rw [hsum, TimeValue.InRange, long_map_eq_ok, and_iff_right hv.1, and_iff_right hv.2.1, and_iff_right hv.2.2.1]

theorem addYear_eq_ok (hv : v.InRange) {d : ℤ} {w : TimeValue} :
    ((int (v.year + d)).map fun y => { v with year := y }) = .ok w ↔
      (v.plus ⟨d, 0, 0, 0⟩).InRange ∧ v.plus ⟨d, 0, 0, 0⟩ = w := by
  have hsum : v.plus ⟨d, 0, 0, 0⟩ = { v with year := v.year + d } := by
    ext <;> simp only [TimeValue.plus, add_zero]
  rw [hsum, TimeValue.InRange, int_map_eq_ok, and_iff_left (And.intro hv.2.1 hv.2.2)]

theorem addMon_eq_ok (hv : v.InRange) {d : ℤ} {w : TimeValue} :
    ((int (v.mon + d)).map fun m => { v with mon := m }) = .ok w ↔
      (v.plus ⟨0, d, 0, 0⟩).InRange ∧ v.plus ⟨0, d, 0, 0⟩ = w := by
  have hsum : v.plus ⟨0, d, 0, 0⟩ = { v with mon := v.mon + d } := by
    ext <;> simp only [TimeValue.plus, add_zero]
  rw [hsum, TimeValue.InRange, int_map_eq_ok, and_iff_right hv.1, and_iff_left hv.2.2]

theorem addMday_eq_ok (hv : v.InRange) {d : ℤ} {w : TimeValue} :
    ((int (v.mday + d)).map fun m => { v with mday := m }) = .ok w ↔
      (v.plus ⟨0, 0, d, 0⟩).InRange ∧ v.plus ⟨0, 0, d, 0⟩ = w := by
  have hsum : v.plus ⟨0, 0, d, 0⟩ = { v with mday := v.mday + d } := by
    ext <;> simp only [TimeValue.plus, add_zero]
  rw [hsum, TimeValue.InRange, int_map_eq_ok, and_iff_right hv.1, and_iff_right hv.2.1, and_iff_left hv.2.2.2]

/-- The units of `TimeMultipliers`, without the ambiguous one. -/
def IsUnit (unit : TokId) : Prop :=
  unit = .seconds ∨ unit = .minutes ∨ unit = .hours ∨ unit = .days ∨ unit = .weeks ∨ unit = .months ∨ unit = .years

/-- **One unit**: the product and the field have to fit. -/
theorem addUnits_eq_ok (hv : v.InRange) (op : Sign) {n : ℕ} (hn : n < 2 ^ 31) {unit : TokId} (hunit : IsUnit unit)
    {w : TimeValue} :
    addUnits v op n unit = .ok w ↔
      n * factor unit < 2 ^ 31 ∧ (v.plus (amount unit (op.apply n))).InRange ∧ v.plus (amount unit (op.apply n)) = w := by
  have hone : n * 1 < 2 ^ 31 := by rwa [mul_one]
  have hsign : op.apply n = n ∨ op.apply n = -n := by
    cases op
    · exact .inl rfl
    · exact .inr rfl
  rcases hunit with rfl | rfl | rfl | rfl | rfl | rfl | rfl
  · rw [addUnits, addOffset_eq_ok hv, factor, and_iff_right hone]
    · rfl
    all_goals
      intro h
      cases h
  · have hproduct : (-2 ^ 31 ≤ op.apply n * 60 ∧ op.apply n * 60 < 2 ^ 31) ↔ n * factor .minutes < 2 ^ 31 := by
      rw [factor]
      omega
    rw [addUnits, int_bind_eq_ok, ← hproduct, amount, mul_comm 60, addOffset_eq_ok hv]
  · have hproduct : ((-2 ^ 31 ≤ op.apply n * 60 ∧ op.apply n * 60 < 2 ^ 31)
        ∧ -2 ^ 31 ≤ op.apply n * 60 * 60 ∧ op.apply n * 60 * 60 < 2 ^ 31) ↔ n * factor .hours < 2 ^ 31 := by
      rw [factor]
      omega
    have hhours : 3600 * op.apply n = op.apply n * 60 * 60 := by ring
    rw [addUnits, int_bind_eq_ok, int_bind_eq_ok, ← hproduct, amount, hhours, addOffset_eq_ok hv]
    exact and_assoc.symm
  · rw [addUnits, addMday_eq_ok hv, factor, and_iff_right hone]
    · rfl
    all_goals
      intro h
      cases h
  · have hproduct : (-2 ^ 31 ≤ (n * 7 : ℤ) ∧ (n * 7 : ℤ) < 2 ^ 31) ↔ n * factor .weeks < 2 ^ 31 := by
      rw [factor]
      omega
    have hweeks : 7 * op.apply n = op.apply (n * 7) := by
      cases op
      · exact mul_comm _ _
      · rw [Sign.apply, Sign.apply]
        ring
    rw [addUnits, int_bind_eq_ok, ← hproduct, amount, hweeks, addMday_eq_ok hv]
  · rw [addUnits, addMon_eq_ok hv, factor, and_iff_right hone]
    · rfl
    all_goals
      intro h
      cases h
  · rw [addUnits, addYear_eq_ok hv, factor, and_iff_right hone]
    · rfl
    all_goals
      intro h
      cases h

theorem isUnit_meaning (limit : ℕ) (context : Option TokId) (n : ℕ) : IsUnit (meaning limit context n) := by
  have hguess : IsUnit (if n < limit then .months else .minutes) := by
    split_ifs <;> simp [IsUnit]
  cases context with
  | none => exact hguess
  | some c => cases c <;> first | exact hguess | simp [IsUnit, meaning]

/-- A unit is one of them, in each context. -/
theorem isUnit_reading (it : Item) (limit : ℕ) (prev : Option TokId) : IsUnit (it.reading limit prev) := by
  unfold Item.reading
  split_ifs with hm
  · exact isUnit_meaning limit _ _
  · cases hunit : it.unit with
    | m => exact absurd hunit hm
    | _ => simp [IsUnit, TimeUnit.tokId]

/-- The limit of the code is 6. -/
theorem guess_eq (context : Option TokId) (n : ℕ) : guess context n = meaning 6 context n := by
  have hguess : (if (n : ℤ) < 6 then TokId.months else .minutes) = if n < 6 then .months else .minutes :=
    if_congr (by omega) rfl rfl
  cases context with
  | none => exact hguess
  | some c => cases c <;> first | exact hguess | rfl

/-- **An item behind its sign.** -/
theorem plusMinusNumber_item (statics : Statics) (hv : v.InRange) {it : Item} {toks : List Token} {prev : Option TokId}
    (htok : tokens timeMultipliers sct = ⟨it.unit.tokId, it.word⟩ :: toks)
    (hprev : statics.prevMultiplier = it.context prev) (r : TimeValue × Statics × Text) :
    plusMinusNumber v statics it.digits sct = .ok r ↔
      it.number < 2 ^ 31 ∧ it.number * factor (it.reading 6 prev) < 2 ^ 31
        ∧ (v.plus (amount (it.reading 6 prev) (statics.op.apply it.number))).InRange
        ∧ (v.plus (amount (it.reading 6 prev) (statics.op.apply it.number)), ⟨statics.op, some (it.reading 6 prev)⟩,
            (token timeMultipliers sct).2) = r := by
  have hunit : (if (token timeMultipliers sct).1.id = .monthsMinutes then
      guess statics.prevMultiplier (digitsVal it.digits) else (token timeMultipliers sct).1.id) = it.reading 6 prev := by
    rw [(tokens_eq_cons htok).1, guess_eq, hprev, Item.reading]
    cases it.unit <;> rfl
  have hnumber : (-2 ^ 31 ≤ (digitsVal it.digits : ℤ) ∧ (digitsVal it.digits : ℤ) < 2 ^ 31) ↔ it.number < 2 ^ 31 := by
    rw [Item.number]
    omega
  rw [plusMinusNumber, int_bind_eq_ok, hnumber]
  dsimp only
  have hdigits : digitsVal it.digits = it.number := rfl
  rw [hunit, Loop.map_eq_ok, hdigits]
  refine and_congr_right fun hn => ?_
  simp only [addUnits_eq_ok hv statics.op hn (isUnit_reading it 6 prev), and_assoc, exists_and_left]
  refine and_congr_right fun _ => and_congr_right fun _ => ?_
  simp only [exists_eq_left']

/-- **An item is read**: the loop goes on, and what is left are its number and unit. -/
theorem plusMinus_item (v : TimeValue) (statics : Statics) {it : Item} {toks : List Token} (h : stream tok sct = it.tokens ++ toks) :
    goesOn tok.id = true ∧ ∃ sct', tokens timeMultipliers sct' = ⟨it.unit.tokId, it.word⟩ :: toks
      ∧ plusMinus v (doopOf tok.id) statics tok.text sct
        = plusMinusNumber v ⟨it.op statics.op, it.context statics.prevMultiplier⟩ it.digits sct' := by
  have hstream {t : Token} {rest : List Token} (hcons : stream tok sct = t :: rest) :
      tok = t ∧ tokens timeMultipliers sct = rest := by
    unfold stream at hcons
    split_ifs at hcons
    exact ⟨(List.cons.inj hcons).1, (List.cons.inj hcons).2⟩
  unfold Item.op Item.context
  rw [Item.tokens] at h
  cases hsign : it.sign with
  | none =>
    rw [hsign] at h
    obtain ⟨rfl, hrest⟩ := hstream h
    exact ⟨rfl, sct, hrest, rfl⟩
  | some op =>
    rw [hsign] at h
    obtain ⟨rfl, hrest⟩ := hstream h
    obtain ⟨hnumber, hrest⟩ := tokens_eq_cons hrest
    refine ⟨by cases op <;> rfl, _, hrest, ?_⟩
    have hdoop : doopOf op.token.id = some op := by cases op <;> rfl
    rw [hdoop, plusMinus, hnumber]
    rfl

/-- **What the code adds**: the sum of the items, with a limit of 6, if all numbers fit. -/
theorem offsetSpec_items (hv : v.InRange) (h : stream tok sct = items.flatMap Item.tokens) {w : TimeValue} :
    offsetSpec v statics tok sct = .ok w ↔
      Fits items v statics.op statics.prevMultiplier
        ∧ v.plus (change 6 items statics.op statics.prevMultiplier) = w := by
  induction items generalizing v statics tok sct with
  | nil =>
    have heof : tok.id = .eof := by
      unfold stream at h
      split_ifs at h with heof
      · exact heof
      · cases h
    have hplus : v.plus ⟨0, 0, 0, 0⟩ = v := by
      ext <;> exact add_zero _
    rw [offsetSpec, offsetLoop_end (by rw [heof]; rfl), Except.bind, if_pos heof, Fits, change, hplus, true_and,
      Except.ok.injEq]
  | cons it items ih =>
    obtain ⟨hgoes, sct', htoks, hstep⟩ := plusMinus_item v statics h
    have hitem := plusMinusNumber_item ⟨it.op statics.op, it.context statics.prevMultiplier⟩ hv htoks rfl
    rw [Fits, change, ← TimeValue.plus_assoc]
    cases hresult : plusMinus v (doopOf tok.id) statics tok.text sct with
    | error e =>
      rw [offsetSpec, offsetLoop_error hgoes hresult]
      constructor
      · intro hok
        cases hok
      · rintro ⟨⟨hnumber, hproduct, hrange, -⟩, -⟩
        rw [hstep, (hitem _).mpr ⟨hnumber, hproduct, hrange, rfl⟩] at hresult
        cases hresult
    | ok r =>
      obtain ⟨hnumber, hproduct, hrange, rfl⟩ := (hitem r).mp (hstep ▸ hresult)
      have hrest := (tokens_eq_stream (token timeMultipliers sct').2).symm.trans (tokens_eq_cons htoks).2
      rw [offsetSpec, offsetLoop_step hgoes hresult, ← offsetSpec, ih hrange hrest]
      simp only [hnumber, hproduct, hrange, true_and]

/-! ## The heuristics -/

/-- Is the item read as minutes where the heuristics say months? That begins with an `m` behind a sign and a number from
6 to 24, and goes on as long as each unit is an `m` in the context of the last. -/
def Item.misreadBehind (it : Item) (misread : Bool) : Bool :=
  it.unit = .m && if it.sign.isSome then decide (6 ≤ it.number ∧ it.number < 25) else misread

/-- **The months that are read as minutes**, with their signs. -/
def misread : List Item → Bool → Sign → ℤ
  | [], _, _ => 0
  | it :: items, b, op =>
    (if it.misreadBehind b then (it.op op).apply it.number else 0) + misread items (it.misreadBehind b) (it.op op)

/-- The units that two readings have arrived at. -/
def Contexts (b : Bool) (p q : Option TokId) : Prop :=
  if b then p = some .months ∧ q = some .minutes else p = q ∧ ∃ u, p = some u ∧ IsUnit u

/-- In a context there is nothing to guess. -/
theorem meaning_some {u : TokId} (hu : IsUnit u) (k l n : ℕ) : meaning k (some u) n = meaning l (some u) n := by
  rcases hu with rfl | rfl | rfl | rfl | rfl | rfl | rfl <;> rfl

/-- **The two readings of an item** are the same, or months and minutes. -/
theorem reading_cases (it : Item) {b : Bool} {p q : Option TokId} (hctx : it.sign.isSome ∨ Contexts b p q) :
    if it.misreadBehind b then it.reading 25 p = .months ∧ it.reading 6 q = .minutes
    else it.reading 25 p = it.reading 6 q := by
  unfold Item.misreadBehind Item.reading Item.context
  by_cases hm : it.unit = .m
  · simp only [hm, decide_true, Bool.true_and, if_true]
    cases hsign : it.sign.isSome with
    | true =>
      simp only [if_true, decide_eq_true_eq, meaning]
      split_ifs <;> first | exact ⟨rfl, rfl⟩ | rfl | omega
    | false =>
      have hctx := hctx.resolve_left (by rw [hsign]; decide)
      simp only [Bool.false_eq_true, if_false]
      cases b with
      | true =>
        obtain ⟨rfl, rfl⟩ := hctx
        exact ⟨rfl, rfl⟩
      | false =>
        obtain ⟨rfl, u, rfl, hu⟩ := hctx
        exact meaning_some hu 25 6 _
  · simp [hm]

/-- The readings of an item are the context of the next one. -/
theorem contexts_reading (it : Item) {b : Bool} {p q : Option TokId} (hctx : it.sign.isSome ∨ Contexts b p q) :
    Contexts (it.misreadBehind b) (some (it.reading 25 p)) (some (it.reading 6 q)) := by
  have hcases := reading_cases it hctx
  unfold Contexts
  split_ifs at hcases ⊢
  · exact ⟨congrArg some hcases.1, congrArg some hcases.2⟩
  · exact ⟨congrArg some hcases, _, rfl, isUnit_reading it 25 p⟩

/-- **The heuristics and the code** differ by the months that are read as minutes. -/
theorem change_eq {b : Bool} {op : Sign} {p q : Option TokId} (hctx : (∀ it ∈ items.head?, it.sign.isSome) ∨ Contexts b p q) :
    change 25 items op p
      = (change 6 items op q).plus ⟨0, misread items b op, 0, -60 * misread items b op⟩ := by
  induction items generalizing b op p q with
  | nil => rfl
  | cons it items ih =>
    have hfirst : it.sign.isSome ∨ Contexts b p q := hctx.imp_left fun h => h it rfl
    have hcases := reading_cases it hfirst
    rw [change, change, misread, ih (.inr (contexts_reading it hfirst))]
    split_ifs at hcases ⊢
    · rw [hcases.1, hcases.2]
      ext <;> simp only [TimeValue.plus, amount] <;> ring
    · rw [hcases]
      ext <;> simp only [TimeValue.plus] <;> ring

/-- **An offset adds the sum of its items**, as the heuristics read them, exactly if all numbers fit and the months that
are read as minutes add up to nothing. -/
theorem offset_iff (s : Text) (items : List Item) (v : TimeValue) (statics : Statics) (hv : v.InRange)
    (htokens : tokens timeMultipliers s = items.flatMap Item.tokens) (hsigned : ∀ it ∈ items.head?, it.sign.isSome) :
    offsetSpec v statics (token timeMultipliers s).1 (token timeMultipliers s).2 = .ok (v.plus (change 25 items .plus none))
      ↔ Fits items v .plus none ∧ misread items false .plus = 0 := by
  -- the first sign takes the place of the static variables
  have hstatics : (∀ limit, change limit items statics.op statics.prevMultiplier = change limit items .plus none)
      ∧ (Fits items v statics.op statics.prevMultiplier ↔ Fits items v .plus none) := by
    cases items with
    | nil => exact ⟨fun _ => rfl, Iff.rfl⟩
    | cons it items =>
      obtain ⟨op, hop⟩ := Option.isSome_iff_exists.mp (hsigned it rfl)
      simp only [change, Fits, Item.reading, Item.op, Item.context, hop, Option.getD_some, Option.isSome_some, if_true,
        implies_true, and_self]
  rw [offsetSpec_items hv ((tokens_eq_stream s).symm.trans htokens), hstatics.2, hstatics.1, TimeValue.plus_left_cancel,
    change_eq (b := false) (q := none) (.inl hsigned)]
  refine and_congr_right fun _ => ?_
  constructor
  · intro heq
    have hmon := congrArg TimeValue.mon heq
    simp only [TimeValue.plus] at hmon
    omega
  · intro hzero
    rw [hzero]
    ext <;> simp [TimeValue.plus]

theorem tokens_of {s : Text} {tok : Token} {rest : Text} (h : token timeMultipliers s = (tok, rest)) (hid : tok.id ≠ .eof) :
    tokens timeMultipliers s = tok :: tokens timeMultipliers rest := by
  rw [tokens_eq_stream, h, stream, if_neg hid]

/-- A year and six months. -/
def yearAndHalf : List Item := [⟨some .plus, "1".toList, .years, "y".toList⟩, ⟨none, "6".toList, .m, "m".toList⟩]

theorem tokens_yearAndHalf : tokens timeMultipliers "+1y6m".toList = yearAndHalf.flatMap Item.tokens := by
  have hplus : token timeMultipliers "+1y6m".toList = (⟨.plus, ['+']⟩, "1y6m".toList) := by decide
  have hone : token timeMultipliers "1y6m".toList = (⟨.number, "1".toList⟩, "y6m".toList) := by decide
  have hyear : token timeMultipliers "y6m".toList = (⟨.years, "y".toList⟩, "6m".toList) := by decide
  have hsix : token timeMultipliers "6m".toList = (⟨.number, "6".toList⟩, "m".toList) := by decide
  have hm : token timeMultipliers "m".toList = (⟨.monthsMinutes, "m".toList⟩, []) := by decide
  rw [tokens_of hplus (by decide), tokens_of hone (by decide), tokens_of hyear (by decide), tokens_of hsix (by decide),
    tokens_of hm (by decide), tokens_eq_nil.mpr (by decide)]
  rfl

theorem offset_yearAndHalf :
    offsetSpec ⟨0, 0, 0, 0⟩ ⟨.minus, none⟩ (token timeMultipliers "+1y6m".toList).1 (token timeMultipliers "+1y6m".toList).2
      = .ok ⟨1, 6, 0, 0⟩ :=
  (offset_iff "+1y6m".toList yearAndHalf ⟨0, 0, 0, 0⟩ ⟨.minus, none⟩ (by decide) tokens_yearAndHalf
    (by decide)).mpr ⟨⟨by decide, by decide, by decide, by decide, by decide, by decide, trivial⟩, by decide⟩

/-- Ten months are ten minutes. -/
theorem offset_ten_m :
    offsetSpec ⟨0, 0, 0, 0⟩ ⟨.plus, none⟩ (token timeMultipliers "+10m".toList).1 (token timeMultipliers "+10m".toList).2
        = .ok ⟨0, 0, 0, 600⟩
      ∧ change 25 [⟨some .plus, "10".toList, .m, "m".toList⟩] .plus none = ⟨0, 10, 0, 0⟩ := by
  have hplus : token timeMultipliers "+10m".toList = (⟨.plus, ['+']⟩, "10m".toList) := by decide
  have hten : token timeMultipliers "10m".toList = (⟨.number, "10".toList⟩, "m".toList) := by decide
  have hm : token timeMultipliers "m".toList = (⟨.monthsMinutes, "m".toList⟩, []) := by decide
  have htokens : tokens timeMultipliers "+10m".toList
      = [(⟨some .plus, "10".toList, .m, "m".toList⟩ : Item)].flatMap Item.tokens := by
    rw [tokens_of hplus (by decide), tokens_of hten (by decide), tokens_of hm (by decide), tokens_eq_nil.mpr (by decide)]
    rfl
  refine ⟨?_, by decide⟩
  rw [offsetSpec_items (by decide) ((tokens_eq_stream _).symm.trans htokens)]
  exact ⟨⟨by decide, by decide, by decide, trivial⟩, by decide⟩

end Rrdtool.Parsetime
