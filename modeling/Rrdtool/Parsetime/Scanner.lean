import Rrdtool.Lib.CStr

/-!
# The scanner of `rrd_parsetime`

`token` reads a number, a word or a sign from the one argument that there is. Which words it knows depends on the
context. What it does not know ends the text, as its end does.

* `token` — the code;
* `tokens` — all tokens of a text;
* `length_token` — a token is taken off the text.
-/

namespace Rrdtool.Parsetime

open CStr

/-- What `sc_tokid` is in an offset. -/
inductive TokId : Type where
  | eof | seconds | minutes | hours | days | weeks | months | years | monthsMinutes
  | number | plus | minus | dot | colon | slash | id
  deriving DecidableEq

/-- A token, with its text `sc_token`. -/
structure Token : Type where
  /-- `sc_tokid` -/
  id : TokId
  /-- `sc_token` -/
  text : Text
  deriving DecidableEq

/-- `TimeMultipliers` -/
def timeMultipliers : List (Text × TokId) :=
  [("second".toList, .seconds), ("seconds".toList, .seconds), ("sec".toList, .seconds), ("s".toList, .seconds),
    ("minute".toList, .minutes), ("minutes".toList, .minutes), ("min".toList, .minutes), ("m".toList, .monthsMinutes),
    ("hour".toList, .hours), ("hours".toList, .hours), ("hr".toList, .hours), ("h".toList, .hours),
    ("day".toList, .days), ("days".toList, .days), ("d".toList, .days),
    ("week".toList, .weeks), ("weeks".toList, .weeks), ("wk".toList, .weeks), ("w".toList, .weeks),
    ("month".toList, .months), ("months".toList, .months), ("mon".toList, .months),
    ("year".toList, .years), ("years".toList, .years), ("yr".toList, .years), ("y".toList, .years)]

/-- `mystrcasecmp(s1, s2) == 0` -/
def mystrcasecmp (s1 s2 : Text) : Bool := s1.map tolower = s2.map tolower

/-- `parse_token` -/
def parseToken (specials : List (Text × TokId)) (arg : Text) : TokId :=
  match specials.find? fun special => mystrcasecmp special.1 arg with
  | some special => special.2
  | none => .id

/-- "eat whitespace" -/
def isBlank (c : Char) : Bool := isspace c || c = '_' || c = ','

/-- `token`, in the words of the context, with what follows the token -/
def token (specials : List (Text × TokId)) (sct : Text) : Token × Text :=
  match sct.dropWhile isBlank with
  | [] => (⟨.eof, []⟩, [])
  | c :: sct =>
    if isdigit c then (⟨.number, c :: sct.takeWhile isdigit⟩, sct.dropWhile isdigit)
    else if isalpha c then
      let word := c :: sct.takeWhile isalpha
      (⟨parseToken specials word, word⟩, sct.dropWhile isalpha)
    else if c = ':' then (⟨.colon, [c]⟩, sct)
    else if c = '.' then (⟨.dot, [c]⟩, sct)
    else if c = '+' then (⟨.plus, [c]⟩, sct)
    else if c = '-' then (⟨.minus, [c]⟩, sct)
    else if c = '/' then (⟨.slash, [c]⟩, sct)
    else (⟨.eof, [c]⟩, c :: sct)

variable {specials : List (Text × TokId)}

/-- **A token is taken off the text**, but for the end. -/
theorem length_token (specials : List (Text × TokId)) (s : Text) :
    (token specials s).2.length ≤ s.length
      ∧ ((token specials s).1.id ≠ .eof → (token specials s).2.length < s.length) := by
  have hblank : (s.dropWhile isBlank).length ≤ s.length := (List.dropWhile_suffix _).length_le
  unfold token
  split
  · exact ⟨Nat.zero_le _, fun h => absurd rfl h⟩
  · rename_i c sct heq
    rw [heq, List.length_cons] at hblank
    have hdigits : (sct.dropWhile isdigit).length ≤ sct.length := (List.dropWhile_suffix _).length_le
    have hword : (sct.dropWhile isalpha).length ≤ sct.length := (List.dropWhile_suffix _).length_le
    split_ifs
    · exact ⟨by dsimp only; omega, fun _ => by dsimp only; omega⟩
    · exact ⟨by dsimp only; omega, fun _ => by dsimp only; omega⟩
    · exact ⟨by dsimp only; omega, fun _ => by dsimp only; omega⟩
    · exact ⟨by dsimp only; omega, fun _ => by dsimp only; omega⟩
    · exact ⟨by dsimp only; omega, fun _ => by dsimp only; omega⟩
    · exact ⟨by dsimp only; omega, fun _ => by dsimp only; omega⟩
    · exact ⟨by dsimp only; omega, fun _ => by dsimp only; omega⟩
    · exact ⟨by rw [List.length_cons]; omega, fun h => absurd rfl h⟩

/-- **All tokens of a text**, up to its end. -/
def tokens (specials : List (Text × TokId)) (s : Text) : List Token :=
  if h : (token specials s).1.id = .eof then []
  else
    have := (length_token specials s).2 h
    (token specials s).1 :: tokens specials (token specials s).2
termination_by s.length

variable {specials : List (Text × TokId)} {s : Text} {tok : Token} {toks : List Token}

theorem tokens_eq_nil : tokens specials s = [] ↔ (token specials s).1.id = .eof := by
  rw [tokens]
  split_ifs with h
  · exact ⟨fun _ => h, fun _ => rfl⟩
  · exact ⟨False.elim, fun heof => absurd heof h⟩

theorem tokens_eq_cons :
    tokens specials s = tok :: toks →
      (token specials s).1 = tok ∧ tokens specials (token specials s).2 = toks := by
  intro heq
  rw [tokens] at heq
  split_ifs at heq with h
  exact ⟨(List.cons.inj heq).1, (List.cons.inj heq).2⟩

end Rrdtool.Parsetime
