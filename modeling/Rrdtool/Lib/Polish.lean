import Mathlib.Data.List.Induction
import Mathlib.Data.List.OfFn
import Mathlib.Data.Option.Basic

/-!
# Reverse Polish notation

Expressions over symbols that have an arity, their listing with every symbol behind its operands, and the
stack machine that works such listings off, in any algebra. Besides the symbols the machine has the three
instructions that move what is on the stack: duplicate, exchange and drop.

* `run_code` — a listing leaves the value of its expression on the stack;
* `run_map` — the machine follows a homomorphism, so `run_symbolic`: it computes in any algebra what it
  computes with the expressions themselves;
* `run_eq_some_iff` — a program of symbols leaves one value exactly if it lists an expression;
* `code_injective` — which is only one.
-/

namespace Polish

universe u v w

/-- An expression: a symbol with as many operands as its arity. -/
inductive Term {σ : Type u} (arity : σ → ℕ) : Type u where
  /-- a symbol and its operands -/
  | app (f : σ) (args : Fin (arity f) → Term arity) : Term arity

/-- An instruction of the stack machine. -/
inductive Instr (σ : Type u) : Type u where
  /-- the operands are replaced by a result -/
  | sym (f : σ)
  /-- the top is pushed again -/
  | dup
  /-- the two elements on top change places -/
  | exc
  /-- the top is dropped -/
  | pop

variable {σ : Type u} {arity : σ → ℕ} {α : Type v} {β : Type w}

namespace Term

/-- The value of an expression. -/
def eval (apply : (f : σ) → (Fin (arity f) → α) → α) : Term arity → α
  | app f args => apply f fun i => (args i).eval apply

/-- The listing of an expression: every symbol behind its operands. -/
def code : Term arity → List σ
  | app f args => (List.ofFn fun i => (args i).code).flatten ++ [f]

/-- The value in the algebra of the expressions is the expression. -/
theorem eval_app (t : Term arity) : t.eval app = t := by
  induction t with
  | app f args ih =>
    rw [eval]
    exact congrArg (app f) (funext ih)

/-- Values follow a homomorphism. -/
theorem map_eval {apply : (f : σ) → (Fin (arity f) → α) → α} {apply' : (f : σ) → (Fin (arity f) → β) → β}
    {h : α → β} (hhom : ∀ f args, h (apply f args) = apply' f (h ∘ args)) (t : Term arity) :
    h (t.eval apply) = t.eval apply' := by
  induction t with
  | app f args ih =>
    rw [eval, eval, hhom]
    exact congrArg (apply' f) (funext ih)

end Term

/-! ## The machine -/

/-- The `n` elements on top of a stack, the deepest one first. -/
def operands (n : ℕ) (s : List α) (h : n ≤ s.length) (i : Fin n) : α := s.get ⟨n - 1 - i, by omega⟩

/-- One instruction. The stack has its top first. -/
def step (apply : (f : σ) → (Fin (arity f) → α) → α) : Instr σ → List α → Option (List α)
  | .sym f, s => if h : arity f ≤ s.length then some (apply f (operands _ s h) :: s.drop (arity f)) else none
  | .dup, a :: s => some (a :: a :: s)
  | .exc, b :: a :: s => some (a :: b :: s)
  | .pop, _ :: s => some s
  | .dup, [] => none
  | .exc, [] => none
  | .exc, [_] => none
  | .pop, [] => none

/-- A program. -/
def run (apply : (f : σ) → (Fin (arity f) → α) → α) : List (Instr σ) → List α → Option (List α)
  | [], s => some s
  | i :: p, s => (step apply i s).bind (run apply p)

/-- A program of symbols. -/
def symbols (p : List σ) : List (Instr σ) := p.map .sym

variable {apply : (f : σ) → (Fin (arity f) → α) → α}

theorem run_append (p q : List (Instr σ)) (s : List α) :
    run apply (p ++ q) s = (run apply p s).bind (run apply q) := by
  induction p generalizing s with
  | nil => rfl
  | cons i p ih =>
    rw [List.cons_append, run, run, Option.bind_assoc]
    exact congrArg _ (funext ih)

/-- The last instruction. -/
theorem run_concat (p : List (Instr σ)) (i : Instr σ) (s : List α) :
    run apply (p ++ [i]) s = (run apply p s).bind (step apply i) := by
  rw [run_append]
  refine congrArg _ (funext fun t => ?_)
  rw [run]
  cases step apply i t with
  | none => rfl
  | some u => rfl

theorem symbols_concat (p : List σ) (f : σ) : symbols (p ++ [f]) = symbols p ++ [.sym f] := List.map_append

/-- An instruction depends on the meaning of its symbol only. -/
theorem step_congr {apply' : (f : σ) → (Fin (arity f) → α) → α} {i : Instr σ}
    (h : ∀ f, i = .sym f → apply f = apply' f) (s : List α) : step apply i s = step apply' i s := by
  cases i with
  | sym f => rw [step, step, h f rfl]
  | dup =>
    cases s with
    | nil => rfl
    | cons a s => rfl
  | exc =>
    rcases s with _ | ⟨b, _ | ⟨a, s⟩⟩
    · rfl
    · rfl
    · rfl
  | pop =>
    cases s with
    | nil => rfl
    | cons a s => rfl

/-! ## Operands -/

/-- The operands are what is on top. -/
theorem ofFn_operands {n : ℕ} {s : List α} (h : n ≤ s.length) :
    List.ofFn (operands n s h) = (s.take n).reverse := by
  refine List.ext_getElem ?_ fun i hi _ => ?_
  · rw [List.length_ofFn, List.length_reverse, List.length_take, min_eq_left h]
  · rw [List.length_ofFn] at hi
    rw [List.getElem_ofFn, operands, List.getElem_reverse, List.getElem_take, List.get_eq_getElem]
    congr 1
    rw [List.length_take, min_eq_left h]

/-- Operands that have been put onto the stack one after the other. -/
theorem operands_append {n : ℕ} (args : Fin n → α) (s : List α)
    (h : n ≤ ((List.ofFn args).reverse ++ s).length) :
    operands n ((List.ofFn args).reverse ++ s) h = args := by
  refine List.ofFn_injective ?_
  rw [ofFn_operands, List.take_left' (by simp), List.reverse_reverse]

theorem operands_map (g : α → β) {n : ℕ} {s : List α} (h : n ≤ s.length) (h' : n ≤ (s.map g).length) :
    operands n (s.map g) h' = g ∘ operands n s h := by
  funext i
  simp [operands]

/-! ## Listings -/

/-- The operands one after the other. -/
theorem run_flatten {n : ℕ} (args : Fin n → Term arity)
    (ih : ∀ i s, run apply (symbols (args i).code) s = some ((args i).eval apply :: s)) (s : List α) :
    run apply (symbols (List.ofFn fun i => (args i).code).flatten) s =
      some ((List.ofFn fun i => (args i).eval apply).reverse ++ s) := by
  induction n generalizing s with
  | zero => rfl
  | succ n ihn =>
    rw [List.ofFn_succ, List.flatten_cons, symbols, List.map_append, run_append, ← symbols, ih 0, Option.bind_some,
      ← symbols, ihn _ fun i => ih i.succ, List.ofFn_succ, List.reverse_cons, List.append_assoc,
      List.singleton_append]

/-- **A listing leaves the value of its expression** on the stack. -/
theorem run_code (t : Term arity) (s : List α) :
    run apply (symbols t.code) s = some (t.eval apply :: s) := by
  induction t generalizing s with
  | app f args ih =>
    have hlen : arity f ≤ ((List.ofFn fun i => (args i).eval apply).reverse ++ s).length := by simp
    rw [Term.code, symbols_concat, run_concat, run_flatten args ih, Option.bind_some, step, dif_pos hlen, operands_append,
      List.drop_left' (by simp)]
    rfl

/-! ## Homomorphisms -/

section Map

variable {apply' : (f : σ) → (Fin (arity f) → β) → β} {h : α → β}
  (hhom : ∀ f args, h (apply f args) = apply' f (h ∘ args))

include hhom

theorem step_map (i : Instr σ) (s : List α) :
    step apply' i (s.map h) = (step apply i s).map (List.map h) := by
  cases i with
  | sym f =>
    by_cases hlen : arity f ≤ s.length
    · have hlen' : arity f ≤ (s.map h).length := hlen.trans_eq (List.length_map h).symm
      rw [step, step, dif_pos hlen, dif_pos hlen', operands_map h hlen, ← hhom, ← List.map_drop]
      rfl
    · have hlen' : ¬ arity f ≤ (s.map h).length := fun hle => hlen (hle.trans_eq (List.length_map h))
      rw [step, step, dif_neg hlen, dif_neg hlen']
      rfl
  | dup =>
    cases s with
    | nil => rfl
    | cons a s => rfl
  | exc =>
    cases s with
    | nil => rfl
    | cons b s =>
      cases s with
      | nil => rfl
      | cons a s => rfl
  | pop =>
    cases s with
    | nil => rfl
    | cons a s => rfl

/-- **The machine follows a homomorphism.** -/
theorem run_map (p : List (Instr σ)) (s : List α) :
    run apply' p (s.map h) = (run apply p s).map (List.map h) := by
  induction p generalizing s with
  | nil => rfl
  | cons i p ih =>
    rw [run, run, step_map hhom]
    cases step apply i s with
    | none => rfl
    | some t => exact ih t

end Map

/-- **What a program computes** is the value of what it computes with expressions. -/
theorem run_symbolic (p : List (Instr σ)) :
    run apply p [] = (run Term.app p []).map (List.map (Term.eval apply)) :=
  run_map (fun f args => by rw [Term.eval]; rfl) p []

/-! ## Unique reading -/

/-- The stack of expressions lists what has been worked off. -/
theorem flatten_code_of_run {p : List σ} {ts : List (Term arity)}
    (h : run Term.app (symbols p) [] = some ts) : (ts.reverse.map Term.code).flatten = p := by
  induction p using List.reverseRecOn generalizing ts with
  | nil =>
    obtain rfl := Option.some.inj h
    rfl
  | append_singleton p f ih =>
    rw [symbols_concat, run_concat] at h
    obtain ⟨us, hus, hstep⟩ := Option.bind_eq_some_iff.mp h
    have hp := ih hus
    rw [step] at hstep
    split_ifs at hstep with hlen
    obtain rfl := Option.some.inj hstep
    have hsplit : us.reverse = (us.drop (arity f)).reverse ++ (us.take (arity f)).reverse := by
      rw [← List.reverse_append, List.take_append_drop]
    have hargs : (List.ofFn fun i => (operands (arity f) us hlen i).code) =
        (us.take (arity f)).reverse.map Term.code := by
      rw [← ofFn_operands hlen, List.map_ofFn]
      rfl
    rw [hsplit, List.map_append, List.flatten_append] at hp
    rw [List.reverse_cons, List.map_append, List.flatten_append, List.map_singleton, List.flatten_singleton,
      Term.code, hargs, ← List.append_assoc, hp]

/-- **Unique reading**: a program of symbols leaves one value exactly if it lists an expression with that value. -/
theorem run_eq_some_iff {p : List σ} {v : α} :
    run apply (symbols p) [] = some [v] ↔ ∃ t : Term arity, t.code = p ∧ t.eval apply = v := by
  constructor
  · intro h
    rw [run_symbolic] at h
    obtain ⟨ts, hts, hmap⟩ := Option.map_eq_some_iff.mp h
    obtain ⟨t, rfl, ht⟩ := List.map_eq_singleton_iff.mp hmap
    refine ⟨t, ?_, ht⟩
    have hcode := flatten_code_of_run hts
    rwa [List.reverse_singleton, List.map_singleton, List.flatten_singleton] at hcode
  · rintro ⟨t, rfl, rfl⟩
    exact run_code t []

/-- **An expression can be read off its listing.** -/
theorem code_injective : Function.Injective (Term.code : Term arity → List σ) := by
  intro t t' h
  have ht : run Term.app (symbols t.code) [] = some [t.eval Term.app] := run_code t []
  rw [h, run_code, Term.eval_app, Term.eval_app] at ht
  exact (List.cons.inj (Option.some.inj ht)).1.symm

end Polish
