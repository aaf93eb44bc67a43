import Mathlib

set_option autoImplicit false

universe u

-- A run returns, goes wrong, or is still going when its fuel is spent.
inductive Outcome (ε α : Type) where
  | done (value : α)
  | fault (error : ε)
  | spin
  deriving DecidableEq, Repr

namespace Outcome

variable {ε α β γ : Type}

def bind : Outcome ε α → (α → Outcome ε β) → Outcome ε β
  | .done value, next => next value
  | .fault error, _ => .fault error
  | .spin, _ => .spin

instance : Monad (Outcome ε) where
  pure := .done
  bind := bind

@[simp] theorem pure_eq (value : α) : (pure value : Outcome ε α) = .done value := rfl

@[simp] theorem done_bind (value : α) (next : α → Outcome ε β) :
    (Outcome.done value >>= next) = next value := rfl

@[simp] theorem fault_bind (error : ε) (next : α → Outcome ε β) :
    ((Outcome.fault error : Outcome ε α) >>= next) = .fault error := rfl

@[simp] theorem spin_bind (next : α → Outcome ε β) :
    ((Outcome.spin : Outcome ε α) >>= next) = .spin := rfl

@[simp] theorem bind_done (run : Outcome ε α) : run >>= Outcome.done = run := by
  cases run <;> rfl

theorem bind_assoc (run : Outcome ε α) (next : α → Outcome ε β) (last : β → Outcome ε γ) :
    (run >>= next) >>= last = run >>= fun value => next value >>= last := by
  cases run <;> rfl

theorem bind_eq_done (run : Outcome ε α) (next : α → Outcome ε β) (result : β) :
    run >>= next = .done result ↔ ∃ value, run = .done value ∧ next value = .done result := by
  cases run with
  | done value => simp
  | fault error => simp
  | spin => simp

def Extends (run run' : Outcome ε α) : Prop := ∀ value, run = .done value → run' = .done value

theorem Extends.refl (run : Outcome ε α) : Extends run run := fun _ returns => returns

theorem Extends.bind {run run' : Outcome ε α} {next next' : α → Outcome ε β}
    (first : Extends run run') (rest : ∀ value, Extends (next value) (next' value)) :
    Extends (run >>= next) (run' >>= next') := by
  intro result returns
  obtain ⟨value, ran, continued⟩ := (bind_eq_done _ _ _).1 returns
  rw [first value ran]
  exact rest value result continued

def need (error : ε) : Option α → Outcome ε α
  | some value => .done value
  | none => .fault error

@[simp] theorem need_some (error : ε) (value : α) : need error (some value) = .done value := rfl

@[simp] theorem need_none (error : ε) : need error (none : Option α) = .fault error := rfl

theorem need_extends (error : ε) {found found' : Option α}
    (known : ∀ value, found = some value → found' = some value) :
    Extends (need error found) (need error found') := by
  intro value returns
  cases found with
  | none => cases returns
  | some other =>
    rw [known other rfl]
    exact returns

end Outcome
