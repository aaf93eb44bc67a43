import JosLab.Shared.Loop

set_option autoImplicit false

namespace Outcome

variable {ε α β : Type}

def Safe (post : α → Prop) : Outcome ε α → Prop
  | .done value => post value
  | .fault _ => False
  | .spin => True

theorem Safe.bind {post : α → Prop} {last : β → Prop} {run : Outcome ε α}
    {next : α → Outcome ε β} (first : Safe post run)
    (rest : ∀ value, post value → Safe last (next value)) : Safe last (run >>= next) := by
  cases run with
  | done value => exact rest value first
  | fault error => exact first
  | spin => trivial

theorem Safe.spins {run : Outcome ε α} (safe : Safe (fun _ => False) run) : run = .spin := by
  cases run with
  | done value => exact safe.elim
  | fault error => exact safe.elim
  | spin => rfl

end Outcome

namespace Pass

variable {σ ρ : Type}

def Either (inv : σ → Prop) (post : ρ → Prop) : Pass σ ρ → Prop
  | .again state => inv state
  | .leave result => post result

end Pass

namespace Loop

variable {ε σ ρ : Type} {body : σ → Outcome ε (Pass σ ρ)}

theorem run_safe (inv : σ → Prop) (post : ρ → Prop)
    (passes : ∀ state, inv state → Outcome.Safe (Pass.Either inv post) (body state))
    (fuel : Nat) (state : σ) (initial : inv state) : Outcome.Safe post (run body fuel state) := by
  induction fuel generalizing state with
  | zero => trivial
  | succ fuel ih =>
    have pass := passes state initial
    cases step : body state with
    | done next =>
      rw [step] at pass
      cases next with
      | again next =>
        rw [run_again fuel step]
        exact ih next pass
      | leave result =>
        rw [run_leave fuel step]
        exact pass
    | fault error =>
      rw [step] at pass
      exact pass.elim
    | spin =>
      rw [run, step]
      trivial

end Loop
