import JosLab.Shared.Loop

set_option autoImplicit false

namespace Outcome

variable {ε ε' α α' β β' : Type} {faults : ε → ε' → Prop}

inductive Matches (faults : ε → ε' → Prop) (values : α → α' → Prop) :
    Outcome ε α → Outcome ε' α' → Prop where
  | done {value : α} {value' : α'} (related : values value value') :
      Matches faults values (.done value) (.done value')
  | fault {error : ε} {error' : ε'} (related : faults error error') :
      Matches faults values (.fault error) (.fault error')
  | spin : Matches faults values .spin .spin

theorem Matches.bind {values : α → α' → Prop} {results : β → β' → Prop} {run : Outcome ε α}
    {run' : Outcome ε' α'} {next : α → Outcome ε β} {next' : α' → Outcome ε' β'}
    (first : Matches faults values run run')
    (rest : ∀ value value', values value value' → Matches faults results (next value) (next' value')) :
    Matches faults results (run >>= next) (run' >>= next') := by
  cases first with
  | done related => exact rest _ _ related
  | fault related => exact .fault related
  | spin => exact .spin

def withFault (rename : ε → ε') : Outcome ε α → Outcome ε' α
  | .done value => .done value
  | .fault error => .fault (rename error)
  | .spin => .spin

theorem withFault_matches (rename : ε → ε') (run : Outcome ε α) :
    Matches (fun error error' => error' = rename error) Eq run (run.withFault rename) := by
  cases run with
  | done value => exact .done rfl
  | fault error => exact .fault rfl
  | spin => exact .spin

end Outcome

namespace Pass

variable {σ σ' ρ ρ' : Type}

inductive Matches (states : σ → σ' → Prop) (results : ρ → ρ' → Prop) :
    Pass σ ρ → Pass σ' ρ' → Prop where
  | again {state : σ} {state' : σ'} (related : states state state') :
      Matches states results (.again state) (.again state')
  | leave {result : ρ} {result' : ρ'} (related : results result result') :
      Matches states results (.leave result) (.leave result')

end Pass

namespace Loop

variable {ε ε' σ σ' ρ ρ' : Type} {faults : ε → ε' → Prop} {states : σ → σ' → Prop}
  {results : ρ → ρ' → Prop} {body : σ → Outcome ε (Pass σ ρ)} {body' : σ' → Outcome ε' (Pass σ' ρ')}

theorem run_matches
    (passes : ∀ state state', states state state' →
      Outcome.Matches faults (Pass.Matches states results) (body state) (body' state'))
    (fuel : Nat) (state : σ) (state' : σ') (initial : states state state') :
    Outcome.Matches faults results (run body fuel state) (run body' fuel state') := by
  induction fuel generalizing state state' with
  | zero => exact .spin
  | succ fuel ih =>
    have pass := passes state state' initial
    simp only [run]
    generalize body state = step, body' state' = step' at pass ⊢
    cases pass with
    | done related =>
      cases related with
      | again related => exact ih _ _ related
      | leave related => exact .done related
    | fault related => exact .fault related
    | spin => exact .spin

end Loop
