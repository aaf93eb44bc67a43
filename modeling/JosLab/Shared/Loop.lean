import JosLab.Shared.Outcome

set_option autoImplicit false

inductive Pass (σ ρ : Type) where
  | again (state : σ)
  | leave (result : ρ)
  deriving DecidableEq, Repr

namespace Loop

variable {ε σ ρ : Type}

def run (body : σ → Outcome ε (Pass σ ρ)) : Nat → σ → Outcome ε ρ
  | 0, _ => .spin
  | fuel + 1, state =>
      match body state with
      | .done (.again next) => run body fuel next
      | .done (.leave result) => .done result
      | .fault error => .fault error
      | .spin => .spin

variable {body : σ → Outcome ε (Pass σ ρ)}

theorem run_again {state next : σ} (fuel : Nat) (step : body state = .done (.again next)) :
    run body (fuel + 1) state = run body fuel next := by
  simp [run, step]

theorem run_leave {state : σ} {result : ρ} (fuel : Nat)
    (step : body state = .done (.leave result)) :
    run body (fuel + 1) state = .done result := by
  simp [run, step]

theorem run_fault {state : σ} {error : ε} (fuel : Nat) (step : body state = .fault error) :
    run body (fuel + 1) state = .fault error := by
  simp [run, step]

theorem run_bind {α : Type} {state : σ} (fuel : Nat) (inner : Outcome ε α) (next : α → σ)
    (step : body state = inner >>= fun value => .done (.again (next value))) :
    run body (fuel + 1) state = inner >>= fun value => run body fuel (next value) := by
  cases inner with
  | done value => exact run_again fuel step
  | fault error => exact run_fault fuel step
  | spin => simp [run, step]

theorem run_extends {body' : σ → Outcome ε (Pass σ ρ)}
    (passes : ∀ state, Outcome.Extends (body state) (body' state)) (fuel : Nat) (state : σ) :
    Outcome.Extends (run body fuel state) (run body' fuel state) := by
  induction fuel generalizing state with
  | zero => exact Outcome.Extends.refl .spin
  | succ fuel ih =>
    intro result returns
    cases step : body state with
    | done pass =>
      have step' := passes state pass step
      cases pass with
      | again next =>
        rw [run_again fuel step] at returns
        rw [run_again fuel step']
        exact ih next result returns
      | leave last =>
        rw [run_leave fuel step] at returns
        rw [run_leave fuel step']
        exact returns
    | fault error =>
      rw [run_fault fuel step] at returns
      cases returns
    | spin => simp [run, step] at returns

theorem one_more {count fuel : Nat} (enough : count < fuel) : ∃ more, fuel = more + 1 :=
  Nat.exists_eq_add_one.2 (Nat.zero_lt_of_lt enough)

def Progress (body : σ → Outcome ε (Pass σ ρ)) (inv : σ → Prop) (measure : σ → Nat)
    (post : ρ → Prop) (state : σ) : Prop :=
  (∃ next, body state = .done (.again next) ∧ inv next ∧ measure next < measure state) ∨
    ∃ result, body state = .done (.leave result) ∧ post result

theorem run_correct (inv : σ → Prop) (measure : σ → Nat) (post : ρ → Prop)
    (progress : ∀ state, inv state → Progress body inv measure post state)
    (fuel : Nat) (state : σ) (initial : inv state) (enough : measure state < fuel) :
    ∃ result, run body fuel state = .done result ∧ post result := by
  induction fuel generalizing state with
  | zero => omega
  | succ fuel ih =>
    rcases progress state initial with ⟨next, step, kept, less⟩ | ⟨result, step, holds⟩
    · rw [run_again fuel step]
      exact ih next kept (by omega)
    · exact ⟨result, run_leave fuel step, holds⟩

inductive Leaves (body : σ → Outcome ε (Pass σ ρ)) : Nat → σ → ρ → Prop where
  | now {state : σ} {result : ρ} (step : body state = .done (.leave result)) :
      Leaves body 0 state result
  | later {passes : Nat} {state next : σ} {result : ρ} (step : body state = .done (.again next))
      (rest : Leaves body passes next result) : Leaves body (passes + 1) state result

theorem Leaves.run_eq {passes : Nat} {state : σ} {result : ρ}
    (leaves : Leaves body passes state result) (fuel : Nat) (enough : passes < fuel) :
    run body fuel state = .done result := by
  induction leaves generalizing fuel with
  | now step =>
    obtain ⟨fuel, rfl⟩ := Nat.exists_eq_add_of_lt enough
    exact run_leave _ step
  | @later passes _ _ _ step _ ih =>
    obtain ⟨fuel, rfl⟩ := Nat.exists_eq_add_of_lt enough
    rw [run_again _ step]
    exact ih _ (by omega)

theorem run_forever (inv : σ → Prop)
    (again : ∀ state, inv state → ∃ next, body state = .done (.again next) ∧ inv next)
    (fuel : Nat) (state : σ) (initial : inv state) : run body fuel state = .spin := by
  induction fuel generalizing state with
  | zero => rfl
  | succ fuel ih =>
    obtain ⟨next, step, kept⟩ := again state initial
    rw [run_again fuel step]
    exact ih next kept

theorem run_never (inv : σ → Prop)
    (pass : ∀ state, inv state →
      (∃ error, body state = .fault error) ∨ ∃ next, body state = .done (.again next) ∧ inv next)
    (fuel : Nat) (state : σ) (initial : inv state) (result : ρ) :
    run body fuel state ≠ .done result := by
  induction fuel generalizing state with
  | zero => exact nofun
  | succ fuel ih =>
    rcases pass state initial with ⟨error, step⟩ | ⟨next, step, kept⟩
    next =>
      rw [run_fault fuel step]
      exact nofun
    next =>
      rw [run_again fuel step]
      exact ih next kept

end Loop
