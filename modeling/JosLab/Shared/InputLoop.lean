import JosLab.Shared.Loop

set_option autoImplicit false

namespace InputLoop

variable {ε α σ τ ρ : Type}

def pass (body : α → σ → Outcome ε (Pass σ ρ)) :
    List α × σ → Outcome ε (Pass (List α × σ) ρ)
  | ([], _) => .spin
  | (input :: rest, state) => do
      match ← body input state with
      | .again next => return .again (rest, next)
      | .leave result => return .leave result

def feed (body : α → σ → Outcome ε (Pass σ ρ)) : List α → σ → Outcome ε (Pass σ ρ)
  | [], state => return .again state
  | input :: rest, state => do
      match ← body input state with
      | .again next => feed body rest next
      | .leave result => return .leave result

theorem run_feed {body : α → σ → Outcome ε (Pass σ ρ)} {inputs rest : List α} {stop : α}
    {state last : σ} {result : ρ} (fed : feed body inputs state = .done (.again last))
    (stopped : body stop last = .done (.leave result)) (fuel : Nat)
    (enough : inputs.length < fuel) :
    Loop.run (pass body) fuel (inputs ++ stop :: rest, state) = .done result := by
  induction inputs generalizing state fuel with
  | nil =>
    cases fed
    obtain ⟨fuel, rfl⟩ := Nat.exists_eq_add_of_lt enough
    exact Loop.run_leave _ (by simp [pass, stopped])
  | cons input inputs ih =>
    rw [List.length_cons] at enough
    obtain ⟨fuel, rfl⟩ := Nat.exists_eq_add_of_lt enough
    obtain ⟨first, step, others⟩ := (Outcome.bind_eq_done _ _ _).1 fed
    cases first with
    | leave early => cases others
    | again next =>
      rw [Loop.run_again _ (by simp [pass, step]; rfl)]
      exact ih others _ (by omega)

theorem feed_stop {body : α → σ → Outcome ε (Pass σ ρ)} {inputs rest : List α} {stop : α}
    {state last : σ} {result : ρ} (fed : feed body inputs state = .done (.again last))
    (stopped : body stop last = .done (.leave result)) :
    feed body (inputs ++ stop :: rest) state = .done (.leave result) := by
  induction inputs generalizing state with
  | nil =>
    cases fed
    simp [feed, stopped]
  | cons input inputs ih =>
    obtain ⟨first, step, others⟩ := (Outcome.bind_eq_done _ _ _).1 fed
    cases first with
    | leave early => cases others
    | again next => simpa [feed, step] using ih others

def Simulates (body : α → σ → Outcome ε (Pass σ ρ)) (accepts : α → Prop) (abstract : τ → α → τ)
    (related : σ → τ → Prop) : Prop :=
  ∀ input s t, accepts input → related s t →
    ∃ s', body input s = .done (.again s') ∧ related s' (abstract t input)

theorem Simulates.feed {body : α → σ → Outcome ε (Pass σ ρ)} {accepts : α → Prop}
    {abstract : τ → α → τ} {related : σ → τ → Prop}
    (simulates : Simulates body accepts abstract related) (inputs : List α) (s : σ) (t : τ)
    (accepted : ∀ input ∈ inputs, accepts input) (start : related s t) :
    ∃ s', InputLoop.feed body inputs s = .done (.again s') ∧
      related s' (inputs.foldl abstract t) := by
  induction inputs generalizing s t with
  | nil => exact ⟨s, rfl, start⟩
  | cons input rest ih =>
    obtain ⟨next, stepped, kept⟩ := simulates input s t (accepted input (by simp)) start
    obtain ⟨last, ran, reached⟩ := ih next (abstract t input)
      (fun later member => accepted later (by simp [member])) kept
    exact ⟨last, by simp [InputLoop.feed, stepped, ran], reached⟩

end InputLoop
