import JosLab.Shared.Outcome

set_option autoImplicit false

inductive Accesses (α β ρ : Type) where
  | ret (result : ρ)
  | load (a : α) (next : β → Accesses α β ρ)
  | store (a : α) (b : β) (next : Accesses α β ρ)

namespace Accesses

variable {ε ε' α β ρ σ σ' : Type}

structure Port (ε σ α β : Type) where
  load : σ → α → Outcome ε β
  store : α → β → σ → Outcome ε σ

def run (port : Port ε σ α β) : Accesses α β ρ → σ → Outcome ε (ρ × σ)
  | .ret result, state => .done (result, state)
  | .load a next, state => do
      let b ← port.load state a
      (next b).run port state
  | .store a b next, state => do
      next.run port (← port.store a b state)

structure Refines (related : σ → σ' → Prop) (port : Port ε σ α β) (port' : Port ε' σ' α β) :
    Prop where
  load : ∀ state state' a b, related state state' → port.load state a = .done b →
    port'.load state' a = .done b
  store : ∀ state state' next a b, related state state' → port.store a b state = .done next →
    ∃ next', port'.store a b state' = .done next' ∧ related next next'

theorem Refines.run {related : σ → σ' → Prop} {port : Port ε σ α β} {port' : Port ε' σ' α β}
    (refines : Refines related port port') (program : Accesses α β ρ) {state last : σ} {state' : σ'}
    {result : ρ} (start : related state state')
    (ran : program.run port state = .done (result, last)) :
    ∃ last', program.run port' state' = .done (result, last') ∧ related last last' := by
  induction program generalizing state state' with
  | ret value =>
    cases ran
    exact ⟨state', rfl, start⟩
  | load a next ih =>
    simp only [Accesses.run, Outcome.bind_eq_done] at ran
    obtain ⟨b, loaded, ran⟩ := ran
    obtain ⟨last', ran', ends⟩ := ih b start ran
    have loaded' := refines.load state state' a b start loaded
    refine ⟨last', ?_, ends⟩
    rw [Accesses.run, loaded', Outcome.done_bind]
    exact ran'
  | store a b next ih =>
    simp only [Accesses.run, Outcome.bind_eq_done] at ran
    obtain ⟨middle, stored, ran⟩ := ran
    obtain ⟨middle', stored', kept⟩ := refines.store state state' middle a b start stored
    obtain ⟨last', ran', ends⟩ := ih kept ran
    refine ⟨last', ?_, ends⟩
    rw [Accesses.run, stored', Outcome.done_bind]
    exact ran'

end Accesses
