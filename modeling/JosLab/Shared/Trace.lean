import Mathlib

set_option autoImplicit false

inductive Trace {σ ε : Type} (step : σ → ε → σ → Prop) (start : σ) : List ε → σ → Prop where
  | nil : Trace step start [] start
  | snoc {events : List ε} {event : ε} {s s' : σ} (past : Trace step start events s)
      (stepped : step s event s') : Trace step start (events ++ [event]) s'

namespace Trace

variable {σ ε : Type} {step : σ → ε → σ → Prop} {start : σ}

theorem last {events : List ε} {event : ε} {s' : σ}
    (trace : Trace step start (events ++ [event]) s') :
    ∃ s, Trace step start events s ∧ step s event s' := by
  generalize all : events ++ [event] = full at trace
  cases trace with
  | nil => simp at all
  | snoc past stepped =>
    obtain ⟨rfl, rfl⟩ := List.append_singleton_inj.1 all
    exact ⟨_, past, stepped⟩

theorem before {events early : List ε} {s : σ} (trace : Trace step start events s)
    (leads : early <+: events) : ∃ s', Trace step start early s' := by
  induction trace with
  | nil =>
    rw [List.prefix_nil.1 leads]
    exact ⟨start, .nil⟩
  | snoc past stepped ih =>
    cases List.prefix_concat_iff.1 leads with
    | inl all =>
      rw [all]
      exact ⟨_, past.snoc stepped⟩
    | inr shorter => exact ih shorter

end Trace
