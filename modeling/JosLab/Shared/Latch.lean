import Mathlib

set_option autoImplicit false

namespace JosLab.Latch

inductive Event (α : Type) where
  | press (key : α)
  | release (key : α)
  deriving DecidableEq, Repr

variable {α : Type} [DecidableEq α]

def Event.key : Event α → α
  | .press key => key
  | .release key => key

def Event.down : Event α → Bool
  | .press _ => true
  | .release _ => false

def held (events : List (Event α)) : α → Bool :=
  events.foldl (fun held event => Function.update held event.key event.down) fun _ => false

def latch (group : List α) (bit : Bool) (event : Event α) : Bool :=
  if event.key ∈ group then event.down else bit

def latched (group : List α) (events : List (Event α)) : Bool := events.foldl (latch group) false

def lastOn (group : List α) (events : List (Event α)) : Option (Event α) :=
  events.reverse.find? fun event => event.key ∈ group

def Settled (group : List α) (events : List (Event α)) : Prop :=
  ∀ key, lastOn group events = some (.release key) → ∀ other ∈ group, held events other = false

theorem held_snoc (events : List (Event α)) (event : Event α) :
    held (events ++ [event]) = Function.update (held events) event.key event.down := by
  simp [held]

theorem latched_snoc (group : List α) (events : List (Event α)) (event : Event α) :
    latched group (events ++ [event]) = latch group (latched group events) event := by
  simp [latched]

theorem lastOn_snoc (group : List α) (events : List (Event α)) (event : Event α) :
    lastOn group (events ++ [event]) =
      if event.key ∈ group then some event else lastOn group events := by
  by_cases member : event.key ∈ group <;> simp [lastOn, member]

theorem lastOn_correct (group : List α) (events : List (Event α)) :
    match lastOn group events with
    | none => latched group events = false ∧ ∀ key ∈ group, held events key = false
    | some event => latched group events = event.down ∧ event.key ∈ group ∧
        held events event.key = event.down := by
  induction events using List.reverseRecOn with
  | nil => simp [lastOn, latched, held]
  | append_singleton events event ih =>
    rw [lastOn_snoc, latched_snoc, held_snoc]
    by_cases member : event.key ∈ group
    next => simp [member, latch]
    next =>
      have other (key : α) (inside : key ∈ group) : key ≠ event.key :=
        fun same => member (same ▸ inside)
      simp only [member, if_false, latch]
      cases last : lastOn group events with
      | none =>
        rw [last] at ih
        refine ⟨ih.1, fun key inside => ?_⟩
        rw [Function.update_of_ne (other key inside)]
        exact ih.2 key inside
      | some before =>
        rw [last] at ih
        obtain ⟨bit, inside, down⟩ := ih
        refine ⟨bit, inside, ?_⟩
        rwa [Function.update_of_ne (other before.key inside)]

theorem latched_exact (group : List α) (events : List (Event α)) :
    (latched group events = true ↔ ∃ key ∈ group, held events key = true) ↔
      Settled group events := by
  have correct := lastOn_correct group events
  unfold Settled
  cases last : lastOn group events with
  | none =>
    rw [last] at correct
    simp [correct.1]
    exact correct.2
  | some event =>
    rw [last] at correct
    obtain ⟨bit, inside, down⟩ := correct
    cases event with
    | press key =>
      have witness : ∃ key ∈ group, held events key = true := ⟨key, inside, down⟩
      simpa [bit, Event.down] using witness
    | release key => simp [bit, Event.down]

end JosLab.Latch
