import Mathlib

set_option autoImplicit false

namespace Runs

variable {α σ : Type} (p : α → Bool)

def Longest (text : σ → List α) (s : List α) (found : σ) : Prop :=
  text found <+: s ∧ ∀ other, text other <+: s → (text other).length ≤ (text found).length

theorem takeWhile_eq_nil (t : List α) : t.takeWhile p = [] ↔ t.head?.any p = false := by
  cases t with
  | nil => simp
  | cons head rest =>
    by_cases here : p head = true <;>
      simp [here]

theorem drop_takeWhile (t : List α) : t.drop (t.takeWhile p).length = t.dropWhile p := by
  induction t with
  | nil => rfl
  | cons head t ih =>
    by_cases here : p head = true <;>
      simp [here, ih]

variable {p}

theorem dropWhile_of_stop {t : List α} (stop : t.head?.any p = false) : t.dropWhile p = t := by
  rw [← drop_takeWhile, (takeWhile_eq_nil p t).2 stop]
  rfl

theorem prefix_takeWhile {l t : List α} (all : ∀ x ∈ l, p x = true) (starts : l <+: t) :
    l <+: t.takeWhile p := by
  obtain ⟨rest, rfl⟩ := starts
  rw [List.takeWhile_append_of_pos all]
  exact List.prefix_append l _

theorem run_append {l t : List α} (all : ∀ x ∈ l, p x = true) (stop : t.head?.any p = false) :
    (l ++ t).takeWhile p = l ∧ (l ++ t).dropWhile p = t := by
  rw [List.takeWhile_append_of_pos all, List.dropWhile_append_of_pos all,
    (takeWhile_eq_nil p t).2 stop, dropWhile_of_stop stop, List.append_nil]
  exact ⟨rfl, rfl⟩

end Runs
