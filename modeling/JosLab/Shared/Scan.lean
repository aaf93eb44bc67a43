import JosLab.Shared.Loop

set_option autoImplicit false

namespace Scan

variable {ε : Type}

def downPass (hit : Int → Outcome ε Bool) (low index : Int) : Outcome ε (Pass Int Int) :=
  if low ≤ index then do
    if ← hit index then return .leave index else return .again (index - 1)
  else return .leave index

def down (hit : Int → Outcome ε Bool) (low start : Int) : Outcome ε Int :=
  Loop.run (downPass hit low) ((start - low + 1).toNat + 1) start

theorem down_extends {hit hit' : Int → Outcome ε Bool}
    (tests : ∀ index, Outcome.Extends (hit index) (hit' index)) (low start : Int) :
    Outcome.Extends (down hit low start) (down hit' low start) := by
  refine Loop.run_extends (fun index => ?_) _ start
  unfold downPass
  split
  · exact (tests index).bind fun _ => .refl _
  · exact .refl _

structure Last (p : Int → Prop) (low start index : Int) : Prop where
  le_start : index ≤ start
  near_low : min start (low - 1) ≤ index
  holds : low ≤ index → p index
  none_above : ∀ i, low ≤ i → index < i → i ≤ start → ¬ p i

theorem Last.none_of_lt {p : Int → Prop} {low start index : Int} (last : Last p low start index)
    (missed : index < low) (i : Int) (low_le : low ≤ i) (le_start : i ≤ start) : ¬ p i :=
  last.none_above i low_le (by omega) le_start

theorem Last.found_of_mem {p : Int → Prop} {low start index i : Int} (last : Last p low start index)
    (low_le : low ≤ i) (le_start : i ≤ start) (holds : p i) : i ≤ index := by
  by_contra above
  exact last.none_above i low_le (by omega) le_start holds

theorem down_last (hit : Int → Outcome ε Bool) (p : Int → Prop) [DecidablePred p] (low start : Int)
    (reads : ∀ i, low ≤ i → i ≤ start → hit i = .done (decide (p i))) :
    ∃ index, down hit low start = .done index ∧ Last p low start index := by
  let inv := fun index : Int => index ≤ start ∧ min start (low - 1) ≤ index ∧
    ∀ i, low ≤ i → index < i → i ≤ start → ¬ p i
  refine Loop.run_correct inv (fun index => (index - low + 1).toNat) _ ?_ _ start
    ⟨le_rfl, by omega, fun i _ above below => by omega⟩ (by omega)
  rintro index ⟨le_start, near_low, none_above⟩
  by_cases inside : low ≤ index
  · have read := reads index inside le_start
    by_cases holds : p index
    · right
      exact ⟨index, by simp [downPass, inside, read, holds],
        ⟨le_start, near_low, fun _ => holds, none_above⟩⟩
    · left
      refine ⟨index - 1, by simp [downPass, inside, read, holds], ⟨by omega, by omega, ?_⟩, by dsimp only; omega⟩
      intro i low_le above le
      by_cases same : i = index
      · exact same ▸ holds
      · exact none_above i low_le (by omega) le
  · right
    exact ⟨index, by simp [downPass, inside],
      ⟨le_start, near_low, fun found => absurd found inside, none_above⟩⟩

end Scan
