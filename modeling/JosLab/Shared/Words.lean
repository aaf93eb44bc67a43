import Mathlib

set_option autoImplicit false

namespace Words

variable {α : Type} (blank : α → Bool)

def words (line : List α) : List (List α) :=
  (line.splitOnP blank).filter fun word => !word.isEmpty

theorem words_nil : words blank [] = [] := by
  simp [words]

theorem words_blank (head : α) (rest : List α) (here : blank head = true) :
    words blank (head :: rest) = words blank rest := by
  simp [words, List.splitOnP_cons_eq_if_modifyHead, here]

theorem words_dropWhile (line : List α) : words blank (line.dropWhile blank) = words blank line := by
  induction line with
  | nil => rfl
  | cons head rest ih =>
    by_cases here : blank head = true
    next => rw [List.dropWhile_cons_of_pos here, ih, words_blank blank head rest here]
    next => rw [List.dropWhile_cons_of_neg here]

theorem words_word (word rest : List α) (some : word ≠ [])
    (solid : ∀ c ∈ word, blank c = false) (ends : ∀ c ∈ rest.head?, blank c = true) :
    words blank (word ++ rest) = word :: words blank rest := by
  cases rest with
  | nil => simp [words, List.splitOnP_eq_singleton solid, some]
  | cons head rest =>
    have here := ends head rfl
    rw [words_blank blank head rest here, words,
      List.splitOnP_append_cons_of_forall_mem solid head here, List.filter_cons_of_pos (by simpa)]
    rfl

structure Split (gap word rest : List α) : Prop where
  gaps : ∀ c ∈ gap, blank c = true
  nonempty : word ≠ []
  solid : ∀ c ∈ word, blank c = false
  ends : ∀ c ∈ rest.head?, blank c = true

variable {blank}

theorem words_of_blank {line : List α} (all : ∀ c ∈ line, blank c = true) : words blank line = [] := by
  rw [← words_dropWhile, List.dropWhile_eq_nil_iff.2 all, words_nil]

variable (blank) in
theorem split_cases (line : List α) :
    (∀ c ∈ line, blank c = true) ∨
      ∃ gap word rest, line = gap ++ (word ++ rest) ∧ Split blank gap word rest := by
  by_cases all : line.dropWhile blank = []
  next => exact .inl (List.dropWhile_eq_nil_iff.1 all)
  next =>
    refine .inr ⟨line.takeWhile blank, (line.dropWhile blank).takeWhile fun c => !blank c,
      (line.dropWhile blank).dropWhile fun c => !blank c, by simp, ?_, ?_, ?_, ?_⟩
    next => exact fun c member => List.mem_takeWhile_imp member
    next =>
      have first := List.head_dropWhile_not blank all
      cases after : line.dropWhile blank with
      | nil => exact absurd after all
      | cons c more =>
        simp only [after, List.head_cons] at first
        simp [first]
    next => exact fun c member => by simpa using List.mem_takeWhile_imp member
    next =>
      intro c member
      have last := List.head?_dropWhile_not (fun c => !blank c) (line.dropWhile blank)
      rw [Option.mem_def.1 member] at last
      simpa using last

namespace Split

variable {gap word rest : List α} (parts : Split blank gap word rest)

include parts

theorem words_eq : words blank (gap ++ (word ++ rest)) = word :: words blank rest := by
  rw [← words_dropWhile, List.dropWhile_append_of_pos parts.gaps, words_dropWhile,
    words_word blank word rest parts.nonempty parts.solid parts.ends]

theorem gap_eq : (gap ++ (word ++ rest)).takeWhile blank = gap := by
  cases word with
  | nil => exact absurd rfl parts.nonempty
  | cons c word =>
    have here := parts.solid c (by simp)
    rw [List.takeWhile_append_of_pos parts.gaps, List.cons_append,
      List.takeWhile_cons_of_neg (by simp [here]), List.append_nil]

theorem word_eq : (word ++ rest).takeWhile (fun c => !blank c) = word := by
  rw [List.takeWhile_append_of_pos fun c member => by simp [parts.solid c member]]
  cases rest with
  | nil => simp
  | cons c rest =>
    have here := parts.ends c rfl
    rw [List.takeWhile_cons_of_neg (by simp [here]), List.append_nil]

end Split

example : words (· = 32) [32, 97, 98, 32, 32, 99] = [[97, 98], [99]] := by decide

end Words
