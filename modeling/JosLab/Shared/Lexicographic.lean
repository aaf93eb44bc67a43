import Mathlib

set_option autoImplicit false

namespace Lexicographic

variable {α : Type} [DecidableEq α]

def agree : List α → List α → Nat
  | x :: xs, y :: ys => if x = y then agree xs ys + 1 else 0
  | _, _ => 0

@[simp] theorem agree_nil_left (ys : List α) : agree [] ys = 0 := by
  cases ys <;> rfl

@[simp] theorem agree_nil_right (xs : List α) : agree xs [] = 0 := by
  cases xs <;> rfl

@[simp] theorem agree_cons_same (x : α) (xs ys : List α) :
    agree (x :: xs) (x :: ys) = agree xs ys + 1 := by
  simp [agree]

theorem agree_cons_differ {x y : α} (differ : x ≠ y) (xs ys : List α) :
    agree (x :: xs) (y :: ys) = 0 := by
  simp [agree, differ]

theorem agree_comm (xs ys : List α) : agree xs ys = agree ys xs := by
  induction xs generalizing ys with
  | nil => simp
  | cons x xs ih =>
    cases ys with
    | nil => simp
    | cons y ys =>
      by_cases same : x = y
      · subst same
        simp [ih]
      · rw [agree_cons_differ same, agree_cons_differ (Ne.symm same)]

theorem agree_le (xs ys : List α) : agree xs ys ≤ xs.length := by
  induction xs generalizing ys with
  | nil => simp
  | cons x xs ih =>
    cases ys with
    | nil => simp
    | cons y ys =>
      by_cases same : x = y
      · subst same
        simpa using ih ys
      · simp [agree_cons_differ same]

theorem agree_take (n : Nat) (xs ys : List α) :
    agree (xs.take n) (ys.take n) = min n (agree xs ys) := by
  induction xs generalizing n ys with
  | nil => simp
  | cons x xs ih =>
    cases n with
    | zero => simp
    | succ n =>
      cases ys with
      | nil => simp
      | cons y ys =>
        by_cases same : x = y
        · subst same
          simp [ih, Nat.add_min_add_right]
        · simp [agree_cons_differ same]

variable [Ord α] [Std.LawfulEqOrd α]

theorem compare_first (xs ys : List α) :
    compare xs ys = compare xs[agree xs ys]? ys[agree xs ys]? := by
  induction xs generalizing ys with
  | nil => cases ys <;> rfl
  | cons x xs ih =>
    cases ys with
    | nil => rfl
    | cons y ys =>
      by_cases same : x = y
      · subst same
        simpa using ih ys
      · have decided : compare x y ≠ .eq := fun equal => same (Std.LawfulEqOrd.eq_of_compare equal)
        rw [agree_cons_differ same, List.compare_cons_cons]
        cases order : compare x y with
        | lt => exact order.symm
        | eq => exact absurd order decided
        | gt => exact order.symm

theorem compare_take (n : Nat) (xs ys : List α) :
    compare (xs.take n) (ys.take n) =
      if agree xs ys < n then compare xs[agree xs ys]? ys[agree xs ys]? else .eq := by
  rw [compare_first, agree_take]
  split
  next before =>
    rw [min_eq_right (by omega), List.getElem?_take_of_lt before, List.getElem?_take_of_lt before]
  next after =>
    rw [min_eq_left (by omega), List.getElem?_take, List.getElem?_take, if_neg (lt_irrefl n),
      if_neg (lt_irrefl n)]
    rfl

end Lexicographic
