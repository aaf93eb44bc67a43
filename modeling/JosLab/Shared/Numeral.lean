import Mathlib

set_option autoImplicit false

namespace JosLab.Numeral

def numeral (base n : Nat) : List Nat := if n = 0 then [0] else (Nat.digits base n).reverse

def value (base : Nat) (digits : List Nat) : Nat :=
  digits.foldl (fun value digit => value * base + digit) 0

variable {base n : Nat}

theorem numeral_digit (lt : n < base) : numeral base n = [n] := by
  by_cases zero : n = 0
  next => simp [numeral, zero]
  next => simp [numeral, zero, Nat.digits_of_lt base n zero lt]

theorem numeral_step (two : 2 ≤ base) (le : base ≤ n) :
    numeral base n = numeral base (n / base) ++ [n % base] := by
  have some : n ≠ 0 := by omega
  have more : n / base ≠ 0 := by
    have positive := Nat.div_pos le (by omega)
    omega
  rw [numeral, if_neg some, numeral, if_neg more, Nat.digits_eq_cons_digits_div two some,
    List.reverse_cons]

theorem numeral_lt (two : 2 ≤ base) (digit : Nat) (member : digit ∈ numeral base n) :
    digit < base := by
  unfold numeral at member
  split at member
  next =>
    simp at member
    omega
  next => exact Nat.digits_lt_base two (List.mem_reverse.mp member)

theorem numeral_positive (base n : Nat) : 0 < (numeral base n).length := by
  by_cases zero : n = 0
  next => simp [numeral, zero]
  next => simp [numeral, zero, List.length_pos_iff, Nat.digits_ne_nil_iff_ne_zero]

theorem numeral_cons (base n : Nat) : ∃ first rest, numeral base n = first :: rest :=
  List.exists_cons_of_length_pos (numeral_positive base n)

theorem numeral_length (two : 2 ≤ base) {k : Nat} (some : 0 < k) (lt : n < base ^ k) :
    (numeral base n).length ≤ k := by
  unfold numeral
  split
  next => exact some
  next =>
    rw [List.length_reverse]
    exact (Nat.digits_length_le_iff two n).2 lt

theorem numeral_value (base n : Nat) : value base (numeral base n) = n := by
  unfold value numeral
  split
  next zero => simp [zero]
  next =>
    rw [List.foldl_reverse]
    have folded := Nat.ofDigits_digits base n
    rw [Nat.ofDigits_eq_foldr] at folded
    simpa [Nat.mul_comm, Nat.add_comm] using folded

theorem numeral_head (base n : Nat) : (numeral base n).head? = some 0 ↔ n = 0 := by
  by_cases zero : n = 0
  next => simp [numeral, zero]
  next =>
    have last := Nat.getLast_digit_ne_zero base zero
    have nonempty : Nat.digits base n ≠ [] := Nat.digits_ne_nil_iff_ne_zero.mpr zero
    simp [numeral, zero, List.head?_reverse, List.getLast?_eq_some_getLast nonempty, last]

structure Canonical (base n : Nat) (digits : List Nat) : Prop where
  positive : 1 ≤ digits.length
  small : ∀ digit ∈ digits, digit < base
  value : value base digits = n
  lead : digits.head? = some 0 → digits = [0]

theorem numeral_canonical (two : 2 ≤ base) (n : Nat) : Canonical base n (numeral base n) where
  positive := numeral_positive base n
  small := numeral_lt two
  value := numeral_value base n
  lead := by
    intro zero
    rw [(numeral_head base n).1 zero]
    rfl

end JosLab.Numeral
