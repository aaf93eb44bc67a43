import JosLab.Lib.Conversions
import JosLab.Lib.NumberGrammar

set_option autoImplicit false

namespace JosLab

open Printfmt Numeral Runs

def gobble : Chars → Outcome Fault Chars
  | [] => .fault .char
  | head :: s => if head = 32 ∨ head = 9 then gobble s else return head :: s

def strtolSign (s : Chars) : Outcome Fault (Chars × Bool) := do
  let head ← .need .char s.head?
  if head = 43 then return (s.tail, false)
  else if head = 45 then return (s.tail, true)
  else return (s, false)

def startsHex (s : Chars) : Outcome Fault Bool := do
  if (← .need .char s.head?) = 48 then return (← .need .char s[1]?) = 120 else return false

def strtolBase (s : Chars) (base : Int) : Outcome Fault (Chars × Int) := do
  if ← (if base = 0 ∨ base = 16 then startsHex s else return false) then return (s.drop 2, 16)
  else if base = 0 then
    if (← .need .char s.head?) = 48 then return (s.tail, 8) else return (s, 10)
  else return (s, base)

def strtolDigit (byte : UInt8) : Option Int :=
  let ch := charInt byte
  if 48 ≤ ch ∧ ch ≤ 57 then some (ch - 48)
  else if 97 ≤ ch ∧ ch ≤ 122 then some (ch - 97 + 10)
  else if 65 ≤ ch ∧ ch ≤ 90 then some (ch - 65 + 10)
  else none

-- we don't properly detect overflow!
def strtolDigits (base : Int) : Chars → Int → Outcome Fault (Int × Chars)
  | [], _ => .fault .char
  | head :: s, val =>
      match strtolDigit head with
      | none => return (val, head :: s)
      | some dig =>
          if base ≤ dig then return (val, head :: s)
          else strtolDigits base s (int32 (val * base + dig))

def strtol (s : Chars) (base : Int) : Outcome Fault (Int × Chars) := do
  let s ← gobble s
  let (s, neg) ← strtolSign s
  let (s, base) ← strtolBase s base
  let (val, s) ← strtolDigits base s 0
  return (if neg then int32 (-val) else val, s)

theorem strtolDigit_value (byte : UInt8) :
    strtolDigit byte = (digitValue byte).map fun digit : Nat => (digit : Int) := by
  revert byte
  decide +kernel

theorem strtolDigits_text (rest : Chars) (radix : Nat) (u : List UInt8) (start : Nat) :
    strtolDigits radix (u ++ 0 :: rest) (int32 start) =
      .done (int32 (((u.takeWhile (isDigitOf radix)).map fun byte => (digitValue byte).getD 0).foldl
        (fun value digit => value * radix + digit) start : Nat),
        u.dropWhile (isDigitOf radix) ++ 0 :: rest) := by
  induction u generalizing start with
  | nil => rfl
  | cons head u ih =>
    rw [List.cons_append, strtolDigits, strtolDigit_value]
    cases digit : digitValue head with
    | none => simp [isDigitOf, digit]
    | some dig =>
      by_cases inside : dig < radix
      next =>
        have next := ih (start * radix + dig)
        have outside : ¬ (radix : Int) ≤ dig := by omega
        have here : isDigitOf radix head = true := by simp [isDigitOf, digit, inside]
        simp only [Option.map_some, if_neg outside, int32_mul_add, List.takeWhile_cons_of_pos here,
          List.dropWhile_cons_of_pos here, List.map_cons, List.foldl_cons, digit, Option.getD_some]
        exact_mod_cast next
      next =>
        have outside : (radix : Int) ≤ dig := by omega
        have here : isDigitOf radix head = false := by simp [isDigitOf, digit, inside]
        simp [outside, here]

theorem startsHex_text (rest : Chars) (t : List UInt8) :
    startsHex (t ++ 0 :: rest) = .done ([48, 120].isPrefixOf t) := by
  cases t with
  | nil => rfl
  | cons first t =>
    by_cases zero : first = 48
    next =>
      subst zero
      cases t with
      | nil => rfl
      | cons second t =>
        by_cases x : second = 120
        next =>
          subst x
          rfl
        next => simp [startsHex, List.isPrefixOf, x, Ne.symm x]
    next => simp [startsHex, List.isPrefixOf, zero, Ne.symm zero]

def spelled (digits : List Nat) : Chars := digits.map digitChar

theorem digitChar_plain (digit : Nat) (lt : digit < 16) :
    digitChar digit ∉ [0, 9, 32, 43, 45, 120] ∧ (digitChar digit = 48 ↔ digit = 0) := by
  revert digit
  decide

theorem digitValue_digitChar (digit : Nat) (lt : digit < 16) :
    digitValue (digitChar digit) = some digit := by
  revert digit
  decide

theorem strtolDigits_spelled (base : Nat) (sixteen : base ≤ 16) (digits : List Nat)
    (small : ∀ digit ∈ digits, digit < base) (rest : Chars) (start : Nat) :
    strtolDigits base (spelled digits ++ 0 :: rest) (int32 start) =
      .done (int32 (digits.foldl (fun value digit => value * base + digit) start : Nat), 0 :: rest) := by
  have found (digit : Nat) (member : digit ∈ digits) :
      digitValue (digitChar digit) = some digit :=
    digitValue_digitChar digit (lt_of_lt_of_le (small digit member) sixteen)
  have all : ∀ byte ∈ spelled digits, isDigitOf base byte = true := by
    intro byte member
    obtain ⟨digit, inside, rfl⟩ := List.mem_map.1 member
    simp [isDigitOf, found digit inside, small digit inside]
  have back : (spelled digits).map (fun byte => (digitValue byte).getD 0) = digits := by
    rw [spelled, List.map_map, List.map_congr_left (g := id), List.map_id]
    intro digit member
    simp [found digit member]
  have read := strtolDigits_text rest base (spelled digits) start
  rw [List.takeWhile_eq_self_iff.2 all, List.dropWhile_eq_nil_iff.2 all, back] at read
  exact read

theorem strtolDigits_numeral (base n : Nat) (two : 2 ≤ base) (sixteen : base ≤ 16) (rest : Chars) :
    strtolDigits base (spelled (numeral base n) ++ 0 :: rest) 0 = .done (int32 n, 0 :: rest) := by
  have read := strtolDigits_spelled base sixteen (numeral base n) (numeral_lt two) rest 0
  have total := numeral_value base n
  unfold value at total
  rw [total] at read
  exact read

theorem startsHex_spelled (digits : List Nat) (small : ∀ digit ∈ digits, digit < 16) (rest : Chars) :
    startsHex (spelled digits ++ 0 :: rest) = .done false := by
  rw [startsHex_text]
  congr 1
  rw [← Bool.not_eq_true, List.isPrefixOf_iff_prefix]
  intro marked
  have member : (120 : UInt8) ∈ spelled digits := marked.subset (by simp)
  obtain ⟨digit, member, same⟩ := List.mem_map.1 member
  have plain := (digitChar_plain digit (small digit member)).1
  exact plain (by simp [same])

inductive Reads : Nat → Int → Prop where
  | decimal : Reads 10 10
  | detected : Reads 10 0
  | octal : Reads 8 8
  | hex : Reads 16 16

theorem strtolBase_numeral {base : Nat} {given : Int} (reads : Reads base given) (n : Nat)
    (rest : Chars) :
    strtolBase (spelled (numeral base n) ++ 0 :: rest) given >>= (fun (s, base) =>
      strtolDigits base s 0) = .done (int32 n, 0 :: rest) := by
  have small (base : Nat) (two : 2 ≤ base) (sixteen : base ≤ 16) :
      ∀ digit ∈ numeral base n, digit < 16 :=
    fun digit member => lt_of_lt_of_le (numeral_lt two digit member) sixteen
  cases reads with
  | decimal => exact strtolDigits_numeral 10 n (by decide) (by decide) rest
  | octal => exact strtolDigits_numeral 8 n (by decide) (by decide) rest
  | hex =>
    have plain := startsHex_spelled _ (small 16 (by decide) le_rfl) rest
    have read := strtolDigits_numeral 16 n (by decide) (by decide) rest
    simp only [strtolBase, plain]
    simpa using read
  | detected =>
    have plain := startsHex_spelled _ (small 10 (by decide) (by decide)) rest
    by_cases zero : n = 0
    next =>
      subst zero
      rfl
    next =>
      have read := strtolDigits_numeral 10 n (by decide) (by decide) rest
      have head := numeral_head 10 n
      obtain ⟨first, more, digits⟩ := numeral_cons 10 n
      have inside : first < 16 := small 10 (by decide) (by decide) first (by simp [digits])
      have nonzero : first ≠ 0 := by simpa [digits, zero] using head
      have start : digitChar first ≠ 48 := fun same =>
        nonzero ((digitChar_plain first inside).2.1 same)
      rw [digits] at plain read ⊢
      simp only [strtolBase, plain]
      simpa [spelled, start] using read

theorem spelled_plain (base n : Nat) (two : 2 ≤ base) (sixteen : base ≤ 16) :
    ∃ head s, spelled (numeral base n) = head :: s ∧ head ∉ [0, 9, 32, 43, 45, 120] := by
  obtain ⟨first, more, digits⟩ := numeral_cons base n
  have member : first ∈ numeral base n := by simp [digits]
  have lt := numeral_lt two first member
  exact ⟨digitChar first, spelled more, by simp [spelled, digits],
    (digitChar_plain first (by omega)).1⟩

theorem strtol_done {s t after : Chars} {neg : Bool} {given val : Int}
    (signed : gobble s >>= strtolSign = .done (t, neg))
    (number : strtolBase t given >>= (fun (s, base) => strtolDigits base s 0) =
      .done (val, after)) :
    strtol s given = .done (if neg then int32 (-val) else val, after) := by
  rw [Outcome.bind_eq_done] at signed number
  obtain ⟨u, gobbled, sign⟩ := signed
  obtain ⟨⟨v, base⟩, based, digits⟩ := number
  dsimp only at digits
  simp only [strtol, gobbled, sign, based, digits, Outcome.done_bind, Outcome.pure_eq]

theorem strtol_numeral {base : Nat} {given : Int} (reads : Reads base given) (n : Nat)
    (rest : Chars) :
    strtol (spelled (numeral base n) ++ 0 :: rest) given = .done (int32 n, 0 :: rest) := by
  have bounds : 2 ≤ base ∧ base ≤ 16 := by cases reads <;> decide
  obtain ⟨head, s, spelt, plain⟩ := spelled_plain base n bounds.1 bounds.2
  simp only [List.mem_cons, List.not_mem_nil, or_false, not_or] at plain
  have signed : gobble (spelled (numeral base n) ++ 0 :: rest) >>= strtolSign =
      .done (spelled (numeral base n) ++ 0 :: rest, false) := by
    simp [spelt, gobble, strtolSign, plain]
  have done := strtol_done signed (strtolBase_numeral reads n rest)
  rwa [if_neg Bool.false_ne_true] at done

theorem strtol_minus {given : Int} (reads : Reads 10 given) (n : Nat) (rest : Chars) :
    strtol (45 :: (spelled (numeral 10 n) ++ 0 :: rest)) given =
      .done (int32 (-int32 n), 0 :: rest) := by
  have signed : gobble (45 :: (spelled (numeral 10 n) ++ 0 :: rest)) >>= strtolSign =
      .done (spelled (numeral 10 n) ++ 0 :: rest, true) := by
    simp [gobble, strtolSign]
  have done := strtol_done signed (strtolBase_numeral reads n rest)
  rwa [if_pos rfl] at done

theorem strtol_hex (given : Int) (detects : given = 16 ∨ given = 0) (n : Nat) (rest : Chars) :
    strtol (48 :: 120 :: (spelled (numeral 16 n) ++ 0 :: rest)) given =
      .done (int32 n, 0 :: rest) := by
  have signed : gobble (48 :: 120 :: (spelled (numeral 16 n) ++ 0 :: rest)) >>= strtolSign =
      .done (48 :: 120 :: (spelled (numeral 16 n) ++ 0 :: rest), false) := by
    simp [gobble, strtolSign]
  have based : strtolBase (48 :: 120 :: (spelled (numeral 16 n) ++ 0 :: rest)) given =
      .done (spelled (numeral 16 n) ++ 0 :: rest, 16) := by
    rcases detects with rfl | rfl <;> simp [strtolBase, startsHex]
  have number : strtolBase (48 :: 120 :: (spelled (numeral 16 n) ++ 0 :: rest)) given >>=
      (fun (s, base) => strtolDigits base s 0) = .done (int32 n, 0 :: rest) := by
    rw [based, Outcome.done_bind]
    exact strtolDigits_numeral 16 n (by decide) le_rfl rest
  have done := strtol_done signed number
  rwa [if_neg Bool.false_ne_true] at done

end JosLab
