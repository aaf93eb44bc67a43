import JosLab.Lib.SilentFormats
import JosLab.Lib.Strtol

set_option autoImplicit false

namespace JosLab.Printfmt

open Numeral

variable {number : Option Int} {spec : Spec} {ap : List Arg}

def through : List UInt8 → Option Int → Spec → List Arg → Option (Option Int × Spec × List Arg)
  | [], number, spec, ap => some (number, spec, ap)
  | ch :: rest, number, spec, ap =>
      match flagged ch number spec ap with
      | .more number spec ap => through rest number spec ap
      | .stop _ => none
      | .stuck => none

theorem flags_through {front : List UInt8} {number' : Option Int} {spec' : Spec} {ap' : List Arg}
    (passed : through front number spec ap = some (number', spec', ap')) (rest : List UInt8) :
    flags (front ++ rest) number spec ap = flags rest number' spec' ap' := by
  induction front generalizing number spec ap with
  | nil =>
    cases passed
    rfl
  | cons ch front ih =>
    cases taken : flagged ch number spec ap with
    | stop spec' => simp [through, taken] at passed
    | stuck => simp [through, taken] at passed
    | more number spec ap =>
      simp only [through, taken] at passed
      simp only [List.cons_append, flags, taken]
      exact ih passed

theorem through_rest {front : List UInt8} {number number' : Option Int} {spec spec' : Spec}
    {ap : List Arg} (passed : through front number spec ap = some (number', spec', []))
    (rest : List Arg) :
    through front number spec (ap ++ rest) = some (number', spec', rest) ∧
      ∀ ch ∈ front, isFlag ch = true := by
  induction front generalizing number spec ap with
  | nil =>
    cases passed
    exact ⟨rfl, by simp⟩
  | cons ch front ih =>
    cases taken : flagged ch number spec ap with
    | stop spec' => simp [through, taken] at passed
    | stuck => simp [through, taken] at passed
    | more number spec ap =>
      obtain ⟨flag, -, -, used, split, always⟩ := flagged_more taken
      simp only [through, taken] at passed
      obtain ⟨later, flags⟩ := ih passed
      refine ⟨?_, by simpa [flag] using flags⟩
      rw [split, List.append_assoc, through, always]
      exact later

structure Marks where
  front : List UInt8
  taken : List Arg
  number : Option Int
  spec : Spec
  passed : through front none {} taken = some (number, spec, [])

def Marks.before (marks : Marks) (rest : CString) : CString where
  bytes := 37 :: (marks.front ++ rest.bytes)
  noNul := by
    have front : 0 ∉ marks.front := fun member => by
      have flag := (through_rest marks.passed []).2 0 member
      cases flag
    simp [front, rest.noNul]

theorem Marks.flags_before (marks : Marks) (rest : CString) (ap : List Arg) :
    flags (marks.front ++ rest.bytes) none {} (marks.taken ++ ap) =
      flags rest.bytes marks.number marks.spec ap :=
  flags_through (through_rest marks.passed ap).1 rest.bytes

theorem digitChar_decimal (digit : Nat) (lt : digit < 10) :
    isDigit (digitChar digit) = true ∧ ((digitChar digit).toNat : Int) = 48 + digit ∧
      (digit ≠ 0 → digitChar digit ≠ 48) := by
  revert digit
  decide

theorem through_digits (digits : List Nat) (small : ∀ digit ∈ digits, digit < 10) (n : Nat) :
    through (spelled digits) (some (int32 n)) spec ap =
      some (some (int32 (digits.foldl (fun value digit => value * 10 + digit) n : Nat)), spec, ap) := by
  induction digits generalizing n with
  | nil => rfl
  | cons digit digits ih =>
    obtain ⟨isDigit, char, -⟩ := digitChar_decimal digit (small digit (by simp))
    have step : int32 (int32 n * 10 + (digitChar digit).toNat - 48) =
        int32 (n * 10 + digit : Nat) := by
      have less : int32 n * 10 + (48 + digit) - 48 = int32 n * 10 + digit := by ring
      rw [char, less, int32_mul_add, Nat.cast_add, Nat.cast_mul, Nat.cast_ofNat]
    have taken (value : Int) : flagged (digitChar digit) (some value) spec ap =
        .more (some (int32 (value * 10 + (digitChar digit).toNat - 48))) spec ap := by
      simp [flagged, isDigit]
    rw [spelled, List.map_cons, through, taken, step]
    exact ih (fun other member => small other (by simp [member])) (n * 10 + digit)

theorem through_literal (v : Nat) (positive : 1 ≤ v) :
    through (spelled (numeral 10 v)) none spec ap = some (some (int32 v), spec, ap) := by
  obtain ⟨first, more, digits⟩ := numeral_cons 10 v
  have small : ∀ digit ∈ first :: more, digit < 10 := by
    rw [← digits]
    exact numeral_lt (by decide)
  have nonzero : first ≠ 0 := by
    intro zero
    have head := (numeral_head 10 v).1 (by simp [digits, zero])
    omega
  have total : (first :: more).foldl (fun value digit => value * 10 + digit) 0 = v := by
    rw [← digits]
    exact numeral_value 10 v
  obtain ⟨isDigit, char, other⟩ := digitChar_decimal first (small first (by simp))
  have start : int32 (0 * 10 + (digitChar first).toNat - 48) = int32 first := by
    rw [char]
    congr 1
    omega
  have taken : flagged (digitChar first) none spec ap = .more (some (int32 first)) spec ap := by
    simp only [flagged, isDigit, ne_eq, other nonzero, not_false_eq_true, or_true, and_self,
      if_true, Option.getD_none, start]
  have rest : through (spelled more) (some (int32 first)) spec ap = _ :=
    through_digits more (fun digit member => small digit (by simp [member])) first
  rw [List.foldl_cons, Nat.zero_mul, Nat.zero_add] at total
  rw [total] at rest
  simp only [digits, spelled, List.map_cons, through, taken]
  exact rest

theorem no_flag_digit {conv : UInt8} (no_flag : isFlag conv = false) : isDigit conv = false := by
  cases digit : isDigit conv with
  | false => rfl
  | true => simp [isFlag, digit] at no_flag

theorem flagged_stops {conv : UInt8} (no_flag : isFlag conv = false) :
    flagged conv number spec ap = .stop (settle number spec) := by
  have no_digit := no_flag_digit no_flag
  have zero : conv ≠ 48 := by
    rintro rfl
    cases no_digit
  simp only [isFlag, Bool.or_eq_false_iff, decide_eq_false_iff_not] at no_flag
  simp [flagged, Spec.set, no_digit, zero, no_flag]

theorem flags_longs (longs : Nat) (conv : UInt8) (after : List UInt8) (no_flag : isFlag conv = false)
    (inRange : int32 spec.lflag = spec.lflag) :
    flags (List.replicate longs 108 ++ conv :: after) number spec ap =
      some ⟨conv, after, { settle number spec with lflag := int32 (spec.lflag + longs) }, ap⟩ := by
  induction longs generalizing number spec with
  | zero =>
    have kept : int32 (spec.lflag + (0 : Nat)) = (settle number spec).lflag := by
      rw [settle_lflag, Nat.cast_zero, Int.add_zero, inRange]
    rw [kept]
    simp only [List.replicate_zero, List.nil_append, flags, flagged_stops no_flag]
  | succ longs ih =>
    have long : flagged 108 number spec ap =
        .more none { settle number spec with lflag := int32 (spec.lflag + 1) } ap := by
      simp [flagged, Spec.set, isDigit]
    have total : int32 (int32 (spec.lflag + 1) + longs) = int32 (spec.lflag + (longs + 1 : Nat)) := by
      have added := int32_mul_add (spec.lflag + 1) 1 longs
      rw [Int.mul_one, Int.mul_one] at added
      rw [added, Nat.cast_add, Nat.cast_one]
      congr 1
      ring
    rw [List.replicate_succ, List.cons_append, flags, long]
    have rest := @ih none { settle number spec with lflag := int32 (spec.lflag + 1) }
      (int32_int32 _)
    rw [total] at rest
    exact rest

theorem flags_conversion (longs : Nat) {conv : UInt8} (no_flag : isFlag conv = false)
    (after : List UInt8) (number : Option Int) {spec : Spec} (unset : spec.lflag = 0)
    (ap : List Arg) :
    flags (List.replicate longs 108 ++ conv :: after) number spec ap =
      some ⟨conv, after, { settle number spec with lflag := int32 longs }, ap⟩ := by
  have inRange : int32 0 = 0 := by decide
  rw [flags_longs longs conv after no_flag (by rw [unset, inRange]), unset, Int.zero_add]

theorem natCast_bmod (n : Nat) (int : n < 2 ^ 31) : (n : Int).bmod Int32.size = n :=
  int32_of_lt n (by omega) (by omega)

theorem ofInt_natCast (n : Nat) (lt : n < 2 ^ 32) : UInt32.ofInt n = UInt32.ofNat n := by
  rw [UInt32.ofInt, Int.emod_eq_of_lt (by omega) (by omega), Int.toNat_natCast]

inductive Pad where
  | space
  | zero
  | minus
  deriving DecidableEq, Repr

def Pad.bytes : Pad → List UInt8
  | .space => []
  | .zero => [48]
  | .minus => [45]

def Pad.padc : Pad → Int
  | .space => 32
  | .zero => 48
  | .minus => 45

theorem Pad.through_bytes (pad : Pad) (ap : List Arg) :
    through pad.bytes none {} ap = some (none, { padc := pad.padc }, ap) := by
  cases pad <;> rfl

end JosLab.Printfmt
