import JosLab.Lib.Strtol

set_option autoImplicit false

namespace JosLab

open Printfmt Numeral Runs

structure Reports (base : Nat) (s : List UInt8) : Prop where
  present : ∀ subject : Subject base, Longest Subject.text s subject → ∀ rest,
    strtol (s ++ 0 :: rest) base =
      .done (int32 subject.value, s.drop subject.text.length ++ 0 :: rest)
  absent : (∀ subject : Subject base, ¬ subject.text <+: s) → ∀ rest,
    strtol (s ++ 0 :: rest) base = .done (0, s ++ 0 :: rest)

section Code

variable {base : Nat} (rest : Chars)

theorem gobble_text (s : List UInt8) :
    gobble (s ++ 0 :: rest) = .done (s.dropWhile isBlank ++ 0 :: rest) := by
  induction s with
  | nil => rfl
  | cons head s ih =>
    by_cases here : head = 32 ∨ head = 9
    next =>
      have blank : isBlank head = true := by simpa [isBlank] using here
      rw [List.dropWhile_cons_of_pos blank, ← ih, List.cons_append, gobble, if_pos here]
    next =>
      have solid : ¬ isBlank head = true := by simpa [isBlank] using here
      rw [List.dropWhile_cons_of_neg solid, List.cons_append, gobble, if_neg here]
      rfl

theorem strtolSign_text (t : List UInt8) :
    strtolSign (t ++ 0 :: rest) =
      .done (t.drop (signOf t).length ++ 0 :: rest, signOf t = [45]) := by
  cases t with
  | nil => rfl
  | cons head t =>
    by_cases plus : head = 43
    next => simp [strtolSign, signOf, plus]
    next =>
      by_cases minus : head = 45
      next => simp [strtolSign, signOf, minus]
      next => simp [strtolSign, signOf, plus, minus]

theorem signed_text (s : List UInt8) :
    gobble (s ++ 0 :: rest) >>= strtolSign =
      .done (afterSign s ++ 0 :: rest, signOf (s.dropWhile isBlank) = [45]) := by
  rw [gobble_text, Outcome.done_bind, strtolSign_text]
  rfl

theorem strtolBase_text (t : List UInt8) :
    strtolBase (t ++ 0 :: rest) base =
      if startsHexPrefix base t then .done (t.drop 2 ++ 0 :: rest, 16)
      else if base = 0 ∧ t.head? = some 48 then .done (t.tail ++ 0 :: rest, 8)
      else .done (t ++ 0 :: rest, ((if base = 0 then 10 else base : Nat) : Int)) := by
  have tested : (if (base : Int) = 0 ∨ (base : Int) = 16 then startsHex (t ++ 0 :: rest)
      else return false) = .done (startsHexPrefix base t) := by
    have same : ((base : Int) = 0 ∨ (base : Int) = 16) ↔ (base = 0 ∨ base = 16) := by
      exact_mod_cast Iff.rfl
    simp only [startsHex_text, startsHexPrefix, same, ← Bool.decide_or]
    by_cases detects : base = 0 ∨ base = 16 <;>
      simp only [detects, if_true, if_false, decide_true, decide_false, Bool.true_and,
        Bool.false_and, Outcome.pure_eq]
  rw [strtolBase, tested, Outcome.done_bind]
  by_cases marked : startsHexPrefix base t = true
  next =>
    rw [if_pos marked, if_pos marked]
    obtain ⟨-, more, rfl⟩ := (startsHexPrefix_iff t).1 marked
    rfl
  next =>
    rw [if_neg marked, if_neg marked]
    by_cases detected : base = 0
    next =>
      cases t with
      | nil => simp [detected]
      | cons head t =>
        by_cases zero : head = 48 <;>
          simp [detected, zero]
    next => simp [detected]

theorem number_unmarked {t : List UInt8} (unmarked : startsHexPrefix base t = false) :
    strtolBase (t ++ 0 :: rest) base >>= (fun (s, base) => strtolDigits base s 0) =
      .done (int32 (digitsValue (inEffect base false t)
          (t.takeWhile (isDigitOf (inEffect base false t)))),
        t.dropWhile (isDigitOf (inEffect base false t)) ++ 0 :: rest) := by
  rw [strtolBase_text, unmarked, if_neg Bool.false_ne_true]
  by_cases octal : base = 0 ∧ t.head? = some 48
  next =>
    obtain ⟨rfl, head⟩ := octal
    obtain ⟨more, rfl⟩ := List.head?_eq_some_iff.1 head
    exact strtolDigits_text rest 8 more 0
  next =>
    have radix : inEffect base false t = if base = 0 then 10 else base := by
      by_cases detected : base = 0
      next =>
        have other : t.head? ≠ some 48 := fun head => octal ⟨detected, head⟩
        simp [inEffect, detected, other]
      next => simp [inEffect, detected]
    rw [if_neg octal, Outcome.done_bind, radix]
    exact strtolDigits_text rest _ t 0

theorem number_marked {t : List UInt8} (marked : startsHexPrefix base t = true) :
    strtolBase (t ++ 0 :: rest) base >>= (fun (s, base) => strtolDigits base s 0) =
      .done (int32 (digitsValue 16 ((t.drop 2).takeWhile (isDigitOf 16))),
        (t.drop 2).dropWhile (isDigitOf 16) ++ 0 :: rest) := by
  rw [strtolBase_text, if_pos marked]
  exact strtolDigits_text rest 16 (t.drop 2) 0

theorem number_read {number : Unsigned base} {t : List UInt8} (longest : Longest Unsigned.text t number)
    (whole : bareHex base t = false) :
    strtolBase (t ++ 0 :: rest) base >>= (fun (s, base) => strtolDigits base s 0) =
      .done (int32 number.value, t.drop number.text.length ++ 0 :: rest) := by
  cases marked : startsHexPrefix base t with
  | true =>
    have follows : (t.drop 2).head?.any (isDigitOf 16) = true := by
      simpa [bareHex, marked] using whole
    obtain ⟨hex, digits⟩ := Unsigned.text_marked longest marked follows
    have length : number.text.length = 2 + number.digits.length := by
      simp only [Unsigned.text, hex, if_true, List.length_append]
      rfl
    have value : number.value = digitsValue 16 number.digits := by
      simp [Unsigned.value, inEffect, hex]
    rw [number_marked rest marked, value, length, ← List.drop_drop, digits, drop_takeWhile]
  | false =>
    obtain ⟨plain, digits⟩ := Unsigned.text_unmarked longest marked
    have text : number.text = number.digits := by simp [Unsigned.text, plain]
    have starts : number.digits <+: t := by
      rw [digits]
      exact List.takeWhile_prefix _
    rw [number_unmarked rest marked, Unsigned.value, plain, inEffect_head number.some starts,
      text, digits, drop_takeWhile]

theorem strtol_text {s : List UInt8} {given : Int} {val : Nat} {after : Chars}
    (number : strtolBase (afterSign s ++ 0 :: rest) given >>=
      (fun (s, base) => strtolDigits base s 0) = .done (int32 val, after)) :
    strtol (s ++ 0 :: rest) given =
      .done (int32 (if signOf (s.dropWhile isBlank) = [45] then -val else val), after) := by
  rw [strtol_done (signed_text rest s) number]
  by_cases minus : signOf (s.dropWhile isBlank) = [45]
  next =>
    have negated := int32_sub_int32 0 val
    rw [Int.zero_sub, Int.zero_sub] at negated
    simp [minus, negated]
  next => simp [minus]

end Code

section Reports

variable {base : Nat}

theorem present_whole {s : List UInt8} (whole : bareHex base (afterSign s) = false)
    {subject : Subject base} (longest : Longest Subject.text s subject) (rest : Chars) :
    strtol (s ++ 0 :: rest) base =
      .done (int32 subject.value, s.drop subject.text.length ++ 0 :: rest) := by
  obtain ⟨-, sign, longestNumber⟩ := (longest_iff subject s).1 longest
  rw [strtol_text rest (number_read rest longestNumber whole), drop_text longest, ← sign]
  rfl

theorem strtol_absent {s : List UInt8} (absent : startsDigit base (afterSign s) = false)
    (rest : Chars) : strtol (s ++ 0 :: rest) base = .done (0, afterSign s ++ 0 :: rest) := by
  have unmarked : startsHexPrefix base (afterSign s) = false := by
    rw [← Bool.not_eq_true]
    intro marked
    rw [Unsigned.startsDigit_of_marked marked] at absent
    cases absent
  have none : (afterSign s).takeWhile (isDigitOf (inEffect base false (afterSign s))) = [] := by
    by_contra some
    rw [(Unsigned.startsDigit_iff _).2 some] at absent
    cases absent
  have number := number_unmarked rest unmarked
  rw [← drop_takeWhile, none] at number
  simp [strtol_text rest number, digitsValue, value, int32]

theorem strtol_bare {s : List UInt8} (bare : bareHex base (afterSign s) = true) (rest : Chars) :
    ∃ val, strtol (s ++ 0 :: rest) base = .done (val, (afterSign s).drop 2 ++ 0 :: rest) := by
  simp only [bareHex, Bool.and_eq_true, Bool.not_eq_true'] at bare
  have number := number_marked rest bare.1
  rw [dropWhile_of_stop bare.2] at number
  exact ⟨_, strtol_text rest number⟩

theorem Reports.not_bare {s : List UInt8} (reports : Reports base s) :
    bareHex base (afterSign s) = false := by
  rw [← Bool.not_eq_true]
  intro bare
  have marked : startsHexPrefix base (afterSign s) = true := (Bool.and_eq_true _ _ ▸ bare).1
  have starts := Unsigned.startsDigit_of_marked marked
  obtain ⟨longestNumber, zero⟩ := Unsigned.ofPlain_longest starts bare
  have longest : Longest Subject.text s (Subject.behind s (.ofPlain _ starts)) :=
    (longest_iff _ s).2 ⟨rfl, rfl, longestNumber⟩
  obtain ⟨val, done⟩ := strtol_bare bare []
  have present := reports.present _ longest []
  rw [done, drop_text longest] at present
  obtain ⟨-, more, shape⟩ := (startsHexPrefix_iff _).1 marked
  have length : (Subject.behind s (.ofPlain _ starts)).number.text.length = 1 :=
    congrArg List.length zero
  rw [length] at present
  injection present with present
  have same := (Prod.mk.inj present).2
  rw [← shape] at same
  exact absurd same (by simp)

theorem Reports.stays {s : List UInt8} (reports : Reports base s)
    (absent : startsDigit base (afterSign s) = false) : afterSign s = s := by
  have none : ∀ subject : Subject base, ¬ subject.text <+: s := by
    intro subject starts
    rw [(startsDigit_exists s).2 ⟨subject, starts⟩] at absent
    cases absent
  have same := reports.absent none []
  rw [strtol_absent absent] at same
  injection same with same
  exact List.append_cancel_right (Prod.mk.inj same).2

theorem strtol_reports (base : Nat) (s : List UInt8) :
    Reports base s ↔
      (startsDigit base (afterSign s) = true ∧ bareHex base (afterSign s) = false) ∨
        (startsDigit base (afterSign s) = false ∧ afterSign s = s) := by
  constructor
  next =>
    intro reports
    cases starts : startsDigit base (afterSign s) with
    | true => exact .inl ⟨rfl, reports.not_bare⟩
    | false => exact .inr ⟨rfl, reports.stays starts⟩
  next =>
    rintro (⟨starts, whole⟩ | ⟨none, same⟩)
    next =>
      refine ⟨fun subject longest rest => present_whole whole longest rest, fun none => ?_⟩
      obtain ⟨subject, begins⟩ := (startsDigit_exists s).1 starts
      exact absurd begins (none subject)
    next =>
      refine ⟨fun subject longest => ?_, fun _ rest => ?_⟩
      next =>
        rw [(startsDigit_exists s).2 ⟨subject, longest.1⟩] at none
        cases none
      next =>
        have done := strtol_absent none rest
        rwa [same] at done

theorem bareHex_moves : ¬ Reports 16 [48, 120] ∧ ¬ Reports 10 [43] :=
  ⟨fun reports => Bool.false_ne_true reports.not_bare.symm,
    fun reports => (List.cons_ne_nil _ _).symm (reports.stays rfl)⟩

end Reports

end JosLab
