import JosLab.Shared.Numeral
import JosLab.Shared.Runs

set_option autoImplicit false

namespace JosLab

open Numeral Runs

def digitValue (byte : UInt8) : Option Nat :=
  if 48 ≤ byte ∧ byte ≤ 57 then some (byte.toNat - 48)
  else if 97 ≤ byte ∧ byte ≤ 122 then some (byte.toNat - 97 + 10)
  else if 65 ≤ byte ∧ byte ≤ 90 then some (byte.toNat - 65 + 10)
  else none

def isDigitOf (base : Nat) (byte : UInt8) : Bool := (digitValue byte).any (· < base)

def digitsValue (base : Nat) (digits : List UInt8) : Nat :=
  value base (digits.map fun byte => (digitValue byte).getD 0)

def isBlank (byte : UInt8) : Bool := byte = 32 || byte = 9

def inEffect (base : Nat) (hex : Bool) (digits : List UInt8) : Nat :=
  if hex then 16
  else if base = 0 then if digits.head? = some 48 then 8 else 10
  else base

structure Unsigned (base : Nat) where
  hex : Bool
  digits : List UInt8
  allowed : hex = true → base = 0 ∨ base = 16
  some : digits ≠ []
  small : ∀ byte ∈ digits, isDigitOf (inEffect base hex digits) byte = true

def Unsigned.text {base : Nat} (number : Unsigned base) : List UInt8 :=
  (if number.hex then [48, 120] else []) ++ number.digits

def Unsigned.value {base : Nat} (number : Unsigned base) : Nat :=
  digitsValue (inEffect base number.hex number.digits) number.digits

structure Subject (base : Nat) where
  blanks : List UInt8
  sign : List UInt8
  number : Unsigned base
  blank : ∀ byte ∈ blanks, isBlank byte = true
  signed : sign = [] ∨ sign = [43] ∨ sign = [45]

def Subject.text {base : Nat} (subject : Subject base) : List UInt8 :=
  subject.blanks ++ (subject.sign ++ subject.number.text)

def Subject.value {base : Nat} (subject : Subject base) : Int :=
  if subject.sign = [45] then -subject.number.value else subject.number.value

def signOf : List UInt8 → List UInt8
  | [] => []
  | head :: _ => if head = 43 ∨ head = 45 then [head] else []

def afterSign (s : List UInt8) : List UInt8 :=
  (s.dropWhile isBlank).drop (signOf (s.dropWhile isBlank)).length

def startsDigit (base : Nat) (t : List UInt8) : Bool :=
  t.head?.any (isDigitOf (if base = 0 then 10 else base))

def startsHexPrefix (base : Nat) (t : List UInt8) : Bool :=
  (base = 0 || base = 16) && [48, 120].isPrefixOf t

def bareHex (base : Nat) (t : List UInt8) : Bool :=
  startsHexPrefix base t && !(t.drop 2).head?.any (isDigitOf 16)

section Text

variable {base : Nat}

theorem digitValue_plain {byte : UInt8} (digit : digitValue byte ≠ none) :
    isBlank byte = false ∧ byte ≠ 43 ∧ byte ≠ 45 := by
  revert byte
  decide +kernel

theorem isDigitOf_some {byte : UInt8} (digit : isDigitOf base byte = true) :
    digitValue byte ≠ none := by
  intro none
  rw [isDigitOf, none] at digit
  cases digit

theorem Unsigned.text_head (number : Unsigned base) :
    ∃ head rest, number.text = head :: rest ∧ digitValue head ≠ none := by
  obtain ⟨first, rest, digits⟩ := List.exists_cons_of_ne_nil number.some
  cases hex : number.hex with
  | true => exact ⟨48, 120 :: number.digits, by simp [Unsigned.text, hex], by decide⟩
  | false =>
    refine ⟨first, rest, by simp [Unsigned.text, hex, digits], ?_⟩
    exact isDigitOf_some (number.small first (by simp [digits]))

theorem signOf_append (t : List UInt8) : signOf t ++ t.drop (signOf t).length = t := by
  cases t with
  | nil => rfl
  | cons head rest =>
    by_cases marked : head = 43 ∨ head = 45 <;>
      simp [signOf, marked]

theorem text_split (s : List UInt8) :
    s = s.takeWhile isBlank ++ (signOf (s.dropWhile isBlank) ++ afterSign s) := by
  rw [afterSign, signOf_append, List.takeWhile_append_dropWhile]

theorem signOf_digit {sign : List UInt8} (signed : sign = [] ∨ sign = [43] ∨ sign = [45])
    {head : UInt8} (digit : digitValue head ≠ none) (rest : List UInt8) :
    signOf (sign ++ head :: rest) = sign ∧
      (sign ++ head :: rest).head?.any isBlank = false := by
  obtain ⟨solid, noPlus, noMinus⟩ := digitValue_plain digit
  rcases signed with rfl | rfl | rfl
  next => simp [signOf, solid, noPlus, noMinus]
  next => simp [signOf, isBlank]
  next => simp [signOf, isBlank]

theorem Subject.text_iff (subject : Subject base) (s : List UInt8) :
    subject.text <+: s ↔ subject.blanks = s.takeWhile isBlank ∧
      subject.sign = signOf (s.dropWhile isBlank) ∧ subject.number.text <+: afterSign s := by
  constructor
  next =>
    rintro ⟨after, rfl⟩
    obtain ⟨head, rest, spelt, digit⟩ := subject.number.text_head
    have sign := signOf_digit subject.signed digit (rest ++ after)
    have shape : subject.text ++ after =
        subject.blanks ++ (subject.sign ++ head :: (rest ++ after)) := by
      simp [Subject.text, spelt]
    obtain ⟨blanks, left⟩ := run_append subject.blank sign.2
    rw [← shape] at blanks left
    refine ⟨blanks.symm, by rw [left, sign.1], after, ?_⟩
    rw [afterSign, left, sign.1, List.drop_left, spelt]
    rfl
  next =>
    rintro ⟨blanks, sign, after, number⟩
    refine ⟨after, ?_⟩
    calc subject.text ++ after
        = s.takeWhile isBlank ++ (signOf (s.dropWhile isBlank) ++ afterSign s) := by
          simp [Subject.text, blanks, sign, number]
      _ = s := (text_split s).symm

theorem startsHexPrefix_iff (t : List UInt8) :
    startsHexPrefix base t = true ↔ (base = 0 ∨ base = 16) ∧ [48, 120] <+: t := by
  simp [startsHexPrefix]

theorem inEffect_head {hex : Bool} {digits t : List UInt8} (some : digits ≠ [])
    (starts : digits <+: t) : inEffect base hex digits = inEffect base hex t := by
  obtain ⟨rest, rfl⟩ := starts
  cases digits with
  | nil => exact absurd rfl some
  | cons => rfl

namespace Unsigned

theorem text_hex {number : Unsigned base} {t : List UInt8} (starts : number.text <+: t)
    (hex : number.hex = true) :
    startsHexPrefix base t = true ∧ number.digits <+: (t.drop 2).takeWhile (isDigitOf 16) := by
  obtain ⟨rest, rfl⟩ := starts
  have small := number.small
  rw [inEffect, if_pos hex] at small
  have shape : number.text ++ rest = 48 :: 120 :: (number.digits ++ rest) := by
    simp [text, hex]
  rw [startsHexPrefix_iff, shape]
  exact ⟨⟨number.allowed hex, by simp⟩, prefix_takeWhile small (List.prefix_append _ _)⟩

theorem text_plain {number : Unsigned base} {t : List UInt8} (starts : number.text <+: t)
    (plain : number.hex = false) :
    number.digits <+: t.takeWhile (isDigitOf (inEffect base false t)) := by
  have digits : number.digits <+: t := by simpa [text, plain] using starts
  have small := number.small
  rw [plain, inEffect_head number.some digits] at small
  exact prefix_takeWhile small digits

def ofHex (t : List UInt8) (marked : startsHexPrefix base t = true)
    (follows : (t.drop 2).head?.any (isDigitOf 16) = true) : Unsigned base where
  hex := true
  digits := (t.drop 2).takeWhile (isDigitOf 16)
  allowed _ := ((startsHexPrefix_iff t).1 marked).1
  some empty := by
    rw [(takeWhile_eq_nil _ _).1 empty] at follows
    cases follows
  small _ member := List.mem_takeWhile_imp member

theorem ofHex_text (t : List UInt8) (marked : startsHexPrefix base t = true)
    (follows : (t.drop 2).head?.any (isDigitOf 16) = true) :
    (ofHex t marked follows).text <+: t := by
  obtain ⟨-, rest, rfl⟩ := (startsHexPrefix_iff t).1 marked
  simpa [text, ofHex] using List.takeWhile_prefix (isDigitOf 16)

theorem startsDigit_iff (t : List UInt8) :
    startsDigit base t = true ↔ t.takeWhile (isDigitOf (inEffect base false t)) ≠ [] := by
  rw [Ne, takeWhile_eq_nil, Bool.not_eq_false]
  cases t with
  | nil => rfl
  | cons head rest =>
    have same : isDigitOf (if base = 0 then 10 else base) head =
        isDigitOf (inEffect base false (head :: rest)) head := by
      by_cases detected : base = 0
      next =>
        by_cases zero : head = 48
        next =>
          subst zero detected
          rfl
        next => simp [inEffect, detected, zero]
      next => simp [inEffect, detected]
    simp [startsDigit, same]

def ofPlain (t : List UInt8) (starts : startsDigit base t = true) : Unsigned base where
  hex := false
  digits := t.takeWhile (isDigitOf (inEffect base false t))
  allowed := nofun
  some := (startsDigit_iff t).1 starts
  small byte member := by
    have first : inEffect base false _ = inEffect base false t :=
      inEffect_head ((startsDigit_iff t).1 starts) (List.takeWhile_prefix _)
    rw [first]
    exact List.mem_takeWhile_imp member

theorem ofPlain_text (t : List UInt8) (starts : startsDigit base t = true) :
    (ofPlain t starts).text <+: t := by
  simpa [text, ofPlain] using List.takeWhile_prefix (isDigitOf (inEffect base false t))

theorem takeWhile_marked {t : List UInt8} (marked : startsHexPrefix base t = true) :
    t.takeWhile (isDigitOf (inEffect base false t)) = [48] := by
  obtain ⟨detects, rest, rfl⟩ := (startsHexPrefix_iff t).1 marked
  rcases detects with rfl | rfl <;> rfl

theorem startsDigit_of_marked {t : List UInt8} (marked : startsHexPrefix base t = true) :
    startsDigit base t = true := by
  rw [startsDigit_iff, takeWhile_marked marked]
  exact List.cons_ne_nil _ _

theorem startsDigit_of_text {number : Unsigned base} {t : List UInt8}
    (starts : number.text <+: t) : startsDigit base t = true := by
  rw [startsDigit_iff]
  intro empty
  cases hex : number.hex with
  | true =>
    have zero := takeWhile_marked (text_hex starts hex).1
    rw [empty] at zero
    cases zero
  | false =>
    have digits := text_plain starts hex
    rw [empty, List.prefix_nil] at digits
    exact number.some digits

theorem text_marked {number : Unsigned base} {t : List UInt8} (longest : Longest text t number)
    (marked : startsHexPrefix base t = true)
    (follows : (t.drop 2).head?.any (isDigitOf 16) = true) :
    number.hex = true ∧ number.digits = (t.drop 2).takeWhile (isDigitOf 16) := by
  have longer := longest.2 (ofHex t marked follows) (ofHex_text t marked follows)
  have some := List.length_pos_iff.2 (ofHex t marked follows).some
  cases hex : number.hex with
  | true =>
    refine ⟨rfl, (text_hex longest.1 hex).2.eq_of_length_le ?_⟩
    simpa [text, hex, ofHex] using longer
  | false =>
    have short := (text_plain longest.1 hex).length_le
    rw [takeWhile_marked marked] at short
    simp only [text, hex] at longer short some
    simp [ofHex] at longer short some
    omega

theorem text_unmarked {number : Unsigned base} {t : List UInt8} (longest : Longest text t number)
    (unmarked : startsHexPrefix base t = false) :
    number.hex = false ∧ number.digits = t.takeWhile (isDigitOf (inEffect base false t)) := by
  cases hex : number.hex with
  | true =>
    have marked := (text_hex longest.1 hex).1
    rw [unmarked] at marked
    cases marked
  | false =>
    have digits := text_plain longest.1 hex
    have starts := startsDigit_of_text longest.1
    have longer := longest.2 (ofPlain t starts) (ofPlain_text t starts)
    exact ⟨rfl, digits.eq_of_length_le (by simpa [text, hex, ofPlain] using longer)⟩

theorem ofPlain_longest {t : List UInt8} (starts : startsDigit base t = true)
    (bare : bareHex base t = true) :
    Longest text t (ofPlain t starts) ∧ (ofPlain t starts).text = [48] := by
  simp only [bareHex, Bool.and_eq_true, Bool.not_eq_true'] at bare
  have zero : (ofPlain t starts).text = [48] := by
    simp [text, ofPlain, takeWhile_marked bare.1]
  refine ⟨⟨ofPlain_text t starts, fun other begins => ?_⟩, zero⟩
  rw [zero]
  cases hex : other.hex with
  | true =>
    have digits := (text_hex begins hex).2
    rw [(takeWhile_eq_nil _ _).2 bare.2, List.prefix_nil] at digits
    exact absurd digits other.some
  | false =>
    have digits := (text_plain begins hex).length_le
    rw [takeWhile_marked bare.1] at digits
    simpa [text, hex] using digits

end Unsigned

theorem Subject.text_length (subject : Subject base) :
    subject.text.length =
      subject.blanks.length + (subject.sign.length + subject.number.text.length) := by
  simp [Subject.text]

theorem longest_iff (subject : Subject base) (s : List UInt8) :
    Longest Subject.text s subject ↔ subject.blanks = s.takeWhile isBlank ∧
      subject.sign = signOf (s.dropWhile isBlank) ∧
      Longest Unsigned.text (afterSign s) subject.number := by
  rw [Longest, Subject.text_iff]
  constructor
  next =>
    rintro ⟨⟨blanks, sign, starts⟩, longest⟩
    refine ⟨blanks, sign, starts, fun other begins => ?_⟩
    have shorter := longest { subject with number := other }
      ((Subject.text_iff _ s).2 ⟨blanks, sign, begins⟩)
    simpa only [Subject.text_length, Nat.add_le_add_iff_left] using shorter
  next =>
    rintro ⟨blanks, sign, starts, longest⟩
    refine ⟨⟨blanks, sign, starts⟩, fun other begins => ?_⟩
    obtain ⟨blanks', sign', begins⟩ := (Subject.text_iff other s).1 begins
    have shorter := longest other.number begins
    simpa only [Subject.text_length, blanks, sign, blanks', sign', Nat.add_le_add_iff_left]
      using shorter

theorem signOf_cases (t : List UInt8) : signOf t = [] ∨ signOf t = [43] ∨ signOf t = [45] := by
  cases t with
  | nil => exact .inl rfl
  | cons head t =>
    by_cases plus : head = 43
    next => simp [signOf, plus]
    next =>
      by_cases minus : head = 45 <;>
        simp [signOf, plus, minus]

def Subject.behind (s : List UInt8) (number : Unsigned base) : Subject base where
  blanks := s.takeWhile isBlank
  sign := signOf (s.dropWhile isBlank)
  number := number
  blank _ member := List.mem_takeWhile_imp member
  signed := signOf_cases _

theorem startsDigit_exists (s : List UInt8) :
    startsDigit base (afterSign s) = true ↔ ∃ subject : Subject base, subject.text <+: s := by
  constructor
  next =>
    intro starts
    exact ⟨.behind s (.ofPlain _ starts),
      (Subject.text_iff _ s).2 ⟨rfl, rfl, Unsigned.ofPlain_text _ starts⟩⟩
  next =>
    rintro ⟨subject, starts⟩
    exact Unsigned.startsDigit_of_text ((Subject.text_iff subject s).1 starts).2.2

theorem drop_text {s : List UInt8} {subject : Subject base}
    (longest : Longest Subject.text s subject) :
    s.drop subject.text.length = (afterSign s).drop subject.number.text.length := by
  obtain ⟨blanks, sign, -⟩ := (longest_iff subject s).1 longest
  conv =>
    lhs
    rw [text_split s]
  rw [Subject.text_length, blanks, sign, List.drop_length_add_append, List.drop_length_add_append]

end Text

end JosLab
