import JosLab.Lib.FormatPieces

set_option autoImplicit false

namespace JosLab.Printfmt

open Numeral

def errorChar : CString := ⟨[101], by decide⟩

def errorMessage (n : Nat) : List UInt8 :=
  ((errorStrings.getD n none).getD []).takeWhile (· ≠ 0)

def errorText (n : Nat) : List UInt8 :=
  if 1 ≤ n ∧ (n : Int) < maxerror then errorMessage n
  else [101, 114, 114, 111, 114, 32] ++ spelled (numeral 10 n)

theorem errorMessage_correct (n : Nat) (positive : 1 ≤ n) (named : n < 7) :
    errorStrings[n]? = some (some (errorMessage n ++ [0])) ∧ 0 ∉ errorMessage n ∧
      (errorMessage n).length < 32 ∧
      (errorMessage n).map charInt = literally (errorMessage n) := by
  have table : ∀ n < 7, 1 ≤ n →
      errorStrings[n]? = some (some (errorMessage n ++ [0])) ∧ 0 ∉ errorMessage n ∧
        (errorMessage n).length < 32 ∧
        (errorMessage n).map charInt = literally (errorMessage n) := by decide
  exact table n named positive

theorem signedValue_ofInt (n : Nat) (int : n < 2 ^ 31) :
    signedValue (.word (UInt32.ofInt n)) = n := by
  have value : (UInt32.ofNat n).toInt32.toInt = (n : Int).bmod Int32.size := by simp
  rw [ofInt_natCast n (by omega), signedValue, value, natCast_bmod n int]

theorem errorFormat_text (depth n : Nat) (int : n < 2 ^ 31) :
    Renders (Converts depth) errorFormat.bytes [.word (UInt32.ofInt n)]
      (literally ([101, 114, 114, 111, 114, 32] ++ spelled (numeral 10 n))) [] := by
  have value := signedValue_ofInt n int
  have shown : Numeric.decimal.shown (.word (UInt32.ofInt n)) = spelled (numeral 10 n) := by
    simp [Numeric.shown, Numeric.lead, Numeric.digits, Numeric.base, Numeric.magnitude, value]
  have ended : Renders (Converts depth) [] [] [] [] := .finish []
  have pieces := renders_text [101, 114, 114, 111, 114, 32] (by decide)
    (renders_numeric .decimal (UInt32.ofInt n) ended)
  rw [shown, List.append_nil] at pieces
  rw [literally, List.map_append]
  exact pieces

section Error

variable {depth n : Nat} {spec : Spec} {value : UInt32}

theorem converts_named (same : folded value = n) (positive : 1 ≤ n) (named : n < 7) :
    Converts (depth + 1) 101 spec [.word value] (literally (errorMessage n)) := by
  obtain ⟨entry, noNul, short, ascii⟩ := errorMessage_correct n positive named
  have found : errorString (folded value) = .done (some (errorMessage n ++ [0])) := by
    simp [errorString, same, entry]
  have ended : Renders (Converts depth) [] [] [] [] := .finish []
  have spells : Spells (some (errorMessage n ++ [0])) (errorMessage n) := ⟨noNul, [], rfl⟩
  have string := renders_string spells (by omega) ended
  rw [List.append_nil, ascii] at string
  have small : ¬ maxerror ≤ folded value := by
    rw [same, maxerror]
    omega
  intro σ putch putdat rest
  exact converts_message small found string putch putdat rest

theorem converts_unnamed (same : folded value = n) (int : n < 2 ^ 31)
    (unnamed : ¬ (1 ≤ n ∧ n < 7)) :
    Converts (depth + 1) 101 spec [.word value]
      (literally ([101, 114, 114, 111, 114, 32] ++ spelled (numeral 10 n))) := by
  have number := errorFormat_text depth n int
  rw [← same] at number
  have none : maxerror ≤ folded value ∨ errorString (folded value) = .done none := by
    rw [same, maxerror]
    by_cases zero : n = 0
    next =>
      right
      rw [zero]
      rfl
    next =>
      left
      omega
  intro σ putch putdat rest
  exact converts_fallback none number putch putdat rest

theorem converts_errorText (not_min : value ≠ 0x80000000) :
    Converts (depth + 1) 101 spec [.word value]
      (literally (errorText value.toInt32.toInt.natAbs)) := by
  have low := value.toInt32.le_toInt
  have high := value.toInt32.toInt_lt
  have same := folded_natAbs value not_min
  have int : value.toInt32.toInt.natAbs < 2 ^ 31 := by
    by_contra large
    unfold folded at same
    split at same
    next =>
      have wraps : value.toInt32.toInt = -2 ^ 31 := by omega
      rw [wraps] at same
      exact absurd same (by decide)
    next => omega
  generalize value.toInt32.toInt.natAbs = n at same int
  have seven : maxerror = 7 := rfl
  intro σ putch putdat rest
  unfold errorText
  split
  next named => exact converts_named same named.1 (by omega) putch putdat rest
  next unnamed => exact converts_unnamed same int (by omega) putch putdat rest

end Error

def Marks.errorArgs (marks : Marks) (value : UInt32) : List Arg := marks.taken ++ [.word value]

theorem printed_errorText (marks : Marks) {value : UInt32} (not_min : value ≠ 0x80000000) :
    printed (marks.before errorChar) (marks.errorArgs value) =
      .done (literally (errorText value.toInt32.toInt.natAbs), []) := by
  have scanned : flags (marks.front ++ errorChar.bytes) none {} (marks.errorArgs value) =
      some ⟨101, [], settle marks.number marks.spec, [.word value] ++ []⟩ := by
    rw [Marks.errorArgs, marks.flags_before, errorChar, flags, flagged_stops rfl]
    rfl
  exact printed_directive scanned (by decide) (converts_errorText not_min)

theorem natAbs_neg (value : UInt32) (not_min : value ≠ 0x80000000) :
    (-value).toInt32.toInt.natAbs = value.toInt32.toInt.natAbs := by
  have low := value.toInt32.le_toInt
  have high := value.toInt32.toInt_lt
  have other := toInt_ne_least value not_min
  have negated : (-value).toInt32.toInt = -value.toInt32.toInt := by
    rw [UInt32.toInt32_neg, Int32.toInt_neg]
    exact int32_of_lt _ (by omega) (by omega)
  rw [negated, Int.natAbs_neg]

structure ErrorField (value : UInt32) : Prop where
  text : ∀ (marks : Marks) {σ : Type} (putch : Int → σ → Outcome Fault σ) (putdat : σ),
    vprintfmt putch (marks.before errorChar) (marks.errorArgs value) putdat =
      emit putch (literally (errorText value.toInt32.toInt.natAbs)) putdat
  symmetric : ∀ (marks : Marks) {σ : Type} (putch : Int → σ → Outcome Fault σ) (putdat : σ),
    vprintfmt putch (marks.before errorChar) (marks.errorArgs (-value)) putdat =
      vprintfmt putch (marks.before errorChar) (marks.errorArgs value) putdat
  inBounds : ∀ (marks : Marks) (index : Int),
    printed (marks.before errorChar) (marks.errorArgs value) ≠ .fault (.errorString index)

def noMarks : Marks where
  front := []
  taken := []
  number := none
  spec := {}
  passed := rfl

theorem least_outOfBounds : ¬ ErrorField 0x80000000 := by
  intro field
  exact field.inBounds noMarks (-2147483648) (by decide +kernel)

theorem errorField_iff (value : UInt32) : ErrorField value ↔ value ≠ 0x80000000 := by
  constructor
  · rintro field rfl
    exact field.inBounds noMarks (-2147483648) (by decide +kernel)
  · intro not_min
    have neg_not_min : -value ≠ 0x80000000 := by
      intro least
      exact not_min (by rw [← UInt32.neg_neg (a := value), least]; rfl)
    exact
      { text := fun marks _ => vprintfmt_emit (printed_errorText marks not_min)
        symmetric := fun marks _ putch putdat => by
          rw [vprintfmt_emit (printed_errorText marks not_min),
            vprintfmt_emit (printed_errorText marks neg_not_min), natAbs_neg value not_min]
        inBounds := fun marks index fault => by
          rw [printed_errorText marks not_min] at fault
          cases fault }

end JosLab.Printfmt
