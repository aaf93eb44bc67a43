import JosLab.Lib.NumberField
import JosLab.Lib.StringField

set_option autoImplicit false

namespace JosLab.Printfmt

open Numeral

def literally (bytes : List UInt8) : List Int := bytes.map fun ch => (ch.toNat : Int)

def Numeric.shown (conv : Numeric) (arg : Arg) : List UInt8 :=
  (conv.lead arg).map UInt8.ofInt ++ spelled (conv.digits arg)

theorem Numeric.literally_shown (conv : Numeric) (arg : Arg) :
    literally (conv.shown arg) = conv.lead arg ++ conv.digitText arg := by
  have lead : literally ((conv.lead arg).map UInt8.ofInt) = conv.lead arg := by
    cases conv with
    | decimal =>
      by_cases negative : signedValue arg < 0 <;>
        simp [Numeric.lead, negative, literally, UInt8.ofInt]
    | pointer => rfl
    | unsigned => rfl
    | octal => rfl
    | hex => rfl
  rw [literally] at lead
  rw [literally, Numeric.shown, List.map_append, lead, spelled, List.map_map]
  rfl

def hexDigits (v : UInt32) : List Nat :=
  List.replicate (8 - (numeral 16 v.toNat).length) 0 ++ numeral 16 v.toNat

def hexText (v : UInt32) : List UInt8 := spelled (hexDigits v)

def HexWord (text : List UInt8) (v : UInt32) : Prop :=
  ∃ digits, text = spelled digits ∧ digits.length = 8 ∧ (∀ digit ∈ digits, digit < 16) ∧
    value 16 digits = v.toNat

theorem value_zeros (base count : Nat) (digits : List Nat) :
    value base (List.replicate count 0 ++ digits) = value base digits := by
  unfold value
  induction count with
  | zero => rfl
  | succ count ih => simpa [List.replicate_succ] using ih

theorem hexText_word (v : UInt32) : HexWord (hexText v) v := by
  have lt := v.toNat_lt
  have short : (numeral 16 v.toNat).length ≤ 8 := numeral_length (by decide) (by decide) (by omega)
  refine ⟨hexDigits v, rfl, ?_, fun digit member => ?_, ?_⟩
  · rw [hexDigits, List.length_append, List.length_replicate]
    omega
  · rcases List.mem_append.1 member with zero | digit
    · rw [List.eq_of_mem_replicate zero]
      decide
    · exact numeral_lt (by decide) _ digit
  · rw [hexDigits, value_zeros, numeral_value]

theorem numberText_word (v : UInt32) : numberText 16 v.toNat 8 48 = literally (hexText v) := by
  have lt := v.toNat_lt
  have short : (numeral 16 v.toNat).length ≤ 8 := numeral_length (by decide) (by decide) (by omega)
  have room : (int32 (8 - (numeral 16 v.toNat).length)).toNat = 8 - (numeral 16 v.toNat).length := by
    rw [int32_of_lt _ (by omega) (by omega)]
    omega
  have zero : ((digitChar 0).toNat : Int) = 48 := rfl
  simp [numberText, room, literally, hexText, hexDigits, spelled, zero]

section Pieces

variable {depth : Nat} {after : List UInt8} {ap left : List Arg} {w : List Int}

theorem renders_text (front : List UInt8) (plain : 37 ∉ front)
    (more : Renders (Converts depth) after ap w left) :
    Renders (Converts depth) (front ++ after) ap (literally front ++ w) left := by
  induction front with
  | nil => exact more
  | cons ch front ih =>
    simp only [List.mem_cons, not_or] at plain
    exact .text (Ne.symm plain.1) (ih plain.2)

theorem renders_last (front : List UInt8) (plain : 37 ∉ front) :
    Renders (Converts depth) front ap (literally front) ap := by
  have ended := @renders_text depth [] ap ap [] front plain (.finish ap)
  rwa [List.append_nil, List.append_nil] at ended

-- "%d", "%u", "%o", "%x" and "%p"
theorem renders_numeric (conv : Numeric) (v : UInt32)
    (more : Renders (Converts depth) after ap w left) :
    Renders (Converts depth) (37 :: conv.char :: after) (.word v :: ap)
      (literally (conv.shown (.word v)) ++ w) left := by
  have takes : conv.Takes 0 (.word v) := by
    cases conv <;> exact .cons rfl (.nil [])
  have scanned : flags (conv.char :: after) none {} (.word v :: ap) =
      some ⟨conv.char, after, {}, [.word v] ++ ap⟩ := by
    simp [flags, flagged_stops conv.char_no_flag, settle]
  have short := conv.digits_length (.word v)
  have none : (-1 - ((conv.digits (.word v)).length : Int)).toNat = 0 := by omega
  have text : conv.lead (.word v) ++ numberText conv.base (conv.magnitude (.word v)) (-1) 32 =
      literally (conv.shown (.word v)) := by
    rw [conv.literally_shown, conv.padded_text _ _ _ (by omega) (by omega), none]
    rfl
  rw [← text]
  exact .convert scanned conv.known (converts_numeric depth conv {} 0 rfl _ takes) more

theorem renders_word (v : UInt32) (more : Renders (Converts depth) after ap w left) :
    Renders (Converts depth) (37 :: 48 :: 56 :: 120 :: after) (.word v :: ap)
      (literally (hexText v) ++ w) left := by
  have text : Numeric.hex.lead (.word v) ++ numberText Numeric.hex.base
      (Numeric.hex.magnitude (.word v)) 8 48 = literally (hexText v) := by
    simp only [Numeric.lead, Numeric.base, Numeric.magnitude, unsignedValue, List.nil_append,
      numberText_word]
  have scanned : flags (48 :: 56 :: 120 :: after) none {} (.word v :: ap) =
      some ⟨120, after, { padc := 48, width := 8 }, [.word v] ++ ap⟩ := rfl
  rw [← text]
  exact .convert scanned Numeric.hex.known
    (converts_numeric depth .hex _ 0 rfl _ (.cons rfl (.nil []))) more

theorem renders_string {string : Option Chars} {s : List UInt8} (spells : Spells string s)
    (short : s.length < 2 ^ 31) (more : Renders (Converts depth) after ap w left) :
    Renders (Converts depth) (37 :: 115 :: after) (.str string :: ap) (s.map charInt ++ w) left := by
  have blanks : int32 (-1 - s.length) ≤ 0 := by
    rw [int32_of_lt _ (by omega) (by omega)]
    omega
  have text : stringText {} s = s.map charInt := by
    simp [stringText, shownText, cut, shownChar_plain, blanks]
  have scanned : flags (115 :: after) none {} (.str string :: ap) =
      some ⟨115, after, {}, [.str string] ++ ap⟩ := rfl
  rw [← text]
  exact .convert scanned (by decide) (converts_string spells {} rfl) more

-- "%.*s" of a length that the string has
theorem renders_front {string : Option Chars} {s : List UInt8} (spells : Spells string s)
    (n : Nat) (int : n < 2 ^ 31) (le : n ≤ s.length)
    (more : Renders (Converts depth) after ap w left) :
    Renders (Converts depth) (37 :: 46 :: 42 :: 115 :: after)
      (.word (UInt32.ofNat n) :: .str string :: ap) ((s.take n).map charInt ++ w) left := by
  have blanks : int32 (-n) ≤ 0 := by
    rw [int32_of_lt _ (by omega) (by omega)]
    omega
  have nonneg : ¬ (n : Int) < 0 := by omega
  have front : cut n s = s.take n := by
    rw [cut, if_neg nonneg, Int.toNat_natCast]
  have text : stringText { width := 0, precision := n } s = (s.take n).map charInt := by
    simp [stringText, shownText, front, shownChar_plain, le, blanks]
  have value := natCast_bmod n int
  have scanned : flags (46 :: 42 :: 115 :: after) none {}
      (.word (UInt32.ofNat n) :: .str string :: ap) =
        some ⟨115, after, { width := 0, precision := n }, [.str string] ++ ap⟩ := by
    simp [flags, flagged, isDigit, Spec.set, settle, Spec.processPrecision, value]
  rw [← text]
  exact .convert scanned (by decide) (converts_string spells _ rfl) more

end Pieces

end JosLab.Printfmt
