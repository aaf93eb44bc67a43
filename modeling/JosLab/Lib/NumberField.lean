import JosLab.Lib.Directives
import JosLab.Lib.ReadBack

set_option autoImplicit false

namespace JosLab.Printfmt

open Numeral

structure Width where
  starred : Bool
  size : Nat
  positive : 1 ≤ size
  int : size < 2 ^ 31

def Width.bytes (width : Width) : List UInt8 :=
  if width.starred then [42] else spelled (numeral 10 width.size)

def Width.args (width : Width) : List Arg :=
  if width.starred then [.word (UInt32.ofNat width.size)] else []

inductive Numeric where
  | decimal
  | unsigned
  | octal
  | hex
  | pointer
  deriving DecidableEq, Repr

def Numeric.char : Numeric → UInt8
  | .decimal => 100
  | .unsigned => 117
  | .octal => 111
  | .hex => 120
  | .pointer => 112

def Numeric.base : Numeric → Nat
  | .decimal | .unsigned => 10
  | .octal => 8
  | .hex | .pointer => 16

def Numeric.Takes (conv : Numeric) (longs : Nat) (arg : Arg) : Prop :=
  Consumes ((Mode.directive (int32 longs)).takes conv.char) [arg] []

def signedValue : Arg → Int
  | .word value => value.toInt32.toInt
  | .dword value => value.toInt64.toInt
  | .str _ => 0

def unsignedValue : Arg → Nat
  | .word value => value.toNat
  | .dword value => value.toNat
  | .str _ => 0

def Numeric.lead : Numeric → Arg → List Int
  | .decimal, arg => if signedValue arg < 0 then [45] else []
  | .pointer, _ => [48, 120]
  | .unsigned, _ | .octal, _ | .hex, _ => []

def Numeric.magnitude : Numeric → Arg → Nat
  | .decimal, arg => (signedValue arg).natAbs
  | .unsigned, arg | .octal, arg | .hex, arg | .pointer, arg => unsignedValue arg

def Numeric.digits (conv : Numeric) (arg : Arg) : List Nat := numeral conv.base (conv.magnitude arg)

def Numeric.digitText (conv : Numeric) (arg : Arg) : List Int :=
  (conv.digits arg).map fun digit => ((digitChar digit).toNat : Int)

def Numeric.Unmarked (conv : Numeric) (arg : Arg) : Prop :=
  conv ≠ .pointer ∧ (conv = .decimal → 0 ≤ signedValue arg)

def Numeric.plain (conv : Numeric) (longs : Nat) : CString where
  bytes := 37 :: (List.replicate longs 108 ++ [conv.char])
  noNul := by
    cases conv <;> simp [Numeric.char, List.mem_replicate]

def Numeric.field (conv : Numeric) (pad : Pad) (width : Width) (longs : Nat) : CString where
  bytes := 37 :: (pad.bytes ++ (width.bytes ++ (List.replicate longs 108 ++ [conv.char])))
  noNul := by
    have plain : 0 ∉ 37 :: (List.replicate longs 108 ++ [conv.char]) := (conv.plain longs).noNul
    have digits : 0 ∉ spelled (numeral 10 width.size) := spelled_noNul _ fun digit member =>
      lt_trans (numeral_lt (by decide) digit member) (by decide)
    have number : 0 ∉ width.bytes := by
      unfold Width.bytes
      split
      · decide
      · exact digits
    simp only [List.mem_cons, not_or] at plain
    cases pad <;> simp [Pad.bytes, number, plain.2]

theorem toInt_toUInt64 (num : Int64) :
    num.toInt = num.toUInt64.toNat ∧ num.toUInt64.toNat < 2 ^ 63 ∨
      num.toInt = num.toUInt64.toNat - 2 ^ 64 ∧ 2 ^ 63 ≤ num.toUInt64.toNat := by
  have value := BitVec.toInt_eq_toNat_cond num.toBitVec
  have nat : num.toBitVec.toNat = num.toUInt64.toNat := rfl
  have int : num.toBitVec.toInt = num.toInt := rfl
  rw [nat, int] at value
  split at value
  next small => exact .inl ⟨value, by omega⟩
  next large => exact .inr ⟨by simpa using value, by omega⟩

theorem magnitude_of_neg (num : Int64) (negative : num < 0) :
    (-num).toUInt64.toNat = num.toInt.natAbs := by
  have value := toInt_toUInt64 num
  have lt := num.toUInt64.toNat_lt
  have below : num.toInt < 0 := by rwa [Int64.lt_iff_toInt_lt, Int64.toInt_zero] at negative
  rw [Int64.toUInt64_neg, UInt64.toNat_neg, UInt64.size, Nat.mod_eq_of_lt (by omega)]
  omega

theorem magnitude_of_nonneg (num : Int64) (nonneg : ¬ num < 0) :
    num.toUInt64.toNat = num.toInt.natAbs := by
  have value := toInt_toUInt64 num
  have lt := num.toUInt64.toNat_lt
  have above : ¬ num.toInt < 0 := by rwa [Int64.lt_iff_toInt_lt, Int64.toInt_zero] at nonneg
  omega

theorem getint_value {lflag : Int} {arg : Arg}
    (fits : Consumes [if 2 ≤ lflag then .dword else .word] [arg] []) :
    ∃ num, num.toInt = signedValue arg ∧ ∀ rest, getint (arg :: rest) lflag = .done (num, rest) := by
  obtain ⟨arg, same, here⟩ := fits.single
  cases same
  by_cases long : 2 ≤ lflag
  next =>
    rw [if_pos long] at here
    obtain ⟨value, rfl⟩ := matches_dword here
    exact ⟨value.toInt64, rfl, fun rest => by simp [getint, long, vaDword]⟩
  next =>
    rw [if_neg long] at here
    obtain ⟨value, rfl⟩ := matches_word here
    exact ⟨value.toInt32.toInt64, Int32.toInt_toInt64 _, fun rest => by
      simp [getint, long, vaWord]⟩

theorem getuint_value {lflag : Int} {arg : Arg}
    (fits : Consumes [if 2 ≤ lflag then .dword else .word] [arg] []) :
    ∃ num, num.toNat = unsignedValue arg ∧
      ∀ rest, getuint (arg :: rest) lflag = .done (num, rest) := by
  obtain ⟨arg, same, here⟩ := fits.single
  cases same
  by_cases long : 2 ≤ lflag
  next =>
    rw [if_pos long] at here
    obtain ⟨value, rfl⟩ := matches_dword here
    exact ⟨value, rfl, fun rest => by simp [getuint, long, vaDword]⟩
  next =>
    rw [if_neg long] at here
    obtain ⟨value, rfl⟩ := matches_word here
    exact ⟨value.toUInt64, UInt32.toNat_toUInt64 _, fun rest => by simp [getuint, long, vaWord]⟩

theorem signedText_value {num : Int64} {arg : Arg} (value : num.toInt = signedValue arg)
    (spec : Spec) :
    signedText spec num = Numeric.decimal.lead arg ++
      numberText 10 (signedValue arg).natAbs spec.width spec.padc := by
  have sign : num < 0 ↔ signedValue arg < 0 := by
    rw [← value, Int64.lt_iff_toInt_lt, Int64.toInt_zero]
  by_cases negative : num < 0
  next =>
    rw [signedText, if_pos negative, magnitude_of_neg num negative, value, Numeric.lead,
      if_pos (sign.1 negative), List.singleton_append]
  next =>
    have nonneg : ¬ signedValue arg < 0 := fun below => negative (sign.2 below)
    rw [signedText, if_neg negative, magnitude_of_nonneg num negative, value, Numeric.lead,
      if_neg nonneg, List.nil_append]

theorem printUnsigned_value {spec : Spec} {arg : Arg} (base : UInt64) (two : 2 ≤ base.toNat)
    (sixteen : base.toNat ≤ 16)
    (takes : Consumes [if 2 ≤ spec.lflag then .dword else .word] [arg] []) {σ : Type}
    (putch : Int → σ → Outcome Fault σ) (putdat : σ) (rest : List Arg) :
    printUnsigned putch base spec (arg :: rest) putdat =
      emit putch (numberText base.toNat (unsignedValue arg) spec.width spec.padc) putdat >>=
        fun putdat => .done (rest, putdat) := by
  obtain ⟨num, value, got⟩ := getuint_value takes
  rw [printUnsigned_emit putch base two sixteen (got rest) putdat, unsignedText, value]

theorem converts_numeric (depth : Nat) (conv : Numeric) (spec : Spec) (longs : Nat)
    (counted : spec.lflag = int32 longs) (arg : Arg) (takes : conv.Takes longs arg) :
    Converts depth conv.char spec [arg]
      (conv.lead arg ++ numberText conv.base (conv.magnitude arg) spec.width spec.padc) := by
  have fits : Consumes ((Mode.directive spec.lflag).takes conv.char) [arg] [] := by
    rw [counted]
    exact takes
  cases conv with
  | decimal =>
    obtain ⟨num, value, got⟩ := getint_value fits
    intro σ putch putdat rest
    refine ⟨_, rfl, ?_⟩
    rw [List.singleton_append, printSigned_emit putch (got rest) putdat, signedText_value value]
    rfl
  | unsigned =>
    intro σ putch putdat rest
    exact ⟨_, rfl, printUnsigned_value 10 (by decide) (by decide) fits putch putdat rest⟩
  | octal =>
    intro σ putch putdat rest
    exact ⟨_, rfl, printUnsigned_value 8 (by decide) (by decide) fits putch putdat rest⟩
  | hex =>
    intro σ putch putdat rest
    exact ⟨_, rfl, printUnsigned_value 16 (by decide) (by decide) fits putch putdat rest⟩
  | pointer =>
    obtain ⟨arg, same, here⟩ := fits.single
    cases same
    obtain ⟨value, rfl⟩ := matches_word here
    intro σ putch putdat rest
    exact ⟨_, rfl, printPointer_emit putch value putdat⟩

theorem Width.through_bytes (width : Width) (spec : Spec) (ap : List Arg) (unset : spec.width < 0) :
    ∃ number spec', through width.bytes none spec (width.args ++ ap) = some (number, spec', ap) ∧
      spec'.lflag = spec.lflag ∧
      settle number spec' = { spec with width := width.size, precision := -1 } := by
  have int := width.int
  have positive := width.positive
  by_cases starred : width.starred
  next =>
    refine ⟨none, spec.processPrecision width.size, ?_, by simp, by
      simp [settle, Spec.processPrecision, unset]⟩
    have value := natCast_bmod width.size int
    simp [Width.bytes, Width.args, starred, through, flagged, isDigit, settle, value]
  next =>
    refine ⟨some (int32 width.size), spec, ?_, rfl, ?_⟩
    · simp only [Width.bytes, Width.args, starred, if_false, List.nil_append, Bool.false_eq_true]
      exact through_literal width.size positive
    · rw [int32_of_lt _ (by omega) (by omega), settle, Spec.processPrecision, if_pos unset]

theorem Numeric.char_no_flag (conv : Numeric) : isFlag conv.char = false := by
  cases conv <;> rfl

theorem Numeric.known (conv : Numeric) : conv.char ∈ conversions := by
  cases conv <;> decide

theorem printed_numeric {rest : List UInt8} {noNul : 0 ∉ 37 :: rest} {ap : List Arg} {spec : Spec}
    {conv : Numeric} {longs : Nat} {arg : Arg} {width padc : Int}
    (scanned : flags rest none {} ap = some ⟨conv.char, [], spec, [arg]⟩)
    (fields : spec.lflag = int32 longs ∧ spec.width = width ∧ spec.padc = padc)
    (takes : conv.Takes longs arg) :
    printed ⟨37 :: rest, noNul⟩ ap =
      .done (conv.lead arg ++ numberText conv.base (conv.magnitude arg) width padc, []) := by
  obtain ⟨counted, rfl, rfl⟩ := fields
  exact printed_directive scanned conv.known (converts_numeric 1 conv spec longs counted arg takes)

theorem printed_plain (conv : Numeric) (longs : Nat) (arg : Arg) (takes : conv.Takes longs arg) :
    printed (conv.plain longs) [arg] =
      .done (conv.lead arg ++ numberText conv.base (conv.magnitude arg) (-1) 32, []) := by
  have unset : ({} : Spec).lflag = 0 := rfl
  have scanned := flags_conversion longs conv.char_no_flag [] none unset [arg]
  exact printed_numeric scanned (by simp only [settle, and_self]) takes

theorem printed_field (conv : Numeric) (pad : Pad) (width : Width) (longs : Nat) (arg : Arg)
    (takes : conv.Takes longs arg) :
    printed (conv.field pad width longs) (width.args ++ [arg]) =
      .done (conv.lead arg ++ numberText conv.base (conv.magnitude arg) width.size pad.padc, []) := by
  have unset : ({ padc := pad.padc } : Spec).width < 0 := Int.negSucc_lt_zero 0
  obtain ⟨number, spec, passed, lflag, settled⟩ := width.through_bytes _ [arg] unset
  have conversion := flags_conversion longs conv.char_no_flag [] number lflag [arg]
  rw [settled] at conversion
  have scanned := flags_through (pad.through_bytes (width.args ++ [arg]))
    (width.bytes ++ (List.replicate longs 108 ++ [conv.char]))
  rw [flags_through passed, conversion] at scanned
  exact printed_numeric scanned (by simp only [and_self]) takes

theorem unsignedValue_lt (arg : Arg) : unsignedValue arg < 2 ^ 64 := by
  cases arg with
  | word value => exact lt_trans value.toNat_lt (by decide)
  | dword value => exact value.toNat_lt
  | str string => exact Nat.two_pow_pos 64

theorem signedValue_lt (arg : Arg) : (signedValue arg).natAbs < 2 ^ 64 := by
  cases arg with
  | word value =>
    have low := value.toInt32.le_toInt
    have high := value.toInt32.toInt_lt
    simp only [signedValue]
    omega
  | dword value =>
    have low := value.toInt64.le_toInt
    have high := value.toInt64.toInt_lt
    simp only [signedValue]
    omega
  | str string => exact Nat.two_pow_pos 64

theorem numeral_short {base num : Nat} (two : 2 ≤ base) (lt : num < 2 ^ 64) :
    (numeral base num).length ≤ 64 :=
  numeral_length two (by decide) (lt_of_lt_of_le lt (Nat.pow_le_pow_left two 64))

theorem numberText_room {base num : Nat} (two : 2 ≤ base) (lt : num < 2 ^ 64) (width padc : Int)
    (low : -1 ≤ width) (int : width < 2 ^ 31) :
    numberText base num width padc =
      List.replicate (width - (numeral base num).length).toNat padc ++
        (numeral base num).map fun digit => ((digitChar digit).toNat : Int) := by
  have short := numeral_short two lt
  rw [numberText, int32_of_lt _ (by omega) (by omega)]

def hexDigit (digit : Nat) : Int := if digit < 10 then 48 + digit else 97 + (digit - 10)

theorem digitChar_hex (digit : Nat) (lt : digit < 16) :
    ((digitChar digit).toNat : Int) = hexDigit digit := by
  revert digit
  decide

theorem printnum_canonical (num base : UInt64) (two : 2 ≤ base.toNat) (sixteen : base.toNat ≤ 16)
    (width padc : Int) (low : -1 ≤ width) (int : width < 2 ^ 31) :
    ∃ digits, Canonical base.toNat num.toNat digits ∧
      ∀ {σ : Type} (putch : Int → σ → Outcome Fault σ) (putdat : σ),
        printnum putch num base width padc putdat =
          emit putch (List.replicate (max 0 (width - digits.length)).toNat padc ++
            digits.map hexDigit) putdat := by
  have canonical := numeral_canonical two num.toNat
  refine ⟨_, canonical, fun putch putdat => ?_⟩
  have shown : (numeral base.toNat num.toNat).map (fun digit => ((digitChar digit).toNat : Int)) =
      (numeral base.toNat num.toNat).map hexDigit := by
    apply List.map_congr_left
    intro digit member
    have lt := canonical.small digit member
    exact digitChar_hex digit (by omega)
  have room (room : Int) : (max 0 room).toNat = room.toNat := by omega
  rw [printnum_numeral num base width padc two sixteen,
    numberText_room two num.toNat_lt width padc low int, shown, room]

theorem printnum_canonical_octal :
    ∃ digits, Canonical 8 511 digits ∧
      ∀ {σ : Type} (putch : Int → σ → Outcome Fault σ) (putdat : σ),
        printnum putch 511 8 5 48 putdat =
          emit putch (List.replicate (max 0 ((5 : Int) - digits.length)).toNat 48 ++
            digits.map hexDigit) putdat :=
  printnum_canonical 511 8 (by decide) (by decide) 5 48 (by decide) (by decide)

theorem Numeric.base_bounds (conv : Numeric) : 2 ≤ conv.base ∧ conv.base ≤ 16 := by
  cases conv <;> decide

theorem Numeric.magnitude_lt (conv : Numeric) (arg : Arg) : conv.magnitude arg < 2 ^ 64 := by
  cases conv
  case decimal => exact signedValue_lt arg
  all_goals exact unsignedValue_lt arg

theorem Numeric.digits_length (conv : Numeric) (arg : Arg) : (conv.digits arg).length ≤ 64 :=
  numeral_short conv.base_bounds.1 (conv.magnitude_lt arg)

theorem Numeric.lead_nil (conv : Numeric) (arg : Arg) :
    conv.lead arg = [] ↔ conv.Unmarked arg := by
  cases conv <;> simp [Numeric.lead, Numeric.Unmarked]

theorem Numeric.digitText_cons (conv : Numeric) (arg : Arg) :
    ∃ first rest, conv.digitText arg = first :: rest ∧ first ≠ 45 := by
  obtain ⟨first, more, digits⟩ := numeral_cons conv.base (conv.magnitude arg)
  have bounds := conv.base_bounds
  have member : first ∈ numeral conv.base (conv.magnitude arg) := by simp [digits]
  have lt := numeral_lt bounds.1 first member
  have plain := (digitChar_plain first (by omega)).1
  refine ⟨(digitChar first).toNat, _, by rw [Numeric.digitText, Numeric.digits, digits]; rfl, ?_⟩
  intro dash
  have same : digitChar first = 45 := UInt8.toNat_inj.1 (by exact_mod_cast dash)
  exact plain (by simp [same])

theorem Numeric.padded_text (conv : Numeric) (arg : Arg) (width padc : Int) (low : -1 ≤ width)
    (int : width < 2 ^ 31) :
    numberText conv.base (conv.magnitude arg) width padc =
      List.replicate (width - (conv.digits arg).length).toNat padc ++ conv.digitText arg :=
  numberText_room conv.base_bounds.1 (conv.magnitude_lt arg) width padc low int

theorem field_texts (conv : Numeric) (pad : Pad) (width : Width) (longs : Nat) (arg : Arg)
    (takes : conv.Takes longs arg) :
    printed (conv.plain longs) [arg] = .done (conv.lead arg ++ conv.digitText arg, []) ∧
      printed (conv.field pad width longs) (width.args ++ [arg]) =
        .done (conv.lead arg ++ (List.replicate (width.size - (conv.digits arg).length) pad.padc ++
          conv.digitText arg), []) := by
  have int := width.int
  have none : (-1 - ((conv.digits arg).length : Int)).toNat = 0 := by omega
  have room : (width.size - ((conv.digits arg).length : Int)).toNat =
      width.size - (conv.digits arg).length := by omega
  constructor
  · rw [printed_plain conv longs arg takes, conv.padded_text arg _ _ (by omega) (by omega), none]
    rfl
  · rw [printed_field conv pad width longs arg takes,
      conv.padded_text arg _ _ (by omega) (by omega), room]

structure Fills (pad : Pad) (size : Nat) (bare field : List Int) : Prop where
  length : field.length = max size bare.length
  blanks : pad = .space → field = List.replicate (size - bare.length) 32 ++ bare

theorem numericField_iff (conv : Numeric) (longs : Nat) (arg : Arg) (takes : conv.Takes longs arg)
    (pad : Pad) (width : Width) :
    ∃ bare field, printed (conv.plain longs) [arg] = .done (bare, []) ∧
      printed (conv.field pad width longs) (width.args ++ [arg]) = .done (field, []) ∧
      (Fills pad width.size bare field ↔
        conv.Unmarked arg ∨ width.size ≤ (conv.digits arg).length) := by
  obtain ⟨plain, padded⟩ := field_texts conv pad width longs arg takes
  refine ⟨_, _, plain, padded, ?_⟩
  have digits : (conv.digitText arg).length = (conv.digits arg).length := List.length_map _
  rw [← conv.lead_nil]
  constructor
  · intro fills
    have length := fills.length
    simp only [List.length_append, List.length_replicate, digits] at length
    by_cases narrow : width.size ≤ (conv.digits arg).length
    · exact .inr narrow
    · exact .inl (List.length_eq_zero_iff.1 (by omega))
  · intro unmarked
    rcases unmarked with nothing | narrow
    · rw [nothing]
      refine ⟨by simp [digits]; omega, fun space => ?_⟩
      simp [space, Pad.padc, digits]
    · have none : width.size - (conv.digits arg).length = 0 := by omega
      rw [none]
      refine ⟨by simp [digits]; omega, fun space => ?_⟩
      have none : width.size - (conv.lead arg ++ conv.digitText arg).length = 0 := by
        rw [List.length_append]
        omega
      simp only [none, List.replicate_zero, List.nil_append]

-- "%0*p" of 0xf0100000, with the width 12.
theorem starredPointer_field :
    ∃ bare field, printed (Numeric.pointer.plain 0) [.word 0xf0100000] = .done (bare, []) ∧
      printed (Numeric.pointer.field .zero ⟨true, 12, by decide, by decide⟩ 0)
        [.word 12, .word 0xf0100000] = .done (field, []) ∧
      (Fills .zero 12 bare field ↔
        Numeric.pointer.Unmarked (.word 0xf0100000) ∨
          12 ≤ (Numeric.pointer.digits (.word 0xf0100000)).length) :=
  numericField_iff .pointer 0 (.word 0xf0100000) (.cons rfl (.nil [])) .zero
    ⟨true, 12, by decide, by decide⟩

-- "%5d" of -7 is six characters wide.
theorem negative_too_wide :
    ∃ bare field, printed (Numeric.decimal.plain 0) [.word 0xfffffff9] = .done (bare, []) ∧
      printed (Numeric.decimal.field .space ⟨false, 5, by decide, by decide⟩ 0)
        [.word 0xfffffff9] = .done (field, []) ∧ ¬ Fills .space 5 bare field := by
  refine ⟨[45, 55], [45, 32, 32, 32, 32, 55], by decide +kernel, by decide +kernel, ?_⟩
  intro fills
  exact absurd fills.length (by decide)

theorem minusField_iff (conv : Numeric) (longs : Nat) (arg : Arg) (takes : conv.Takes longs arg)
    (width : Width) :
    ∃ bare field, printed (conv.plain longs) [arg] = .done (bare, []) ∧
      printed (conv.field .minus width longs) (width.args ++ [arg]) = .done (field, []) ∧
      (field = bare ++ List.replicate (width.size - bare.length) 32 ↔
        width.size ≤ (conv.digits arg).length) := by
  obtain ⟨plain, padded⟩ := field_texts conv .minus width longs arg takes
  refine ⟨_, _, plain, padded, ?_⟩
  have digits : (conv.digitText arg).length = (conv.digits arg).length := List.length_map _
  constructor
  · intro same
    by_contra wide
    -- The field starts with a '-' where the plain text starts with a digit.
    obtain ⟨more, room⟩ : ∃ more, width.size - (conv.digits arg).length = more + 1 :=
      ⟨width.size - (conv.digits arg).length - 1, by omega⟩
    obtain ⟨first, rest, text, plain⟩ := conv.digitText_cons arg
    rw [room, List.append_assoc, List.append_cancel_left_eq, text, List.replicate_succ,
      List.cons_append, List.cons_append] at same
    exact plain (List.cons.inj same).1.symm
  · intro narrow
    have none : width.size - (conv.digits arg).length = 0 := by omega
    have no_room : width.size - (conv.lead arg ++ conv.digitText arg).length = 0 := by
      rw [List.length_append]
      omega
    simp only [none, no_room, List.replicate_zero, List.nil_append, List.append_nil]

-- "%-2llx" of 0xabc, wider than the field.
theorem wideHex_field :
    ∃ bare field, printed (Numeric.hex.plain 2) [.dword 0xabc] = .done (bare, []) ∧
      printed (Numeric.hex.field .minus ⟨false, 2, by decide, by decide⟩ 2) [.dword 0xabc] =
        .done (field, []) ∧
      (field = bare ++ List.replicate (2 - bare.length) 32 ↔
        2 ≤ (Numeric.hex.digits (.dword 0xabc)).length) :=
  minusField_iff .hex 2 (.dword 0xabc) (.cons rfl (.nil [])) ⟨false, 2, by decide, by decide⟩

-- "%-5d" of 7 is padded on the left, with dashes.
theorem dashes_before :
    ∃ bare field, printed (Numeric.decimal.plain 0) [.word 7] = .done (bare, []) ∧
      printed (Numeric.decimal.field .minus ⟨false, 5, by decide, by decide⟩ 0) [.word 7] =
        .done (field, []) ∧ field ≠ bare ++ List.replicate (5 - bare.length) 32 :=
  ⟨[55], [45, 45, 45, 45, 55], by decide +kernel, by decide +kernel, by decide⟩

end JosLab.Printfmt
