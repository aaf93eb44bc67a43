import JosLab.Lib.Directives
import JosLab.Lib.StringField

set_option autoImplicit false

namespace JosLab.Printfmt

structure PaddedString where
  pad : Pad
  hash : Bool
  width : Nat
  precision : Option Nat
  width_int : width < 2 ^ 31
  precision_int : ∀ p, precision = some p → p < 2 ^ 31

namespace PaddedString

variable (field : PaddedString) (s : List UInt8)

def format : CString where
  bytes := 37 :: (field.pad.bytes ++ ((if field.hash then [35] else []) ++
    42 :: ((if field.precision.isSome then [46, 42] else []) ++ [115])))
  noNul := by
    obtain ⟨pad, hash, width, precision, -, -⟩ := field
    cases pad <;> cases hash <;> cases precision <;> simp [Pad.bytes]

def args : List Arg :=
  .word (UInt32.ofNat field.width) :: field.precision.toList.map fun p => .word (UInt32.ofNat p)

def spec : Spec where
  padc := field.pad.padc
  width := field.width
  precision := field.precision.elim (-1) fun p => p
  altflag := field.hash

def kept : List UInt8 := field.precision.elim s fun p => s.take p

def masked (hash : Bool) (byte : UInt8) : UInt8 :=
  if hash ∧ ¬ (32 ≤ byte ∧ byte ≤ 126) then 63 else byte

def text : List UInt8 :=
  let shown := (field.kept s).map (masked field.hash)
  let room := field.width - (field.kept s).length
  match field.pad with
  | .space => List.replicate room 32 ++ shown
  | .zero => List.replicate room 48 ++ shown
  | .minus => shown ++ List.replicate room 32

-- `width` is counted down to no less than the least `int`: by the padding and again by the
-- characters, or by the characters alone.
def NoWrap : Prop :=
  if 0 < field.width ∧ field.pad ≠ .minus then 2 * (field.kept s).length ≤ field.width + 2 ^ 31
  else (field.kept s).length ≤ field.width + 2 ^ 31

theorem scanned (arg : Arg) :
    flags (field.pad.bytes ++ ((if field.hash then [35] else []) ++
      42 :: ((if field.precision.isSome then [46, 42] else []) ++ [115]))) none {}
      (field.args ++ [arg]) = some ⟨115, [], field.spec, [arg]⟩ := by
  obtain ⟨pad, hash, width, precision, width_int, precision_int⟩ := field
  have value := natCast_bmod width width_int
  rw [flags_through (pad.through_bytes _)]
  have nonneg : ¬ (width : Int) < 0 := by omega
  cases precision with
  | none =>
    cases hash <;>
      simp [flags, flagged, isDigit, Spec.set, settle, Spec.processPrecision, args, spec, value]
  | some p =>
    have cut := natCast_bmod p (precision_int p rfl)
    cases hash <;>
      simp [flags, flagged, isDigit, Spec.set, settle, Spec.processPrecision, args, spec, value,
        nonneg, cut]

theorem ofInt_shownChar (hash : Bool) (byte : UInt8) :
    UInt8.ofInt (shownChar hash byte) = masked hash byte := by
  obtain ⟨⟨i⟩⟩ := byte
  revert hash i
  decide +kernel

theorem cut_kept : cut field.spec.precision s = field.kept s := by
  obtain ⟨pad, hash, width, precision, -, -⟩ := field
  cases precision with
  | none => rfl
  | some p =>
    have nonneg : ¬ (p : Int) < 0 := by omega
    simp [cut, kept, spec, nonneg]

theorem shown_length : (shownText field.spec s).length = (field.kept s).length := by
  rw [shownText, List.length_map, cut_kept]

theorem shown_bytes : (shownText field.spec s).map UInt8.ofInt =
    (field.kept s).map (masked field.hash) := by
  have masks : UInt8.ofInt ∘ shownChar field.hash = masked field.hash := by
    funext byte
    exact ofInt_shownChar field.hash byte
  rw [shownText, List.map_map, cut_kept, ← masks]
  rfl

theorem counted (short : (field.kept s).length < 2 ^ 32) :
    min s.length (UInt32.ofInt field.spec.precision).toNat = (field.kept s).length := by
  cases precision : field.precision with
  | none =>
    have unlimited : field.spec.precision = -1 := by simp [spec, precision]
    have whole : field.kept s = s := by simp [kept, precision]
    have bound : (UInt32.ofInt (-1)).toNat = 2 ^ 32 - 1 := rfl
    rw [whole] at short ⊢
    rw [unlimited, bound]
    omega
  | some p =>
    have limited : field.spec.precision = p := by simp [spec, precision]
    have front : field.kept s = s.take p := by simp [kept, precision]
    have int := field.precision_int p precision
    have bound : (UInt32.ofInt p).toNat = p := by
      simp [UInt32.ofInt]
      omega
    rw [limited, front, bound, List.length_take, min_comm]

theorem printed_text {string : Option Chars} (spells : Spells string s) :
    printed field.format (field.args ++ [.str string]) = .done (stringText field.spec s, []) := by
  have width := field.width_int
  have inRange : int32 field.spec.width = field.spec.width :=
    int32_of_lt _ (by simp only [spec]; omega) (by simp only [spec]; omega)
  exact printed_directive (field.scanned _) (by decide) (converts_string spells field.spec inRange)

theorem path_iff : 0 < field.spec.width ∧ field.spec.padc ≠ 45 ↔
    0 < field.width ∧ field.pad ≠ .minus := by
  obtain ⟨pad, hash, width, precision, -, -⟩ := field
  cases pad <;> simp [spec, Pad.padc]

theorem widthLeft_eq (short : (field.kept s).length ≤ 2 ^ 31) :
    widthLeft field.spec s = field.width - (field.kept s).length := by
  have int := field.width_int
  have width : field.spec.width = field.width := rfl
  rw [widthLeft, field.counted s (by omega), width, int32_of_lt _ (by omega) (by omega)]

theorem text_left (padded : 0 < field.width ∧ field.pad ≠ .minus)
    (room : 2 * (field.kept s).length ≤ field.width + 2 ^ 31) :
    (stringText field.spec s).map UInt8.ofInt = field.text s := by
  have int := field.width_int
  have left := field.widthLeft_eq s (by omega)
  have pads : (widthLeft field.spec s).toNat = field.width - (field.kept s).length := by omega
  have none : (int32 (min (widthLeft field.spec s) 0 - (field.kept s).length)).toNat = 0 := by
    rw [left, int32_of_lt _ (by omega) (by omega)]
    omega
  rw [stringText, if_pos (field.path_iff.2 padded), field.shown_length, none, pads,
    List.replicate_zero, List.append_nil, List.map_append, List.map_replicate, field.shown_bytes]
  cases pad : field.pad with
  | space => simp [text, spec, pad, Pad.padc, UInt8.ofInt]
  | zero => simp [text, spec, pad, Pad.padc, UInt8.ofInt]
  | minus => exact absurd pad padded.2

theorem text_right (unpadded : ¬ (0 < field.width ∧ field.pad ≠ .minus))
    (room : (field.kept s).length ≤ field.width + 2 ^ 31) :
    (stringText field.spec s).map UInt8.ofInt = field.text s := by
  have int := field.width_int
  have width : field.spec.width = field.width := rfl
  have pads : (int32 (field.width - (field.kept s).length)).toNat =
      field.width - (field.kept s).length := by
    rw [int32_of_lt _ (by omega) (by omega)]
    omega
  have zero (left : field.pad ≠ .minus) : field.width = 0 := by
    by_contra some
    exact unpadded ⟨by omega, left⟩
  rw [stringText, if_neg (mt field.path_iff.1 unpadded), field.shown_length, width, pads,
    List.map_append, List.map_replicate, field.shown_bytes]
  cases pad : field.pad with
  | minus => simp [text, pad, UInt8.ofInt]
  | space => simp [text, pad, zero (by simp [pad])]
  | zero => simp [text, pad, zero (by simp [pad])]

theorem text_noWrap (room : field.NoWrap s) :
    (stringText field.spec s).map UInt8.ofInt = field.text s := by
  by_cases padded : 0 < field.width ∧ field.pad ≠ .minus
  next =>
    rw [NoWrap, if_pos padded] at room
    exact field.text_left s padded room
  next =>
    rw [NoWrap, if_neg padded] at room
    exact field.text_right s padded room

theorem stringField_correct {string : Option Chars} (spells : Spells string s)
    (room : field.NoWrap s) :
    ∃ out, printed field.format (field.args ++ [.str string]) = .done (out, []) ∧
      out.map UInt8.ofInt = field.text s :=
  ⟨_, field.printed_text s spells, field.text_noWrap s room⟩

theorem nullField_correct :
    ∃ out, printed ⟨[37, 48, 35, 42, 46, 42, 115], by decide⟩ [.word 4, .word 2, .str none] =
        .done (out, []) ∧ out.map UInt8.ofInt = [48, 48, 40, 110] :=
  stringField_correct ⟨.zero, true, 4, some 2, by decide, by simp⟩ [40, 110, 117, 108, 108, 41]
    ⟨by decide, [], rfl⟩ (by simp [NoWrap, kept])

theorem text_wraps (padded : 0 < field.width ∧ field.pad ≠ .minus)
    (short : (field.kept s).length < 2 ^ 31) (wraps : ¬ field.NoWrap s) :
    (stringText field.spec s).map UInt8.ofInt ≠ field.text s := by
  have length := field.shown_length s
  have int := field.width_int
  rw [NoWrap, if_pos padded] at wraps
  have left := field.widthLeft_eq s (by omega)
  have blanks : 0 < (int32 (min (widthLeft field.spec s) 0 - (field.kept s).length)).toNat := by
    rw [left, int32_of_below _ (by omega) (by omega)]
    omega
  have expected : (field.text s).length = (field.kept s).length := by
    have room : field.width - (field.kept s).length = 0 := by omega
    cases pad : field.pad <;> simp [text, pad, room]
  intro same
  have lengths := congrArg List.length same
  rw [stringText, if_pos (field.path_iff.2 padded), List.length_map, expected] at lengths
  simp only [List.length_append, List.length_replicate, length] at lengths
  omega

theorem gigabyte_text (noNul : 0 ∉ s) (length : s.length = 2 ^ 30 + 1) :
    ∃ out, printed ⟨[37, 42, 115], by decide⟩ [.word 1, .str (some (s ++ [0]))] = .done (out, []) ∧
      out.map UInt8.ofInt ≠ text ⟨.space, false, 1, none, by decide, by simp⟩ s :=
  ⟨_, printed_text ⟨.space, false, 1, none, by decide, by simp⟩ s ⟨noNul, [], rfl⟩,
    text_wraps _ s (by decide) (by simp [kept, length]) (by simp [NoWrap, kept, length])⟩

-- "%*s" of 2 ^ 30 + 1 letters, with the width 1.
theorem gigabyte_wraps :
    ∃ out, printed ⟨[37, 42, 115], by decide⟩
        [.word 1, .str (some (List.replicate (2 ^ 30 + 1) 97 ++ [0]))] = .done (out, []) ∧
      out.map UInt8.ofInt ≠
        text ⟨.space, false, 1, none, by decide, by simp⟩ (List.replicate (2 ^ 30 + 1) 97) :=
  gigabyte_text _ (fun member => absurd (List.eq_of_mem_replicate member) (by decide))
    List.length_replicate

end PaddedString

end JosLab.Printfmt
