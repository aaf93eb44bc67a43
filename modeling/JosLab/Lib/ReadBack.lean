import JosLab.Lib.SilentFormats
import JosLab.Lib.Snprintf
import JosLab.Lib.Strtol

set_option autoImplicit false

namespace JosLab

open Printfmt Numeral

theorem ofInt_char (byte : UInt8) : UInt8.ofInt byte.toNat = byte := by
  apply UInt8.toNat_inj.1
  have lt := byte.toNat_lt
  simp [UInt8.ofInt]
  omega

structure Restores (f : CString) (base : Int) (x : UInt32) (text : Chars) : Prop where
  prints : printed f [.word x] = .done (text.map fun ch => (ch.toNat : Int), [])
  short : text.length ≤ 11
  noNul : 0 ∉ text
  reads : ∀ rest, strtol (text ++ 0 :: rest) base = .done (x.toInt32.toInt, 0 :: rest)

theorem Restores.snprintf {f : CString} {base : Int} {x : UInt32} {text : Chars}
    (restores : Restores f base x text) {mem : Mem} {buf : Nat} {n : Int}
    (buffer : Buffer mem buf n) :
    ∃ mem', snprintf mem buf n f [.word x] = .done (text.length, mem') ∧
      ((text.length : Int) < n →
        strtol (charsAt mem' buf (buf + n.toNat)) base =
          .done (x.toInt32.toInt, charsAt mem' (buf + text.length) (buf + n.toNat)) ∧
        mem'.value (buf + text.length) = 0 ∧ ∀ i < text.length, mem'.value (buf + i) ≠ 0) := by
  have short := restores.short
  obtain ⟨mem', ran, stored⟩ := vsnprintf_stored restores.prints (by simp; omega) buffer
  rw [List.length_map] at ran
  refine ⟨mem', ran, fun room => ?_⟩
  have whole : truncated (text.map fun ch => (ch.toNat : Int)) n = text := by
    have bytes : text.map (fun ch => UInt8.ofInt ch.toNat) = text := by
      simp [ofInt_char]
    rw [truncated, List.map_map, Function.comp_def, bytes, List.take_of_length_le (by omega)]
  rw [whole] at stored
  have chars := charsAt_text mem' text buf (buf + n.toNat) (by omega) stored.chars
  have nul := charsAt_cons mem' (buf + text.length) (buf + n.toNat) (by omega)
  rw [stored.terminated] at nul
  refine ⟨?_, stored.terminated, fun i lt zero => ?_⟩
  · rw [chars, nul]
    exact restores.reads _
  · have member : text.getD i 0 ∈ text := by simp [lt]
    rw [stored.chars i lt] at zero
    exact restores.noNul (zero ▸ member)

theorem spelled_length (digits : List Nat) : (spelled digits).length = digits.length :=
  List.length_map _

section Texts

variable (x : UInt32)

theorem spelled_noNul (digits : List Nat) (small : ∀ digit ∈ digits, digit < 16) :
    0 ∉ spelled digits := by
  intro nul
  obtain ⟨digit, member, same⟩ := List.mem_map.mp nul
  have plain := (digitChar_plain digit (small digit member)).1
  rw [same] at plain
  exact plain (by decide)

theorem numberText_plain (base num : Nat) (short : (numeral base num).length ≤ 11) :
    numberText base num (-1) 32 = (spelled (numeral base num)).map fun ch => (ch.toNat : Int) := by
  have none : (int32 (-1 - (numeral base num).length)).toNat = 0 := by
    rw [int32_of_lt _ (by omega) (by omega)]
    omega
  simp [numberText, none, spelled]

theorem restores_unsigned {base : Nat} {given : Int} (reads : Reads base given) {f : CString}
    (prints : printed f [.word x] = .done (unsignedText {} base x.toUInt64, [])) :
    Restores f given x (spelled (numeral base x.toNat)) := by
  have bounds : 2 ≤ base ∧ base ≤ 16 ∧ 2 ^ 32 ≤ base ^ 11 := by cases reads <;> decide
  obtain ⟨two, sixteen, wide⟩ := bounds
  have lt := x.toNat_lt
  have short : (numeral base x.toNat).length ≤ 11 := numeral_length two (by decide) (by omega)
  have word : int32 x.toNat = x.toInt32.toInt := (BitVec.toInt_eq_toNat_bmod x.toBitVec).symm
  refine ⟨?_, by simpa [spelled] using short, ?_, fun rest => ?_⟩
  · rw [prints, ← numberText_plain base x.toNat short]
    rfl
  · exact spelled_noNul _ fun digit member => lt_of_lt_of_le (numeral_lt two digit member) sixteen
  · rw [strtol_numeral reads, word]

theorem restores_pointer (given : Int) (detects : given = 16 ∨ given = 0) {f : CString}
    (prints : printed f [.word x] = .done (pointerText {} x, [])) :
    Restores f given x (48 :: 120 :: spelled (numeral 16 x.toNat)) := by
  have lt := x.toNat_lt
  have short : (numeral 16 x.toNat).length ≤ 9 :=
    numeral_length (by decide) (by decide) (by omega)
  have word : int32 x.toNat = x.toInt32.toInt := (BitVec.toInt_eq_toNat_bmod x.toBitVec).symm
  have small : ∀ digit ∈ numeral 16 x.toNat, digit < 16 := numeral_lt (by decide)
  refine ⟨?_, by simp [spelled]; omega, by simpa using spelled_noNul _ small, fun rest => ?_⟩
  · rw [prints, pointerText, numberText_plain 16 x.toNat (by omega)]
    rfl
  · rw [List.cons_append, List.cons_append, strtol_hex given detects, word]

theorem restores_signed {given : Int} (reads : Reads 10 given) {f : CString}
    (prints : printed f [.word x] = .done (signedText {} x.toInt32.toInt64, [])) :
    ∃ text, Restores f given x text := by
  have low := x.toInt32.le_toInt
  have high := x.toInt32.toInt_lt
  have kept : int32 x.toInt32.toInt = x.toInt32.toInt := int32_of_lt _ low high
  have small (n : Nat) : ∀ digit ∈ numeral 10 n, digit < 16 :=
    fun digit member => lt_trans (numeral_lt (by decide) digit member) (by decide)
  by_cases negative : x.toInt32.toInt64 < 0
  next =>
    have below : x.toInt32.toInt < 0 := by simpa [Int64.lt_iff_toInt_lt] using negative
    have negated : (-x.toInt32.toInt64).toInt = -x.toInt32.toInt := by
      rw [Int64.toInt_neg, Int32.toInt_toInt64, Int.bmod_eq_iff (by decide)]
      refine ⟨by omega, by omega, by simp⟩
    have positive : 0 ≤ -x.toInt32.toInt64 := by
      rw [Int64.le_iff_toInt_le, negated, Int64.toInt_zero]
      omega
    have magnitude : (-x.toInt32.toInt64).toUInt64.toNat = (-x.toInt32.toInt).toNat := by
      rw [Int64.toNat_toUInt64_of_le positive, Int64.toNatClampNeg, negated]
    have short : (numeral 10 (-x.toInt32.toInt).toNat).length ≤ 10 :=
      numeral_length (by decide) (by decide) (by omega)
    have value : int32 (-int32 (-x.toInt32.toInt).toNat) = x.toInt32.toInt := by
      have twice := int32_sub_int32 0 (-x.toInt32.toInt)
      rw [Int.zero_sub, Int.zero_sub, Int.neg_neg] at twice
      rw [Int.toNat_of_nonneg (by omega), twice, kept]
    refine ⟨45 :: spelled (numeral 10 (-x.toInt32.toInt).toNat), ?_, by simp [spelled]; omega,
      by simpa using spelled_noNul _ (small _), fun rest => ?_⟩
    · rw [prints, signedText, if_pos negative, magnitude, numberText_plain 10 _ (by omega)]
      rfl
    · rw [List.cons_append, strtol_minus reads, value]
  next =>
    have above : 0 ≤ x.toInt32.toInt := by
      have ge := negative
      rw [Int64.lt_iff_toInt_lt, Int32.toInt_toInt64] at ge
      exact not_lt.mp ge
    have magnitude : x.toInt32.toInt64.toUInt64.toNat = x.toInt32.toInt.toNat := by
      rw [Int64.toNat_toUInt64_of_le (Int64.not_lt.mp negative), Int64.toNatClampNeg,
        Int32.toInt_toInt64]
    have short : (numeral 10 x.toInt32.toInt.toNat).length ≤ 10 :=
      numeral_length (by decide) (by decide) (by omega)
    refine ⟨spelled (numeral 10 x.toInt32.toInt.toNat), ?_, by rw [spelled_length]; omega,
      spelled_noNul _ (small _), fun rest => ?_⟩
    · rw [prints, signedText, if_neg negative, magnitude, numberText_plain 10 _ (by omega)]
    · rw [strtol_numeral reads, Int.toNat_of_nonneg above, kept]

end Texts

inductive Undoes : CString → Int → Prop where
  -- "%d"
  | signed : Undoes ⟨[37, 100], by decide⟩ 10
  | signedDetected : Undoes ⟨[37, 100], by decide⟩ 0
  -- "%u"
  | unsigned : Undoes ⟨[37, 117], by decide⟩ 10
  -- "%o"
  | octal : Undoes ⟨[37, 111], by decide⟩ 8
  -- "%x"
  | hex : Undoes ⟨[37, 120], by decide⟩ 16
  -- "%p"
  | pointer : Undoes ⟨[37, 112], by decide⟩ 16
  | pointerDetected : Undoes ⟨[37, 112], by decide⟩ 0

theorem printed_signed (x : UInt32) :
    printed ⟨[37, 100], by decide⟩ [.word x] = .done (signedText {} x.toInt32.toInt64, []) :=
  printed_single rfl (by decide) fun putch putdat _ => ⟨_, rfl, printSigned_emit putch rfl putdat⟩

theorem printed_pointer (x : UInt32) :
    printed ⟨[37, 112], by decide⟩ [.word x] = .done (pointerText {} x, []) :=
  printed_single rfl (by decide) fun putch putdat _ => ⟨_, rfl, printPointer_emit putch x putdat⟩

theorem Undoes.restores {f : CString} {base : Int} (undoes : Undoes f base) (x : UInt32) :
    ∃ text, Restores f base x text := by
  cases undoes with
  | signed => exact restores_signed x .decimal (printed_signed x)
  | signedDetected => exact restores_signed x .detected (printed_signed x)
  | unsigned =>
    exact ⟨_, restores_unsigned x .decimal (printed_single rfl (by decide) fun putch putdat _ =>
      ⟨_, rfl, printUnsigned_emit putch 10 (by decide) (by decide) rfl putdat⟩)⟩
  | octal =>
    exact ⟨_, restores_unsigned x .octal (printed_single rfl (by decide) fun putch putdat _ =>
      ⟨_, rfl, printUnsigned_emit putch 8 (by decide) (by decide) rfl putdat⟩)⟩
  | hex =>
    exact ⟨_, restores_unsigned x .hex (printed_single rfl (by decide) fun putch putdat _ =>
      ⟨_, rfl, printUnsigned_emit putch 16 (by decide) (by decide) rfl putdat⟩)⟩
  | pointer => exact ⟨_, restores_pointer x 16 (.inl rfl) (printed_pointer x)⟩
  | pointerDetected => exact ⟨_, restores_pointer x 0 (.inr rfl) (printed_pointer x)⟩

theorem strtol_undoes {f : CString} {base : Int} (undoes : Undoes f base) (x : UInt32) {mem : Mem}
    {buf : Nat} {n : Int} (buffer : Buffer mem buf n) :
    ∃ (length : Nat) (mem' : Mem), snprintf mem buf n f [.word x] = .done (length, mem') ∧
      length ≤ 11 ∧ ((length : Int) < n →
        strtol (charsAt mem' buf (buf + n.toNat)) base =
          .done (x.toInt32.toInt, charsAt mem' (buf + length) (buf + n.toNat)) ∧
        mem'.value (buf + length) = 0 ∧ ∀ i < length, mem'.value (buf + i) ≠ 0) := by
  obtain ⟨text, restores⟩ := undoes.restores x
  obtain ⟨mem', ran, reads⟩ := restores.snprintf buffer
  exact ⟨text.length, mem', ran, restores.short, reads⟩

theorem least_undone :
    ∃ (length : Nat) (mem' : Mem), snprintf ⟨fun a => 8 ≤ a && a < 20, fun _ => 7⟩ 8 12
        ⟨[37, 100], by decide⟩ [.word 0x80000000] = .done (length, mem') ∧ length < 12 ∧
      strtol (charsAt mem' 8 20) 0 = .done (-0x80000000, charsAt mem' (8 + length) 20) := by
  have buffer : Buffer ⟨fun a => 8 ≤ a && a < 20, fun _ => 7⟩ 8 12 :=
    ⟨by decide, by decide, by decide, by
      intro a ge lt
      simp at lt ⊢
      omega⟩
  obtain ⟨length, mem', ran, short, reads⟩ := strtol_undoes .signedDetected 0x80000000 buffer
  exact ⟨length, mem', ran, by omega, (reads (by omega)).1⟩

end JosLab
