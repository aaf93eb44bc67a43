import JosLab.Lib.FormatRefinement
import JosLab.Shared.Numeral

set_option autoImplicit false

namespace JosLab.Printfmt

open Numeral

theorem pad_emit {σ : Type} (putch : Int → σ → Outcome Fault σ) (padc width : Int) (putdat : σ) :
    pad putch padc width putdat = emit putch (List.replicate width.toNat padc) putdat := by
  unfold pad
  induction count : width.toNat generalizing width putdat with
  | zero =>
    have none : ¬ 0 < width := by omega
    exact Loop.run_leave 0 (by simp [padPass, none])
  | succ count ih =>
    have some : 0 < width := by omega
    rw [Loop.run_bind _ (putch padc putdat) (fun putdat => (width - 1, putdat))
      (by simp [padPass, some]), List.replicate_succ, emit_cons]
    congr 1
    funext putdat
    exact ih (width - 1) putdat (by omega)

def digitChar (digit : Nat) : UInt8 := digits.getD digit 0

theorem digit_found (digit : Nat) (lt : digit < 16) : digits[digit]? = some (digitChar digit) := by
  have inside : digit < digits.length := by
    have size : digits.length = 17 := rfl
    omega
  simp [digitChar, inside]

def numberText (base num : Nat) (width padc : Int) : List Int :=
  List.replicate (int32 (width - (numeral base num).length)).toNat padc ++
    (numeral base num).map fun digit => ((digitChar digit).toNat : Int)

theorem numberText_digit (base num : Nat) (width padc : Int) (lt : num < base) :
    numberText base num width padc =
      List.replicate (int32 (width - 1)).toNat padc ++ [((digitChar num).toNat : Int)] := by
  simp [numberText, numeral_digit lt]

theorem numberText_step (base num : Nat) (width padc : Int) (two : 2 ≤ base) (le : base ≤ num) :
    numberText base num width padc =
      numberText base (num / base) (int32 (width - 1)) padc ++
        [((digitChar (num % base)).toNat : Int)] := by
  have room : int32 (int32 (width - 1) - (numeral base (num / base)).length) =
      int32 (width - ((numeral base (num / base)).length + 1 : Nat)) := by
    rw [int32_int32_sub]
    congr 1
    omega
  simp [numberText, numeral_step two le, room]

theorem printnumAt_numeral (depth : Nat) (num base : UInt64) (width padc : Int)
    (two : 2 ≤ base.toNat) (sixteen : base.toNat ≤ 16)
    (enough : num.toNat < base.toNat ^ (depth + 1)) {σ : Type}
    (putch : Int → σ → Outcome Fault σ) (putdat : σ) :
    printnumAt putch (depth + 1) num base width padc putdat =
      emit putch (numberText base.toNat num.toNat width padc) putdat := by
  have digit (num : UInt64) : digits[(num % base).toNat]? =
      some (digitChar (num.toNat % base.toNat)) := by
    have rem := Nat.mod_lt num.toNat (show base.toNat > 0 by omega)
    rw [UInt64.toNat_mod]
    exact digit_found _ (by omega)
  induction depth generalizing num width putdat with
  | zero =>
    have lt : num.toNat < base.toNat := by simpa using enough
    have last : ¬ base ≤ num := by
      rw [UInt64.le_iff_toNat_le]
      omega
    rw [printnumAt, digit, numberText_digit _ _ _ _ lt, Nat.mod_eq_of_lt lt]
    simp [last, pad_emit]
  | succ depth ih =>
    rw [printnumAt, digit]
    by_cases more : base ≤ num
    next =>
      have fewer : (num / base).toNat < base.toNat ^ (depth + 1) := by
        rw [UInt64.toNat_div]
        apply Nat.div_lt_of_lt_mul
        rwa [Nat.pow_succ'] at enough
      rw [numberText_step _ _ _ _ two (UInt64.le_iff_toNat_le.mp more), ← UInt64.toNat_div]
      simp [more, ih _ _ fewer]
    next =>
      have lt : num.toNat < base.toNat := by
        rw [UInt64.le_iff_toNat_le] at more
        omega
      rw [numberText_digit _ _ _ _ lt, Nat.mod_eq_of_lt lt]
      simp [more, pad_emit]

theorem printnum_numeral (num base : UInt64) (width padc : Int) (two : 2 ≤ base.toNat)
    (sixteen : base.toNat ≤ 16) {σ : Type} (putch : Int → σ → Outcome Fault σ) (putdat : σ) :
    printnum putch num base width padc putdat =
      emit putch (numberText base.toNat num.toNat width padc) putdat := by
  have enough : num.toNat < base.toNat ^ 64 :=
    lt_of_lt_of_le num.toNat_lt (Nat.pow_le_pow_left two 64)
  exact printnumAt_numeral 63 num base width padc two sixteen enough putch putdat

theorem putStringChar_emit (altflag : Bool) (ch : Int) :
    ∃ shown, ∀ {σ : Type} (putch : Int → σ → Outcome Fault σ) (putdat : σ),
      putStringChar putch altflag ch putdat = putch shown putdat := by
  by_cases hidden : altflag ∧ (ch < 32 ∨ 126 < ch)
  · exact ⟨63, fun putch putdat => by rw [putStringChar, if_pos hidden]⟩
  · exact ⟨ch, fun putch putdat => by rw [putStringChar, if_neg hidden]⟩

def record (ch : Int) (w : List Int) : Outcome Fault (List Int) := .done (w ++ [ch])

@[simp] theorem emit_record (u w : List Int) : emit record u w = .done (w ++ u) := by
  induction u generalizing w with
  | nil => simp
  | cons ch u ih => simp [record, ih]

theorem putString_emit (altflag : Bool) (p : Chars) (precision width : Int) :
    (∃ w left, ∀ {σ : Type} (putch : Int → σ → Outcome Fault σ) (putdat : σ),
      putString putch altflag p precision width putdat =
        emit putch w putdat >>= fun putdat => .done (left, putdat)) ∨
    (0 ∉ p ∧ ∀ w result, putString record altflag p precision width w ≠ .done result) := by
  induction p generalizing precision width with
  | nil => exact .inr ⟨by simp, by simp [putString]⟩
  | cons byte p ih =>
    by_cases nul : byte = 0
    next => exact .inl ⟨[], width, fun putch putdat => by simp [putString, nul]⟩
    obtain ⟨shown, printed⟩ := putStringChar_emit altflag (charInt byte)
    by_cases unlimited : precision < 0
    next =>
      rcases ih precision (int32 (width - 1)) with ⟨w, left, rest⟩ | ⟨unended, off⟩
      · exact .inl ⟨shown :: w, left, fun putch putdat => by
          simp [putString, nul, unlimited, printed, rest, Outcome.bind_assoc]⟩
      · refine .inr ⟨by simp [unended, Ne.symm nul], fun w result => ?_⟩
        simpa [putString, nul, unlimited, printed, record] using off (w ++ [shown]) result
    by_cases room : 0 ≤ precision - 1
    next =>
      rcases ih (precision - 1) (int32 (width - 1)) with ⟨w, left, rest⟩ | ⟨unended, off⟩
      · exact .inl ⟨shown :: w, left, fun putch putdat => by
          simp only [putString, nul, unlimited, room, if_false, if_true, printed, rest, emit_cons,
            Outcome.bind_assoc]⟩
      · refine .inr ⟨by simp [unended, Ne.symm nul], fun w result => ?_⟩
        simp only [putString, nul, unlimited, room, if_false, if_true, printed]
        exact off (w ++ [shown]) result
    next =>
      exact .inl ⟨[], width, fun putch putdat => by
        simp only [putString, nul, unlimited, room, if_false, emit_nil, Outcome.done_bind,
          Outcome.pure_eq]⟩

theorem strnlen_done (p : Chars) (terminated : 0 ∈ p) (size : Nat) :
    ∃ n, strnlen p size = .done n := by
  induction p generalizing size with
  | nil => cases terminated
  | cons head rest ih =>
    cases size with
    | zero => exact ⟨0, rfl⟩
    | succ size =>
      by_cases nul : head = 0
      next => exact ⟨0, by simp [strnlen, nul]⟩
      next =>
        have later : 0 ∈ rest := by simpa [Ne.symm nul] using terminated
        obtain ⟨n, counted⟩ := ih later size
        exact ⟨n + 1, by simp [strnlen, nul, counted]⟩

theorem printString_emit (spec : Spec) (string : Option Chars) :
    (∃ w, ∀ {σ : Type} (putch : Int → σ → Outcome Fault σ) (putdat : σ) (rest : List Arg),
      printString putch spec (.str string :: rest) putdat =
        emit putch w putdat >>= fun putdat => .done (rest, putdat)) ∨
    (0 ∉ string.getD nullChars ∧ ∀ rest w result,
      printString record spec (.str string :: rest) w ≠ .done result) := by
  by_cases padded : 0 < spec.width ∧ spec.padc ≠ 45
  next =>
    cases counted : strnlen (string.getD nullChars) (UInt32.ofInt spec.precision).toNat with
    | fault error =>
      refine .inr ⟨?_, by simp [printString, vaString, padded, counted]⟩
      intro terminated
      obtain ⟨n, done⟩ := strnlen_done _ terminated (UInt32.ofInt spec.precision).toNat
      rw [counted] at done
      cases done
    | spin =>
      refine .inr ⟨?_, by simp [printString, vaString, padded, counted]⟩
      intro terminated
      obtain ⟨n, done⟩ := strnlen_done _ terminated (UInt32.ofInt spec.precision).toNat
      rw [counted] at done
      cases done
    | done length =>
      rcases putString_emit spec.altflag (string.getD nullChars) spec.precision
        (min (int32 (spec.width - length)) 0) with ⟨w, left, printed⟩ | ⟨unended, off⟩
      · exact .inl ⟨List.replicate (int32 (spec.width - length)).toNat spec.padc ++ w ++
          List.replicate left.toNat 32, fun putch putdat rest => by
            simp [printString, vaString, padded, counted, printed, pad_emit, Outcome.bind_assoc]⟩
      · refine .inr ⟨unended, fun rest w result returned => ?_⟩
        simp only [printString, vaString, padded, counted, pad_emit, emit_record, and_self, if_true,
          ne_eq, not_false_eq_true, Outcome.pure_eq, Outcome.done_bind, Outcome.bind_eq_done]
          at returned
        obtain ⟨value, ran, -⟩ := returned
        exact off _ value ran
  next =>
    rcases putString_emit spec.altflag (string.getD nullChars) spec.precision spec.width
      with ⟨w, left, printed⟩ | ⟨unended, off⟩
    · exact .inl ⟨w ++ List.replicate left.toNat 32, fun putch putdat rest => by
        simp [printString, vaString, padded, printed, pad_emit, Outcome.bind_assoc]⟩
    · refine .inr ⟨unended, fun rest w result returned => ?_⟩
      simp only [printString, vaString, padded, if_false, Outcome.pure_eq, Outcome.done_bind,
        Outcome.bind_eq_done] at returned
      obtain ⟨value, ran, -⟩ := returned
      exact off _ value ran

theorem Consumes.single {kind : Kind} {used : List Arg} (fits : Consumes [kind] used []) :
    ∃ arg, used = [arg] ∧ kind.matches arg = true := by
  cases fits with
  | @cons _ _ arg args _ here more =>
    cases more
    exact ⟨arg, rfl, here⟩

theorem matches_word {arg : Arg} (fits : Kind.word.matches arg = true) :
    ∃ value, arg = .word value := by
  cases arg <;> simp_all [Kind.matches]

theorem matches_dword {arg : Arg} (fits : Kind.dword.matches arg = true) :
    ∃ value, arg = .dword value := by
  cases arg <;> simp_all [Kind.matches]

theorem matches_string {arg : Arg} (fits : Kind.string.matches arg = true) :
    ∃ string, arg = .str string ∧ 0 ∈ string.getD nullChars := by
  cases arg with
  | word value => simp [Kind.matches] at fits
  | dword value => simp [Kind.matches] at fits
  | str string => cases string <;> simp_all [Kind.matches, nullChars]

theorem matches_errno {arg : Arg} (fits : Kind.errno.matches arg = true) :
    ∃ value, arg = .word value ∧ value ≠ 0x80000000 := by
  cases arg <;> simp_all [Kind.matches]

theorem getuint_done {lflag : Int} {used : List Arg}
    (fits : Consumes [if 2 ≤ lflag then .dword else .word] used []) :
    ∃ num, ∀ rest, getuint (used ++ rest) lflag = .done (num, rest) := by
  obtain ⟨arg, rfl, here⟩ := fits.single
  by_cases long : 2 ≤ lflag
  next =>
    rw [if_pos long] at here
    obtain ⟨value, rfl⟩ := matches_dword here
    exact ⟨value, fun rest => by simp [getuint, long, vaDword]⟩
  next =>
    rw [if_neg long] at here
    obtain ⟨value, rfl⟩ := matches_word here
    exact ⟨value.toUInt64, fun rest => by simp [getuint, long, vaWord]⟩

theorem getint_done {lflag : Int} {used : List Arg}
    (fits : Consumes [if 2 ≤ lflag then .dword else .word] used []) :
    ∃ num, ∀ rest, getint (used ++ rest) lflag = .done (num, rest) := by
  obtain ⟨arg, rfl, here⟩ := fits.single
  by_cases long : 2 ≤ lflag
  next =>
    rw [if_pos long] at here
    obtain ⟨value, rfl⟩ := matches_dword here
    exact ⟨value.toInt64, fun rest => by simp [getint, long, vaDword]⟩
  next =>
    rw [if_neg long] at here
    obtain ⟨value, rfl⟩ := matches_word here
    exact ⟨value.toInt32.toInt64, fun rest => by simp [getint, long, vaWord]⟩

section Integers

variable {σ : Type} (putch : Int → σ → Outcome Fault σ) (spec : Spec)

def signedText (num : Int64) : List Int :=
  if num < 0 then 45 :: numberText 10 (-num).toUInt64.toNat spec.width spec.padc
  else numberText 10 num.toUInt64.toNat spec.width spec.padc

def unsignedText (base : Nat) (num : UInt64) : List Int :=
  numberText base num.toNat spec.width spec.padc

def pointerText (value : UInt32) : List Int :=
  48 :: 120 :: numberText 16 value.toNat spec.width spec.padc

variable {spec} {ap rest : List Arg}

theorem printSigned_emit {num : Int64} (got : getint ap spec.lflag = .done (num, rest)) (putdat : σ) :
    printSigned putch spec ap putdat =
      emit putch (signedText spec num) putdat >>= fun putdat => .done (rest, putdat) := by
  have printed (num : UInt64) := printnum_numeral num 10 spec.width spec.padc (by decide)
    (by decide) putch
  have ten : (10 : UInt64).toNat = 10 := rfl
  by_cases negative : num < 0
  next =>
    simp only [printSigned, got, signedText, negative, if_true, printed, ten, emit_cons,
      Outcome.done_bind, Outcome.bind_assoc, Outcome.pure_eq]
  next => simp only [printSigned, got, signedText, negative, if_false, printed, ten,
      Outcome.done_bind, Outcome.pure_eq]

theorem printUnsigned_emit (base : UInt64) (two : 2 ≤ base.toNat) (sixteen : base.toNat ≤ 16)
    {num : UInt64} (got : getuint ap spec.lflag = .done (num, rest)) (putdat : σ) :
    printUnsigned putch base spec ap putdat =
      emit putch (unsignedText spec base.toNat num) putdat >>= fun putdat =>
        .done (rest, putdat) := by
  simp [printUnsigned, got, unsignedText, printnum_numeral num base spec.width spec.padc two sixteen]

theorem printPointer_emit (value : UInt32) (putdat : σ) :
    printPointer putch spec (.word value :: rest) putdat =
      emit putch (pointerText spec value) putdat >>= fun putdat => .done (rest, putdat) := by
  have printed := printnum_numeral value.toUInt64 16 spec.width spec.padc (by decide) (by decide)
    putch
  simp [printPointer, vaWord, pointerText, printed, Outcome.bind_assoc]

end Integers

variable {depth : Nat} {spec : Spec} {used : List Arg}

theorem converts_unsigned (base : UInt64) (two : 2 ≤ base.toNat) (sixteen : base.toNat ≤ 16)
    (fits : Consumes [if 2 ≤ spec.lflag then .dword else .word] used []) :
    ∃ w, ∀ {σ : Type} (putch : Int → σ → Outcome Fault σ) (putdat : σ) (rest : List Arg),
      printUnsigned putch base spec (used ++ rest) putdat =
        emit putch w putdat >>= fun putdat => .done (rest, putdat) := by
  obtain ⟨num, got⟩ := getuint_done fits
  exact ⟨_, fun putch putdat rest => printUnsigned_emit putch base two sixteen (got rest) putdat⟩

theorem converts_signed (fits : Consumes [if 2 ≤ spec.lflag then .dword else .word] used []) :
    ∃ w, ∀ {σ : Type} (putch : Int → σ → Outcome Fault σ) (putdat : σ) (rest : List Arg),
      printSigned putch spec (used ++ rest) putdat =
        emit putch w putdat >>= fun putdat => .done (rest, putdat) := by
  obtain ⟨num, got⟩ := getint_done fits
  exact ⟨_, fun putch putdat rest => printSigned_emit putch (got rest) putdat⟩

theorem converts_plain {ch : UInt8} (known : ch ∈ conversions) (not_error : ch ≠ 101)
    (fits : Consumes ((Mode.directive spec.lflag).takes ch) used []) :
    ∃ w, Converts depth ch spec used w := by
  simp only [conversions, List.mem_cons, List.not_mem_nil, or_false, not_error, false_or] at known
  rcases known with rfl | rfl | rfl | rfl | rfl | rfl | rfl | rfl
  · obtain ⟨arg, rfl, here⟩ := fits.single
    obtain ⟨value, rfl⟩ := matches_word here
    exact ⟨[value.toInt32.toInt], fun putch putdat rest => ⟨_, rfl, by
      simp [printCharacter, vaInt, vaWord]⟩⟩
  · obtain ⟨arg, rfl, here⟩ := fits.single
    obtain ⟨string, rfl, terminated⟩ := matches_string here
    obtain ⟨w, printed⟩ := (printString_emit spec string).resolve_right fun off => off.1 terminated
    exact ⟨w, fun putch putdat rest => ⟨_, rfl, printed putch putdat rest⟩⟩
  · obtain ⟨w, printed⟩ := converts_signed fits
    exact ⟨w, fun putch putdat rest => ⟨_, rfl, printed putch putdat rest⟩⟩
  · obtain ⟨w, printed⟩ := converts_unsigned 10 (by decide) (by decide) fits
    exact ⟨w, fun putch putdat rest => ⟨_, rfl, printed putch putdat rest⟩⟩
  · obtain ⟨w, printed⟩ := converts_unsigned 8 (by decide) (by decide) fits
    exact ⟨w, fun putch putdat rest => ⟨_, rfl, printed putch putdat rest⟩⟩
  · obtain ⟨arg, rfl, here⟩ := fits.single
    obtain ⟨value, rfl⟩ := matches_word here
    exact ⟨_, fun putch putdat rest => ⟨_, rfl, printPointer_emit putch value putdat⟩⟩
  · obtain ⟨w, printed⟩ := converts_unsigned 16 (by decide) (by decide) fits
    exact ⟨w, fun putch putdat rest => ⟨_, rfl, printed putch putdat rest⟩⟩
  · cases fits
    exact ⟨[37], fun putch putdat rest => ⟨_, rfl, by simp⟩⟩

end JosLab.Printfmt
