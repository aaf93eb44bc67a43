import JosLab.Lib.SilentFormats

set_option autoImplicit false

namespace JosLab.Printfmt

def shownChar (altflag : Bool) (byte : UInt8) : Int :=
  if altflag ∧ (charInt byte < 32 ∨ 126 < charInt byte) then 63 else charInt byte

theorem shownChar_plain : shownChar false = charInt := by
  funext byte
  simp [shownChar]

def cut (precision : Int) (s : List UInt8) : List UInt8 :=
  if precision < 0 then s else s.take precision.toNat

theorem putStringChar_shown {σ : Type} (putch : Int → σ → Outcome Fault σ) (altflag : Bool)
    (byte : UInt8) (putdat : σ) :
    putStringChar putch altflag (charInt byte) putdat = putch (shownChar altflag byte) putdat := by
  unfold putStringChar shownChar
  split <;> rfl

theorem putString_cut {σ : Type} (putch : Int → σ → Outcome Fault σ) (altflag : Bool)
    (s rest : List UInt8) (noNul : 0 ∉ s) (precision width : Int) (inRange : int32 width = width)
    (putdat : σ) :
    putString putch altflag (s ++ 0 :: rest) precision width putdat =
      emit putch ((cut precision s).map (shownChar altflag)) putdat >>= fun putdat =>
        .done (int32 (width - (cut precision s).length), putdat) := by
  induction s generalizing precision width putdat with
  | nil => simp [putString, cut, inRange]
  | cons byte s ih =>
    have byte_nonzero : byte ≠ 0 := fun nul => noNul (by simp [nul])
    have later : 0 ∉ s := fun member => noNul (by simp [member])
    have narrower := int32_int32 (width - 1)
    have counted (count : Nat) :
        int32 (int32 (width - 1) - count) = int32 (width - (count + 1 : Nat)) := by
      rw [int32_int32_sub]
      congr 1
      omega
    by_cases unlimited : precision < 0
    next =>
      have whole (t : List UInt8) : cut precision t = t := if_pos unlimited
      have rest := ih later precision (int32 (width - 1)) narrower
      rw [whole] at rest ⊢
      simp only [List.cons_append, putString, byte_nonzero, unlimited, if_false, if_true,
        putStringChar_shown, List.map_cons, emit_cons, Outcome.bind_assoc, List.length_cons]
      congr 1
      funext putdat
      rw [rest, counted]
    by_cases room : 0 ≤ precision - 1
    next =>
      have front : cut precision (byte :: s) = byte :: cut (precision - 1) s := by
        have count : precision.toNat = (precision - 1).toNat + 1 := by omega
        have limited : ¬ precision - 1 < 0 := by omega
        rw [cut, if_neg unlimited, cut, if_neg limited, count, List.take_succ_cons]
      have rest := ih later (precision - 1) (int32 (width - 1)) narrower
      simp only [List.cons_append, putString, byte_nonzero, unlimited, room, if_false, if_true,
        putStringChar_shown, front, List.map_cons, emit_cons, Outcome.bind_assoc, List.length_cons]
      congr 1
      funext putdat
      rw [rest, counted]
    next =>
      obtain rfl : precision = 0 := by omega
      simp [putString, byte_nonzero, cut, inRange]

def Spells (string : Option Chars) (s : List UInt8) : Prop :=
  0 ∉ s ∧ ∃ rest, string.getD nullChars = s ++ 0 :: rest

theorem strnlen_text (s rest : List UInt8) (noNul : 0 ∉ s) (size : Nat) :
    strnlen (s ++ 0 :: rest) size = .done (min s.length size) := by
  induction s generalizing size with
  | nil => cases size <;> simp [strnlen]
  | cons byte s ih =>
    have byte_nonzero : byte ≠ 0 := fun nul => noNul (by simp [nul])
    have later : 0 ∉ s := fun member => noNul (by simp [member])
    cases size with
    | zero => simp [strnlen]
    | succ size => simp [strnlen, byte_nonzero, ih later]

def shownText (spec : Spec) (s : List UInt8) : List Int :=
  (cut spec.precision s).map (shownChar spec.altflag)

def widthLeft (spec : Spec) (s : List UInt8) : Int :=
  int32 (spec.width - (min s.length (UInt32.ofInt spec.precision).toNat : Nat))

def stringText (spec : Spec) (s : List UInt8) : List Int :=
  if 0 < spec.width ∧ spec.padc ≠ 45 then
    List.replicate (widthLeft spec s).toNat spec.padc ++ shownText spec s ++
      List.replicate (int32 (min (widthLeft spec s) 0 - (shownText spec s).length)).toNat 32
  else
    shownText spec s ++ List.replicate (int32 (spec.width - (shownText spec s).length)).toNat 32

theorem printString_text {string : Option Chars} {s : List UInt8} (spells : Spells string s)
    (spec : Spec) (inRange : int32 spec.width = spec.width) {σ : Type}
    (putch : Int → σ → Outcome Fault σ) (putdat : σ) (ap : List Arg) :
    printString putch spec (.str string :: ap) putdat =
      emit putch (stringText spec s) putdat >>= fun putdat => .done (ap, putdat) := by
  obtain ⟨noNul, rest, points⟩ := spells
  have shown := putString_cut putch spec.altflag s rest noNul spec.precision
  have length : (shownText spec s).length = (cut spec.precision s).length := List.length_map _
  by_cases padded : 0 < spec.width ∧ spec.padc ≠ 45
  next =>
    have left : int32 (min (widthLeft spec s) 0) = min (widthLeft spec s) 0 := by
      rcases min_choice (widthLeft spec s) 0 with same | zero
      · rw [same, widthLeft, int32_int32]
      · rw [zero]
        decide
    have counted := strnlen_text s rest noNul (UInt32.ofInt spec.precision).toNat
    simp only [printString, vaString, Outcome.pure_eq, Outcome.done_bind, points, padded, and_self,
      ne_eq, not_false_eq_true, if_true, counted, pad_emit, stringText, emit_append,
      Outcome.bind_assoc, length]
    congr 1
    funext putdat
    have text := shown (min (widthLeft spec s) 0) left putdat
    rw [widthLeft] at text ⊢
    rw [text, Outcome.bind_assoc]
    rfl
  next =>
    simp only [printString, vaString, Outcome.pure_eq, Outcome.done_bind, points, padded, if_false,
      pad_emit, stringText, emit_append, Outcome.bind_assoc, length, shown _ inRange]
    rfl

theorem converts_string {depth : Nat} {string : Option Chars} {s : List UInt8}
    (spells : Spells string s) (spec : Spec) (inRange : int32 spec.width = spec.width) :
    Converts depth 115 spec [.str string] (stringText spec s) := by
  intro σ putch putdat rest
  exact ⟨_, rfl, printString_text spells spec inRange putch putdat rest⟩

theorem printed_text (f : CString) (plain : 37 ∉ f.bytes) (ap : List Arg) :
    printed f ap = .done (f.bytes.map fun ch => (ch.toNat : Int), ap) := by
  rw [printed_iff]
  obtain ⟨s, noNul⟩ := f
  dsimp only at plain ⊢
  clear noNul
  induction s with
  | nil => exact .finish ap
  | cons ch rest ih =>
    have here : ch ≠ 37 := fun percent => plain (by simp [percent])
    exact .text here (ih fun member => plain (by simp [member]))

theorem printed_string (s : List UInt8) (noNul : 0 ∉ s) :
    printed stringFormat [.str (some (s ++ [0]))] =
      .done (s.map charInt ++ List.replicate (int32 (-1 - s.length)).toNat 32, []) := by
  have text : stringText {} s =
      s.map charInt ++ List.replicate (int32 (-1 - s.length)).toNat 32 := by
    simp [stringText, shownText, cut, shownChar_plain]
  rw [← text]
  exact printed_single rfl (by decide) (converts_string ⟨noNul, [], rfl⟩ {} rfl)

end JosLab.Printfmt
