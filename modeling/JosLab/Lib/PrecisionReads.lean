import JosLab.Lib.FormatPieces

set_option autoImplicit false

namespace JosLab.Printfmt

def starredString (after : CString) : CString where
  bytes := 46 :: 42 :: 115 :: after.bytes
  noNul := by simp [after.noNul]

def Marks.filledArgs (marks : Marks) (s : List UInt8) (more : List Arg) : List Arg :=
  marks.taken ++ .word (UInt32.ofNat s.length) :: .str (some s) :: more

def ReadsWithin (marks : Marks) (after : CString) (s : List UInt8) (more : List Arg) : Prop :=
  printed (marks.before (starredString after)) (marks.filledArgs s more) ≠ .fault .char

variable {s : List UInt8}

theorem strnlen_full (noNul : 0 ∉ s) : strnlen s s.length = .done s.length := by
  induction s with
  | nil => rfl
  | cons byte s ih =>
    have nonzero := List.ne_of_not_mem_cons noNul
    simp [strnlen, Ne.symm nonzero, ih (List.not_mem_of_not_mem_cons noNul)]

theorem putString_past (altflag : Bool) (noNul : 0 ∉ s) (width : Int) (w : List Int) :
    putString record altflag s s.length width w = .fault .char := by
  induction s generalizing width w with
  | nil => rfl
  | cons byte s ih =>
    have nonzero := List.ne_of_not_mem_cons noNul
    have limited : ¬ ((byte :: s).length : Int) < 0 := by omega
    have room : (0 : Int) ≤ (byte :: s).length - 1 := by
      rw [List.length_cons]
      omega
    have rest : ((byte :: s).length : Int) - 1 = s.length := by
      rw [List.length_cons]
      omega
    obtain ⟨shown, printed⟩ := putStringChar_emit altflag (charInt byte)
    rw [putString, if_neg (Ne.symm nonzero), if_neg limited, if_pos room, printed, rest]
    exact ih (List.not_mem_of_not_mem_cons noNul) _ _

theorem printString_past (spec : Spec) (noNul : 0 ∉ s) (int : s.length < 2 ^ 31)
    (precision : spec.precision = s.length) (more : List Arg) (w : List Int) :
    printString record spec (.str (some s) :: more) w = .fault .char := by
  have size : (UInt32.ofInt s.length).toNat = s.length := by
    rw [ofInt_natCast _ (by omega)]
    exact UInt32.toNat_ofNat_of_lt' (show s.length < 2 ^ 32 by omega)
  by_cases padded : 0 < spec.width ∧ spec.padc ≠ 45
  next =>
    simp [printString, vaString, padded, precision, size, strnlen_full noNul, pad_emit,
      putString_past _ noNul]
  next =>
    simp [printString, vaString, padded, precision, putString_past _ noNul]

theorem flags_starred (number : Option Int) (spec : Spec) (after : CString)
    (int : s.length < 2 ^ 31) (ap : List Arg) :
    ∃ spec' : Spec, spec'.precision = s.length ∧
      flags (starredString after).bytes number spec (.word (UInt32.ofNat s.length) :: ap) =
        some ⟨115, after.bytes, spec', ap⟩ := by
  have value := natCast_bmod s.length int
  have dotted (ap : List Arg) : flagged 46 number spec ap = .more none
      (if (settle number spec).width < 0 then { settle number spec with width := 0 }
        else settle number spec) ap := by
    simp [flagged, isDigit, Spec.set]
  generalize settle number spec = settled at dotted
  by_cases unset : settled.width < 0
  next =>
    refine ⟨{ settled with width := 0, precision := s.length }, rfl, ?_⟩
    rw [if_pos unset] at dotted
    simp only [starredString, flags, dotted]
    simp [flagged, isDigit, Spec.set, settle, Spec.processPrecision, value]
  next =>
    refine ⟨{ settled with precision := s.length }, rfl, ?_⟩
    rw [if_neg unset] at dotted
    simp only [starredString, flags, dotted]
    simp [flagged, isDigit, Spec.set, settle, Spec.processPrecision, value, unset]

theorem precision_overreads (marks : Marks) (after : CString) (s : List UInt8) (more : List Arg)
    (noNul : 0 ∉ s) (int : s.length < 2 ^ 31) : ¬ ReadsWithin marks after s more := by
  obtain ⟨spec, precision, scanned⟩ :=
    flags_starred marks.number marks.spec after int (.str (some s) :: more)
  rw [← marks.flags_before (starredString after)] at scanned
  have faults := printString_past spec noNul int precision more []
  have fault : printed (marks.before (starredString after)) (marks.filledArgs s more) =
      .fault .char := printed_fault scanned rfl faults
  exact not_not.2 fault

-- "%5.*s" with 2 and the two bytes of "ab"
def fiveWide : Marks where
  front := [53]
  taken := []
  number := some 5
  spec := {}
  passed := rfl

theorem fiveWide_overreads : ¬ ReadsWithin fiveWide .empty [97, 98] [] :=
  precision_overreads fiveWide .empty [97, 98] [] (by decide) (by decide)

theorem twoBytes_past : printed (fiveWide.before (starredString .empty))
    [.word 2, .str (some [97, 98])] = .fault .char := by
  decide +kernel

end JosLab.Printfmt
