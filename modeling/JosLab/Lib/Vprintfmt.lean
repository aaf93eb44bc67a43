import JosLab.Lib.Conversions

set_option autoImplicit false

namespace JosLab.Printfmt

theorem printfmtAt_renders {depth : Nat} {f : CString} {ap left : List Arg} {w : List Int}
    (renders : Renders (Converts depth) f.bytes ap w left) {σ : Type}
    (putch : Int → σ → Outcome Fault σ) (putdat : σ) :
    vprintfmtAt putch (depth + 1) f ap putdat = emit putch w putdat >>= fun putdat =>
      .done { fmt := f.bytes.length + 1, ap := left, putdat } :=
  run_renders renders putch putdat 0 (f.bytes.length + 1) (Nat.zero_le _) rfl (by omega)

theorem errorFormat_renders (depth : Nat) (value : UInt32) :
    ∃ w, Renders (Converts depth) errorFormat.bytes [.word value] w [] := by
  have fits : Consumes ((Mode.directive ({} : Spec).lflag).takes 100) [.word value] [] :=
    .cons rfl (.nil [])
  obtain ⟨u, converts⟩ := converts_plain (by decide) (by decide) fits
  have number : Renders (Converts depth) [37, 100] [.word value] (u ++ []) [] :=
    .convert rfl (by decide) converts (.finish [])
  exact ⟨_, .text (by decide) (.text (by decide) (.text (by decide) (.text (by decide)
    (.text (by decide) (.text (by decide) number)))))⟩

theorem stringFormat_renders (depth : Nat) (p : Chars) (terminated : 0 ∈ p) :
    ∃ w, Renders (Converts depth) stringFormat.bytes [.str (some p)] w [] := by
  have fits : Consumes ((Mode.directive ({} : Spec).lflag).takes 115) [.str (some p)] [] :=
    .cons (by simpa [Kind.matches] using terminated) (.nil [])
  obtain ⟨u, converts⟩ := converts_plain (by decide) (by decide) fits
  exact ⟨_, .convert rfl (by decide) converts (.finish [])⟩

def folded (value : UInt32) : Int :=
  if value.toInt32.toInt < 0 then int32 (-value.toInt32.toInt) else value.toInt32.toInt

theorem toInt_ne_least (value : UInt32) (not_min : value ≠ 0x80000000) :
    value.toInt32.toInt ≠ -2 ^ 31 := by
  intro least
  have same : value.toInt32 = Int32.minValue := Int32.toInt_inj.1 (by rw [least]; rfl)
  exact not_min (by rw [← UInt32.toUInt32_toInt32 value, same]; rfl)

theorem folded_natAbs (value : UInt32) (not_min : value ≠ 0x80000000) :
    folded value = value.toInt32.toInt.natAbs := by
  have low := value.toInt32.le_toInt
  have high := value.toInt32.toInt_lt
  have other := toInt_ne_least value not_min
  unfold folded
  split
  next negative =>
    rw [int32_of_lt _ (by omega) (by omega)]
    omega
  next => omega

theorem errorString_done (err : Int) (nonneg : 0 ≤ err) (small : ¬ maxerror ≤ err) :
    ∃ entry, errorString err = .done entry ∧ ∀ p, entry = some p → 0 ∈ p := by
  have lt : err.toNat < errorStrings.length := by
    have size : errorStrings.length = 7 := rfl
    have max : maxerror = 7 := rfl
    omega
  have terminated : ∀ entry ∈ errorStrings, ∀ p, entry = some p → 0 ∈ p := by
    simp [errorStrings]
  refine ⟨errorStrings.get ⟨_, lt⟩, ?_, terminated _ (List.get_mem _ _)⟩
  simp [errorString, nonneg, lt]

section Error

variable {depth : Nat} {spec : Spec} {value : UInt32} {u : List Int}

theorem converts_fallback
    (unnamed : maxerror ≤ folded value ∨ errorString (folded value) = .done none)
    (number : Renders (Converts depth) errorFormat.bytes [.word (UInt32.ofInt (folded value))] u []) :
    Converts (depth + 1) 101 spec [.word value] u := by
  unfold folded at unnamed number
  intro σ putch putdat rest
  refine ⟨_, rfl, ?_⟩
  by_cases large : maxerror ≤ folded value
  next =>
    unfold folded at large
    simp [printError, vaInt, vaWord, large, printfmtAt, printfmtAt_renders number,
      Outcome.bind_assoc]
  next =>
    have hole := unnamed.resolve_left large
    unfold folded at large
    simp [printError, vaInt, vaWord, large, hole, printfmtAt, printfmtAt_renders number,
      Outcome.bind_assoc]

theorem converts_message {p : Chars} (small : ¬ maxerror ≤ folded value)
    (found : errorString (folded value) = .done (some p))
    (string : Renders (Converts depth) stringFormat.bytes [.str (some p)] u []) :
    Converts (depth + 1) 101 spec [.word value] u := by
  unfold folded at small found
  intro σ putch putdat rest
  refine ⟨_, rfl, ?_⟩
  simp [printError, vaInt, vaWord, small, found, printfmtAt, printfmtAt_renders string,
    Outcome.bind_assoc]

theorem converts_error (depth : Nat) (spec : Spec) (value : UInt32) (not_min : value ≠ 0x80000000) :
    ∃ w, Converts (depth + 1) 101 spec [.word value] w := by
  obtain ⟨u, number⟩ := errorFormat_renders depth (UInt32.ofInt (folded value))
  by_cases large : maxerror ≤ folded value
  next => exact ⟨u, converts_fallback (.inl large) number⟩
  have nonneg : 0 ≤ folded value := by
    rw [folded_natAbs value not_min]
    omega
  obtain ⟨entry, found, terminated⟩ := errorString_done (folded value) nonneg large
  cases entry with
  | none => exact ⟨u, converts_fallback (.inr found) number⟩
  | some p =>
    obtain ⟨w, string⟩ := stringFormat_renders depth p (terminated p rfl)
    exact ⟨w, converts_message large found string⟩

end Error

theorem converts_total (depth : Nat) (ch : UInt8) (spec : Spec) (used : List Arg)
    (known : ch ∈ conversions) (fits : Consumes ((Mode.directive spec.lflag).takes ch) used []) :
    ∃ w, Converts (depth + 1) ch spec used w := by
  by_cases error : ch = 101
  next =>
    subst error
    obtain ⟨arg, rfl, here⟩ := fits.single
    obtain ⟨value, rfl, not_min⟩ := matches_errno here
    exact converts_error depth spec value not_min
  next => exact converts_plain known error fits

theorem vaWord_returns {ap rest : List Arg} {value : UInt32}
    (ran : vaWord ap = .done (value, rest)) : ap = .word value :: rest := by
  cases ap with
  | nil => cases ran
  | cons arg ap =>
    cases arg with
    | word value' =>
      cases ran
      rfl
    | dword value' => cases ran
    | str string => cases ran

theorem vaDword_returns {ap rest : List Arg} {value : UInt64}
    (ran : vaDword ap = .done (value, rest)) : ap = .dword value :: rest := by
  cases ap with
  | nil => cases ran
  | cons arg ap =>
    cases arg with
    | word value' => cases ran
    | dword value' =>
      cases ran
      rfl
    | str string => cases ran

theorem vaString_returns {ap rest : List Arg} {string : Option Chars}
    (ran : vaString ap = .done (string, rest)) : ap = .str string :: rest := by
  cases ap with
  | nil => cases ran
  | cons arg ap =>
    cases arg with
    | word value' => cases ran
    | dword value' => cases ran
    | str string' =>
      cases ran
      rfl

theorem getuint_returns {ap rest : List Arg} {lflag : Int} {num : UInt64}
    (ran : getuint ap lflag = .done (num, rest)) :
    ∃ used, ap = used ++ rest ∧ Consumes [if 2 ≤ lflag then .dword else .word] used [] := by
  by_cases long : 2 ≤ lflag
  next =>
    simp only [getuint, long, if_true] at ran ⊢
    exact ⟨[.dword num], vaDword_returns ran, .cons rfl (.nil [])⟩
  next =>
    simp only [getuint, long, if_false, Outcome.bind_eq_done] at ran ⊢
    obtain ⟨⟨value, ap'⟩, read, same⟩ := ran
    cases same
    exact ⟨[.word value], vaWord_returns read, .cons rfl (.nil [])⟩

theorem getint_returns {ap rest : List Arg} {lflag : Int} {num : Int64}
    (ran : getint ap lflag = .done (num, rest)) :
    ∃ used, ap = used ++ rest ∧ Consumes [if 2 ≤ lflag then .dword else .word] used [] := by
  by_cases long : 2 ≤ lflag
  next =>
    simp only [getint, long, if_true, Outcome.bind_eq_done] at ran ⊢
    obtain ⟨⟨value, ap'⟩, read, same⟩ := ran
    cases same
    exact ⟨[.dword value], vaDword_returns read, .cons rfl (.nil [])⟩
  next =>
    simp only [getint, long, if_false, Outcome.bind_eq_done] at ran ⊢
    obtain ⟨⟨value, ap'⟩, read, same⟩ := ran
    cases same
    exact ⟨[.word value], vaWord_returns read, .cons rfl (.nil [])⟩

theorem plain_returns {depth : Nat} {ch : UInt8} {spec : Spec} {ap : List Arg} {w : List Int}
    {print : List Arg → List Int → Outcome Fault (List Arg × List Int)}
    {result : List Arg × List Int} (known : ch ∈ conversions) (not_error : ch ≠ 101)
    (not_string : ch ≠ 115)
    (chosen : conversion record (printfmtAt record depth) ch spec = some print)
    (ran : print ap w = .done result) :
    ∃ used rest, ap = used ++ rest ∧
      Consumes ((Mode.directive spec.lflag).takes ch) used [] := by
  simp only [conversions, List.mem_cons, List.not_mem_nil, or_false, not_error, not_string,
    false_or] at known
  rcases known with rfl | rfl | rfl | rfl | rfl | rfl | rfl
  · cases chosen
    simp only [printCharacter, vaInt, Outcome.bind_eq_done] at ran
    obtain ⟨⟨ch, rest⟩, ⟨⟨value, rest'⟩, read, -⟩, -⟩ := ran
    exact ⟨[.word value], rest', vaWord_returns read, .cons rfl (.nil [])⟩
  · cases chosen
    simp only [printSigned, Outcome.bind_eq_done] at ran
    obtain ⟨⟨num, rest⟩, read, -⟩ := ran
    obtain ⟨used, split, fits⟩ := getint_returns read
    exact ⟨used, rest, split, fits⟩
  · cases chosen
    simp only [printUnsigned, Outcome.bind_eq_done] at ran
    obtain ⟨⟨num, rest⟩, read, -⟩ := ran
    obtain ⟨used, split, fits⟩ := getuint_returns read
    exact ⟨used, rest, split, fits⟩
  · cases chosen
    simp only [printUnsigned, Outcome.bind_eq_done] at ran
    obtain ⟨⟨num, rest⟩, read, -⟩ := ran
    obtain ⟨used, split, fits⟩ := getuint_returns read
    exact ⟨used, rest, split, fits⟩
  · cases chosen
    simp only [printPointer, Outcome.bind_eq_done] at ran
    obtain ⟨-, -, -, -, ⟨value, rest⟩, read, -⟩ := ran
    exact ⟨[.word value], rest, vaWord_returns read, .cons rfl (.nil [])⟩
  · cases chosen
    simp only [printUnsigned, Outcome.bind_eq_done] at ran
    obtain ⟨⟨num, rest⟩, read, -⟩ := ran
    obtain ⟨used, split, fits⟩ := getuint_returns read
    exact ⟨used, rest, split, fits⟩
  · exact ⟨[], ap, rfl, .nil []⟩

theorem converts_returns {depth : Nat} {ch : UInt8} {spec : Spec} {ap left : List Arg}
    {w₀ w₁ : List Int} {print : List Arg → List Int → Outcome Fault (List Arg × List Int)}
    (chosen : conversion record (printfmtAt record (depth + 1)) ch spec = some print)
    (ran : print ap w₀ = .done (left, w₁)) :
    ∃ used u, ap = used ++ left ∧ Converts (depth + 1) ch spec used u ∧ w₁ = w₀ ++ u := by
  have known : ch ∈ conversions := by
    by_contra unknown
    rw [conversion_unknown record _ unknown] at chosen
    cases chosen
  have converted : ∃ used rest u, ap = used ++ rest ∧ Converts (depth + 1) ch spec used u := by
    by_cases error : ch = 101
    next =>
      subst error
      cases chosen
      simp only [printError, vaInt, Outcome.bind_eq_done] at ran
      obtain ⟨⟨err, rest⟩, ⟨⟨value, rest'⟩, read, same⟩, rest_ran⟩ := ran
      cases same
      have not_min : value ≠ 0x80000000 := by
        intro min
        subst min
        cases rest_ran
      obtain ⟨u, converted⟩ := converts_error depth spec value not_min
      exact ⟨_, rest', u, vaWord_returns read, converted⟩
    by_cases is_string : ch = 115
    next =>
      subst is_string
      cases chosen
      obtain ⟨⟨string, rest⟩, read, -⟩ := (Outcome.bind_eq_done _ _ _).1 ran
      have split := vaString_returns read
      rw [split] at ran
      obtain ⟨u, printed⟩ := (printString_emit spec string).resolve_right
        fun off => off.2 rest w₀ _ ran
      exact ⟨[.str string], rest, u, split, fun putch putdat rest =>
        ⟨_, rfl, printed putch putdat rest⟩⟩
    next =>
      obtain ⟨used, rest, split, fits⟩ := plain_returns known error is_string chosen ran
      obtain ⟨u, converted⟩ := converts_plain known error fits
      exact ⟨used, rest, u, split, converted⟩
  obtain ⟨used, rest, u, rfl, converts⟩ := converted
  obtain ⟨print', chosen', printed⟩ := converts record w₀ rest
  rw [chosen] at chosen'
  cases chosen'
  rw [ran, emit_record] at printed
  cases printed
  exact ⟨used, u, rfl, converts, rfl⟩

theorem conversion_known {σ : Type} (putch : Int → σ → Outcome Fault σ)
    (printfmt : CString → List Arg → σ → Outcome Fault σ) {ch : UInt8} (known : ch ∈ conversions)
    (spec : Spec) : conversion putch printfmt ch spec ≠ none := by
  simp only [conversions, List.mem_cons, List.not_mem_nil, or_false] at known
  rcases known with rfl | rfl | rfl | rfl | rfl | rfl | rfl | rfl | rfl <;> simp [conversion]

theorem run_returns {depth : Nat} {f : CString} (fuel fmt : Nat) (ap : List Arg) (w₀ : List Int)
    (last : Scanner (List Int)) (inside : fmt ≤ f.bytes.length)
    (ran : Loop.run (vprintfmtPass record (printfmtAt record (depth + 1)) f) fuel
      { fmt, ap, putdat := w₀ } = .done last) :
    ∃ w, last.putdat = w₀ ++ w ∧
      Renders (Converts (depth + 1)) (f.bytes.drop fmt) ap w last.ap := by
  induction fuel generalizing fmt ap w₀ with
  | zero => cases ran
  | succ fuel ih =>
    by_cases ended : fmt = f.bytes.length
    next =>
      subst ended
      rw [Loop.run_leave fuel (pass_end record _ f ap w₀)] at ran
      cases ran
      exact ⟨[], by simp, by rw [List.drop_length]; exact .finish ap⟩
    have lt : fmt < f.bytes.length := by omega
    obtain ⟨ch, read, drop, -, nonzero⟩ := read_inside f fmt lt
    rw [drop]
    by_cases plain : ch ≠ 37
    next =>
      rw [Loop.run_again fuel (pass_text record _ f ap read plain nonzero w₀)] at ran
      obtain ⟨w, printed, renders⟩ := ih (fmt + 1) ap _ (by omega) ran
      exact ⟨ch.toNat :: w, by simp [printed], .text plain renders⟩
    obtain rfl : ch = 37 := not_not.mp plain
    cases scanned : flags (f.bytes.drop (fmt + 1)) none {} ap with
    | none =>
      rw [Loop.run_fault fuel (pass_stuck record _ lt read scanned w₀)] at ran
      cases ran
    | some r =>
      by_cases known : r.ch ∈ conversions
      next =>
        obtain ⟨i, i_gt, i_lt, after, pass⟩ :=
          pass_convert record (printfmtAt record (depth + 1)) lt read scanned known
        cases chosen : conversion record (printfmtAt record (depth + 1)) r.ch r.spec with
        | none => exact absurd chosen (conversion_known record _ known r.spec)
        | some print =>
          rw [Loop.run_bind fuel (print r.ap w₀)
            (fun result => { fmt := i + 1, ap := result.1, putdat := result.2 })
            (pass print chosen w₀), Outcome.bind_eq_done] at ran
          obtain ⟨⟨ap', w₁⟩, printed, ran⟩ := ran
          obtain ⟨used, u, split, converts, rfl⟩ := converts_returns chosen printed
          obtain ⟨w, printed, renders⟩ := ih (i + 1) ap' _ i_lt ran
          rw [after] at renders
          exact ⟨u ++ w, by rw [printed, List.append_assoc],
            .convert (by rw [scanned, ← split]) known converts renders⟩
      next =>
        rw [Loop.run_again fuel (pass_abandon record _ lt read scanned known w₀)] at ran
        obtain ⟨w, printed, renders⟩ := ih (fmt + 1) r.ap _ (by omega) ran
        exact ⟨37 :: w, by simp [printed], .abandon scanned known renders⟩

def printed (f : CString) (ap : List Arg) : Outcome Fault (List Int × List Arg) := do
  let last ← vprintfmtAt record 2 f ap []
  return (last.putdat, last.ap)

theorem printed_iff (f : CString) (ap left : List Arg) (w : List Int) :
    printed f ap = .done (w, left) ↔ Renders (Converts 1) f.bytes ap w left := by
  constructor
  next =>
    intro returned
    obtain ⟨last, ran, same⟩ := (Outcome.bind_eq_done _ _ _).1 returned
    cases same
    obtain ⟨w, printed, renders⟩ := run_returns (f.bytes.length + 1) 0 ap [] last (Nat.zero_le _) ran
    rw [List.nil_append] at printed
    rw [printed]
    exact renders
  next =>
    intro renders
    simp [printed, printfmtAt_renders renders]

theorem printed_directive {rest : List UInt8} {noNul : 0 ∉ 37 :: rest} {ap used left : List Arg}
    {ch : UInt8} {spec : Spec} {w : List Int}
    (scanned : flags rest none {} ap = some ⟨ch, [], spec, used ++ left⟩)
    (known : ch ∈ conversions) (converts : Converts 1 ch spec used w) :
    printed ⟨37 :: rest, noNul⟩ ap = .done (w, left) := by
  rw [printed_iff]
  have renders : Renders (Converts 1) (37 :: rest) ap (w ++ []) left :=
    .convert scanned known converts (.finish left)
  rwa [List.append_nil] at renders

theorem printed_fault {rest after : List UInt8} {noNul : 0 ∉ 37 :: rest} {ap left : List Arg}
    {ch : UInt8} {spec : Spec} {print : List Arg → List Int → Outcome Fault (List Arg × List Int)}
    {error : Fault} (scanned : flags rest none {} ap = some ⟨ch, after, spec, left⟩)
    (chosen : conversion record (printfmtAt record 1) ch spec = some print)
    (faults : print left [] = .fault error) : printed ⟨37 :: rest, noNul⟩ ap = .fault error := by
  let f : CString := ⟨37 :: rest, noNul⟩
  have known : ch ∈ conversions := by
    by_contra unknown
    rw [conversion_unknown record _ unknown] at chosen
    cases chosen
  have begins : flags (f.bytes.drop 1) none {} ap = some ⟨ch, after, spec, left⟩ := scanned
  obtain ⟨i, -, -, -, pass⟩ := pass_convert record (printfmtAt record 1)
    (show 0 < f.bytes.length by simp [f]) (show f.read 0 = .done 37 from rfl) begins known
  have step := pass print chosen []
  rw [faults] at step
  have ran : vprintfmtAt record 2 f ap [] = .fault error := Loop.run_fault _ step
  rw [printed, ran]
  rfl

theorem printed_single {ch : UInt8} {noNul : 0 ∉ [37, ch]} {arg : Arg} {w : List Int}
    (scanned : flags [ch] none {} [arg] = some ⟨ch, [], {}, [arg]⟩) (known : ch ∈ conversions)
    (converts : Converts 1 ch {} [arg] w) : printed ⟨[37, ch], noNul⟩ [arg] = .done (w, []) :=
  printed_directive scanned known converts

theorem vprintfmt_emit {f : CString} {ap left : List Arg} {w : List Int}
    (prints : printed f ap = .done (w, left)) {σ : Type} (putch : Int → σ → Outcome Fault σ)
    (putdat : σ) : vprintfmt putch f ap putdat = emit putch w putdat := by
  have renders := (printed_iff f ap left w).1 prints
  simp [vprintfmt, printfmtAt, printfmtAt_renders renders, Outcome.bind_assoc]

def CString.append (f g : CString) : CString where
  bytes := f.bytes ++ g.bytes
  noNul := by simp [f.noNul, g.noNul]

theorem vprintfmt_append (f g : CString) (complete : Complete f) (a b left : List Arg)
    (u v : List Int) (first : printed f a = .done (u, [])) (second : printed g b = .done (v, left)) :
    printed (f.append g) (a ++ b) = .done (u ++ v, left) ∧
      ∀ {σ : Type} (putch : Int → σ → Outcome Fault σ) (putdat : σ),
        vprintfmt putch (f.append g) (a ++ b) putdat =
          vprintfmt putch f a putdat >>= vprintfmt putch g b := by
  have both : printed (f.append g) (a ++ b) = .done (u ++ v, left) :=
    (printed_iff ..).2 (((printed_iff ..).1 first).append complete ((printed_iff ..).1 second))
  refine ⟨both, ?_⟩
  intro σ putch putdat
  rw [vprintfmt_emit both, vprintfmt_emit first, emit_append]
  congr 1
  funext putdat
  rw [vprintfmt_emit second]

-- "%5d%%" of 7, then "%x" of 171: the width stays with the first directive.
theorem padded_append :
    printed ((⟨[37, 53, 100, 37, 37], by decide⟩ : CString).append ⟨[37, 120], by decide⟩)
      [.word 7, .word 171] = .done ([32, 32, 32, 32, 55, 37, 97, 98], []) :=
  (vprintfmt_append ⟨[37, 53, 100, 37, 37], by decide⟩ ⟨[37, 120], by decide⟩ (by decide) [.word 7]
    [.word 171] [] [32, 32, 32, 32, 55, 37] [97, 98] (by decide +kernel) (by decide +kernel)).1

theorem vprintfmt_total (f : CString) (ap left : List Arg)
    (enough : Consumes (demand .text f.bytes) ap left) :
    ∃ w, printed f ap = .done (w, left) ∧
      ∀ {σ : Type} (putch : Int → σ → Outcome Fault σ) (putdat : σ),
        vprintfmt putch f ap putdat = emit putch w putdat := by
  obtain ⟨w, renders⟩ := Renders.total (converts_total 0) enough
  have prints := (printed_iff f ap left w).2 renders
  exact ⟨w, prints, vprintfmt_emit prints⟩

-- "%*": the NUL comes inside the directive.
theorem dangling_total :
    ∃ w, printed ⟨[37, 42], by decide⟩ [.word 3] = .done (w, []) ∧
      ∀ {σ : Type} (putch : Int → σ → Outcome Fault σ) (putdat : σ),
        vprintfmt putch ⟨[37, 42], by decide⟩ [.word 3] putdat = emit putch w putdat :=
  vprintfmt_total ⟨[37, 42], by decide⟩ [.word 3] [] (.cons rfl (.nil []))

end JosLab.Printfmt
