import JosLab.Lib.FormatGrammar

set_option autoImplicit false

namespace JosLab.Printfmt

section Scanner

variable (f : CString)

theorem read_end : f.read f.bytes.length = .done 0 := by
  simp [CString.read]

theorem read_inside (i : Nat) (lt : i < f.bytes.length) :
    ∃ ch, f.read i = .done ch ∧ f.bytes.drop i = ch :: f.bytes.drop (i + 1) ∧
      f.bytes.getD i 0 = ch ∧ ch ≠ 0 := by
  refine ⟨f.bytes[i], ?_, List.drop_eq_getElem_cons lt, ?_, ?_⟩
  · simp [CString.read, lt, lt.le]
  · simp [lt]
  · intro nul
    have member : f.bytes[i] ∈ f.bytes := List.getElem_mem lt
    rw [nul] at member
    exact f.noNul member

theorem flagged_settle {ch : UInt8} (no_digit : isDigit ch = false) (precision : Int) (spec : Spec)
    (ap : List Arg) :
    flagged ch (some precision) spec ap = flagged ch none (spec.processPrecision precision) ap := by
  simp [flagged, no_digit, settle]

theorem numberPass_read {fmt : Nat} {next : UInt8} (read : f.read fmt = .done next)
    (precision : Int) (ch : UInt8) :
    numberPass f (precision, ch, fmt) = .done
      (if isDigit next then .again (int32 (precision * 10 + ch.toNat - 48), next, fmt + 1)
        else .leave (int32 (precision * 10 + ch.toNat - 48), fmt)) := by
  by_cases digit : isDigit next = true <;> simp [numberPass, read, digit]

theorem number_correct (fuel : Nat) (precision : Int) (ch : UInt8) (fmt : Nat)
    (inside : fmt ≤ f.bytes.length) (enough : f.bytes.length - fmt < fuel) (spec : Spec)
    (ap : List Arg) :
    ∃ value i, Loop.run (numberPass f) fuel (precision, ch, fmt) = .done (value, i) ∧ fmt ≤ i ∧
      i ≤ f.bytes.length ∧ (∀ k, fmt ≤ k → k < i → f.bytes.getD k 0 ≠ 37) ∧
      flags (f.bytes.drop fmt) (some (int32 (precision * 10 + ch.toNat - 48))) spec ap =
        flags (f.bytes.drop i) none (spec.processPrecision value) ap := by
  induction fuel generalizing precision ch fmt with
  | zero => omega
  | succ fuel ih =>
    by_cases last : fmt = f.bytes.length
    next =>
      have read := read_end f
      subst last
      refine ⟨_, _, Loop.run_leave fuel (numberPass_read f read precision ch), le_rfl, le_rfl,
        fun k ge lt => by omega, ?_⟩
      simp [flags, settle]
    next =>
      obtain ⟨next, read, drop, get, -⟩ := read_inside f fmt (by omega)
      by_cases digit : isDigit next = true
      next =>
        obtain ⟨value, i, ran, ge, le, plain, same⟩ :=
          ih (int32 (precision * 10 + ch.toNat - 48)) next (fmt + 1) (by omega) (by omega)
        refine ⟨value, i, ?_, by omega, le, ?_, ?_⟩
        · have pass := numberPass_read f read precision ch
          rw [if_pos digit] at pass
          rw [Loop.run_again fuel pass]
          exact ran
        · intro k k_ge k_lt
          by_cases first : k = fmt
          next =>
            rw [first, get]
            exact digit_ne digit rfl
          next => exact plain k (by omega) k_lt
        · rw [drop, flags]
          simpa [flagged, digit] using same
      next =>
        have no_digit : isDigit next = false := by simpa using digit
        have pass := numberPass_read f read precision ch
        rw [if_neg digit] at pass
        refine ⟨_, _, Loop.run_leave fuel pass, le_rfl, inside, fun k ge lt => by omega, ?_⟩
        rw [drop, flags, flagged_settle no_digit, ← flags]

theorem flagged_no_number {ch : UInt8} {number' : Option Int} {spec spec' : Spec}
    {ap ap' : List Arg} (no_number : ch = 48 ∨ isDigit ch = false)
    (more : flagged ch none spec ap = .more number' spec' ap') : number' = none := by
  have no_digit : ¬ (isDigit ch ∧ ((none : Option Int) ≠ none ∨ ch ≠ 48)) := by
    rcases no_number with zero | other
    · simp [zero]
    · simp [other]
  simp only [flagged, no_digit, if_false] at more
  split_ifs at more
  next =>
    split at more <;> cases more
    rfl
  next =>
    split at more <;> cases more
    rfl

theorem reswitchPass_flagged {fmt : Nat} {ch : UInt8} (read : f.read fmt = .done ch)
    (ap : List Arg) (spec : Spec) (no_number : ch = 48 ∨ isDigit ch = false) :
    reswitchPass f { fmt, ap, spec } =
      match flagged ch none spec ap with
      | .more _ spec ap => .done (.again { fmt := fmt + 1, ap, spec })
      | .stop spec => .done (.leave (ch, { fmt := fmt + 1, ap, spec }))
      | .stuck => .fault .vaArg := by
  have no_digit : ¬ (isDigit ch ∧ ((none : Option Int) ≠ none ∨ ch ≠ 48)) := by
    rcases no_number with zero | other
    · simp [zero]
    · simp [other]
  by_cases star : ch = 42
  next =>
    subst star
    cases ap with
    | nil => simp [reswitchPass, read, flagged, isDigit, vaInt, vaWord]
    | cons arg rest =>
      cases arg <;> simp [reswitchPass, read, flagged, isDigit, vaInt, vaWord, settle]
  by_cases dot : ch = 46
  next =>
    subst dot
    by_cases width : spec.width < 0 <;>
      simp [reswitchPass, read, flagged, isDigit, settle, Spec.set, width]
  have later : ch ≠ 48 → isDigit ch = false := fun other => no_number.resolve_left other
  simp only [reswitchPass, read, Outcome.done_bind, flagged, no_digit, star, dot, if_false, settle,
    Spec.set]
  split_ifs <;> simp_all

structure StopsAt (fmt i : Nat) (r : Scanned) : Prop where
  ge : fmt ≤ i
  read : f.read i = .done r.ch
  plain : ∀ k, fmt ≤ k → k < i → f.bytes.getD k 0 ≠ 37
  after : r.ch ≠ 0 → i < f.bytes.length ∧ f.bytes.drop (i + 1) = r.after

def Reswitches (run : Outcome Fault (UInt8 × Flags)) (fmt : Nat) : Option Scanned → Prop
  | some r => ∃ i, run = .done (r.ch, { fmt := i + 1, ap := r.ap, spec := r.spec }) ∧
      StopsAt f fmt i r
  | none => run = .fault .vaArg

variable {f} in
theorem Reswitches.earlier {run : Outcome Fault (UInt8 × Flags)} {fmt middle : Nat}
    {scanned : Option Scanned} (later : Reswitches f run middle scanned) (le : fmt ≤ middle)
    (plain : ∀ k, fmt ≤ k → k < middle → f.bytes.getD k 0 ≠ 37) :
    Reswitches f run fmt scanned := by
  cases scanned with
  | none => exact later
  | some r =>
    obtain ⟨i, ran, stops⟩ := later
    refine ⟨i, ran, le.trans stops.ge, stops.read, ?_, stops.after⟩
    intro k ge lt
    by_cases early : k < middle
    · exact plain k ge early
    · exact stops.plain k (by omega) lt

theorem reswitch_correct (fuel : Nat) (fmt : Nat) (ap : List Arg) (spec : Spec)
    (inside : fmt ≤ f.bytes.length) (enough : f.bytes.length - fmt < fuel) :
    Reswitches f (Loop.run (reswitchPass f) fuel { fmt, ap, spec }) fmt
      (flags (f.bytes.drop fmt) none spec ap) := by
  induction fuel generalizing fmt ap spec with
  | zero => omega
  | succ fuel ih =>
    by_cases last : fmt = f.bytes.length
    next =>
      subst last
      have pass := reswitchPass_flagged f (read_end f) ap spec (.inr rfl)
      rw [List.drop_length, flags]
      refine ⟨_, Loop.run_leave fuel pass, le_rfl, read_end f, fun k ge lt => by omega, ?_⟩
      intro nonzero
      exact absurd rfl nonzero
    next =>
      obtain ⟨ch, read, drop, get, nonzero⟩ := read_inside f fmt (by omega)
      rw [drop]
      by_cases digit : isDigit ch = true ∧ ch ≠ 48
      next =>
        obtain ⟨value, i, ran, ge, le, plain, same⟩ := number_correct f (f.bytes.length + 2) 0 ch
          (fmt + 1) (by omega) (by omega) spec ap
        have pass : reswitchPass f { fmt, ap, spec } =
            .done (.again { fmt := i, ap, spec := spec.processPrecision value }) := by
          have not_minus : ch ≠ 45 := digit_ne digit.1 rfl
          simp [reswitchPass, read, not_minus, digit, number, ran]
        have rest : flags (ch :: f.bytes.drop (fmt + 1)) none spec ap =
            flags (f.bytes.drop i) none (spec.processPrecision value) ap := by
          rw [← same]
          simp [flags, flagged, digit]
        rw [Loop.run_again fuel pass, rest]
        apply (ih i ap _ le (by omega)).earlier (by omega)
        intro k k_ge k_lt
        by_cases first : k = fmt
        next =>
          rw [first, get]
          exact digit_ne digit.1 rfl
        next => exact plain k (by omega) k_lt
      next =>
        have no_number : ch = 48 ∨ isDigit ch = false := by
          by_cases zero : ch = 48
          · exact .inl zero
          · exact .inr (by simpa [zero] using digit)
        have pass := reswitchPass_flagged f read ap spec no_number
        cases taken : flagged ch none spec ap with
        | stuck =>
          simp only [flags, taken] at pass ⊢
          exact Loop.run_fault fuel pass
        | stop spec' =>
          simp only [flags, taken] at pass ⊢
          exact ⟨fmt, Loop.run_leave fuel pass, le_rfl, read, fun k ge lt => by omega,
            fun _ => ⟨by omega, rfl⟩⟩
        | more number' spec' ap' =>
          simp only [flags, taken] at pass ⊢
          obtain rfl : number' = none := flagged_no_number no_number taken
          rw [Loop.run_again fuel pass]
          apply (ih (fmt + 1) ap' spec' (by omega) (by omega)).earlier (by omega)
          intro k k_ge k_lt
          obtain rfl : k = fmt := by omega
          rw [get]
          exact isFlag_plain (flagged_more taken).1

theorem rescan_correct (start distance : Nat) (percent : f.read start = .done 37)
    (inside : start + 1 + distance ≤ f.bytes.length)
    (plain : ∀ k, start < k → k < start + 1 + distance → f.bytes.getD k 0 ≠ 37) :
    rescan f (start + 1 + distance) = .done (start + 1) := by
  induction distance with
  | zero => simp [rescan, percent]
  | succ distance ih =>
    obtain ⟨ch, read, -, get, -⟩ := read_inside f (start + 1 + distance) (by omega)
    have other : ch ≠ 37 := by
      rw [← get]
      exact plain _ (by omega) (by omega)
    rw [← Nat.add_assoc, rescan, read]
    simp only [Outcome.done_bind, other, if_false]
    exact ih (by omega) fun k ge lt => plain k ge (by omega)

end Scanner

section Emit

variable {σ : Type} (putch : Int → σ → Outcome Fault σ)

def emit (w : List Int) (putdat : σ) : Outcome Fault σ :=
  w.foldlM (fun putdat ch => putch ch putdat) putdat

@[simp] theorem emit_nil : emit putch [] = Outcome.done := rfl

@[simp] theorem emit_cons (ch : Int) (w : List Int) (putdat : σ) :
    emit putch (ch :: w) putdat = putch ch putdat >>= emit putch w := rfl

@[simp] theorem emit_single (ch : Int) : emit putch [ch] = putch ch := by
  funext putdat
  exact Outcome.bind_done (putch ch putdat)

@[simp] theorem emit_append (u w : List Int) (putdat : σ) :
    emit putch (u ++ w) putdat = emit putch u putdat >>= emit putch w := by
  induction u generalizing putdat with
  | nil => rfl
  | cons ch u ih =>
    rw [List.cons_append, emit_cons, emit_cons, Outcome.bind_assoc]
    congr 1
    funext putdat
    exact ih putdat

end Emit

def Converts (depth : Nat) (ch : UInt8) (spec : Spec) (used : List Arg) (w : List Int) : Prop :=
  ∀ {σ : Type} (putch : Int → σ → Outcome Fault σ) (putdat : σ) (rest : List Arg),
    ∃ print, conversion putch (printfmtAt putch depth) ch spec = some print ∧
      print (used ++ rest) putdat = emit putch w putdat >>= fun putdat => .done (rest, putdat)

theorem conversion_unknown {σ : Type} (putch : Int → σ → Outcome Fault σ)
    (printfmt : CString → List Arg → σ → Outcome Fault σ) {ch : UInt8} (unknown : ch ∉ conversions)
    (spec : Spec) : conversion putch printfmt ch spec = none := by
  simp only [conversions, List.mem_cons, List.not_mem_nil, or_false, not_or] at unknown
  unfold conversion
  split <;> simp_all

theorem read_cons {f : CString} {fmt : Nat} {ch : UInt8} {rest : List UInt8}
    (inside : fmt ≤ f.bytes.length) (here : f.bytes.drop fmt = ch :: rest) :
    fmt < f.bytes.length ∧ f.read fmt = .done ch ∧ f.bytes.drop (fmt + 1) = rest ∧ ch ≠ 0 := by
  have lt : fmt < f.bytes.length := by
    by_contra past
    rw [List.drop_eq_nil_of_le (by omega)] at here
    cases here
  obtain ⟨first, read, drop, -, nonzero⟩ := read_inside f fmt lt
  rw [here] at drop
  cases drop
  exact ⟨lt, read, rfl, nonzero⟩

section Pass

variable {σ : Type} (putch : Int → σ → Outcome Fault σ)
  (printfmt : CString → List Arg → σ → Outcome Fault σ) (f : CString) (ap : List Arg)

theorem pass_end (putdat : σ) :
    vprintfmtPass putch printfmt f { fmt := f.bytes.length, ap, putdat } =
      .done (.leave { fmt := f.bytes.length + 1, ap, putdat }) := by
  simp [vprintfmtPass, read_end f]

theorem pass_text {fmt : Nat} {ch : UInt8} (read : f.read fmt = .done ch) (plain : ch ≠ 37)
    (nonzero : ch ≠ 0) (putdat : σ) :
    vprintfmtPass putch printfmt f { fmt, ap, putdat } =
      putch ch.toNat putdat >>= fun putdat => .done (.again { fmt := fmt + 1, ap, putdat }) := by
  simp [vprintfmtPass, read, plain, nonzero]

variable {f ap} {fmt : Nat} (lt : fmt < f.bytes.length) (percent : f.read fmt = .done 37)

include lt percent

theorem pass_stuck (scanned : flags (f.bytes.drop (fmt + 1)) none {} ap = none) (putdat : σ) :
    vprintfmtPass putch printfmt f { fmt, ap, putdat } = .fault .vaArg := by
  have scan := reswitch_correct f (f.bytes.length + 2) (fmt + 1) ap {} lt (by omega)
  rw [scanned] at scan
  have stuck : reswitch f (fmt + 1) ap = .fault .vaArg := scan
  simp [vprintfmtPass, percent, stuck]

theorem pass_convert {next : Scanned}
    (scanned : flags (f.bytes.drop (fmt + 1)) none {} ap = some next)
    (known : next.ch ∈ conversions) :
    ∃ i, fmt < i ∧ i < f.bytes.length ∧ f.bytes.drop (i + 1) = next.after ∧
      ∀ print, conversion putch printfmt next.ch next.spec = some print → ∀ putdat,
        vprintfmtPass putch printfmt f { fmt, ap, putdat } =
          print next.ap putdat >>= fun (ap, putdat) =>
            .done (.again { fmt := i + 1, ap, putdat }) := by
  have scan := reswitch_correct f (f.bytes.length + 2) (fmt + 1) ap {} lt (by omega)
  rw [scanned] at scan
  obtain ⟨i, ran, stops⟩ := scan
  have nonzero : next.ch ≠ 0 := by
    intro nul
    rw [nul] at known
    exact absurd known (by decide)
  obtain ⟨i_lt, after⟩ := stops.after nonzero
  refine ⟨i, stops.ge, i_lt, after, fun print chosen putdat => ?_⟩
  simp [vprintfmtPass, percent, reswitch, ran, chosen]

theorem pass_abandon {next : Scanned}
    (scanned : flags (f.bytes.drop (fmt + 1)) none {} ap = some next)
    (unknown : next.ch ∉ conversions) (putdat : σ) :
    vprintfmtPass putch printfmt f { fmt, ap, putdat } =
      putch 37 putdat >>= fun putdat =>
        .done (.again { fmt := fmt + 1, ap := next.ap, putdat }) := by
  have scan := reswitch_correct f (f.bytes.length + 2) (fmt + 1) ap {} lt (by omega)
  rw [scanned] at scan
  obtain ⟨i, ran, stops⟩ := scan
  have i_ge := stops.ge
  have i_le : i ≤ f.bytes.length := by
    have read := stops.read
    by_contra past
    simp [CString.read, past] at read
  have back := rescan_correct f fmt (i - (fmt + 1)) percent (by omega)
    fun k k_ge k_lt => stops.plain k (by omega) (by omega)
  rw [Nat.add_sub_of_le i_ge] at back
  simp [vprintfmtPass, percent, reswitch, ran, conversion_unknown putch _ unknown, back]

end Pass

theorem run_renders {depth : Nat} {f : CString} {s : List UInt8} {ap left : List Arg}
    {w : List Int} (renders : Renders (Converts depth) s ap w left) {σ : Type}
    (putch : Int → σ → Outcome Fault σ) (putdat : σ) (fmt fuel : Nat)
    (inside : fmt ≤ f.bytes.length) (here : f.bytes.drop fmt = s)
    (enough : f.bytes.length - fmt < fuel) :
    Loop.run (vprintfmtPass putch (printfmtAt putch depth) f) fuel { fmt, ap, putdat } =
      emit putch w putdat >>= fun putdat =>
        .done { fmt := f.bytes.length + 1, ap := left, putdat } := by
  obtain ⟨fuel, rfl⟩ := Loop.one_more enough
  induction renders generalizing fmt fuel putdat with
  | finish ap =>
    obtain rfl : fmt = f.bytes.length := le_antisymm inside (List.drop_eq_nil_iff.mp here)
    exact Loop.run_leave _ (pass_end putch _ f ap putdat)
  | @text ch rest ap left w plain more ih =>
    obtain ⟨lt, read, next, nonzero⟩ := read_cons inside here
    obtain ⟨fuel, rfl⟩ : ∃ more, fuel = more + 1 := ⟨fuel - 1, by omega⟩
    rw [Loop.run_bind _ (putch ch.toNat putdat) (fun putdat => { fmt := fmt + 1, ap, putdat })
      (pass_text putch _ f ap read plain nonzero putdat), emit_cons, Outcome.bind_assoc]
    congr 1
    funext putdat
    exact ih putdat (fmt + 1) lt next fuel (by omega)
  | @convert rest after ap used ap' left ch spec u w scanned known converted more ih =>
    obtain ⟨lt, read, next, -⟩ := read_cons inside here
    obtain ⟨fuel, rfl⟩ : ∃ more, fuel = more + 1 := ⟨fuel - 1, by omega⟩
    obtain ⟨print, chosen, printed⟩ := converted putch putdat ap'
    rw [← next] at scanned
    obtain ⟨i, i_gt, i_lt, drop, pass⟩ :=
      pass_convert putch (printfmtAt putch depth) lt read scanned known
    rw [Loop.run_bind _ (emit putch u putdat) (fun putdat => { fmt := i + 1, ap := ap', putdat })
      (by simp [pass print chosen, printed, Outcome.bind_assoc]),
      emit_append, Outcome.bind_assoc]
    congr 1
    funext putdat
    exact ih putdat (i + 1) i_lt drop fuel (by omega)
  | @abandon rest ap left r w scanned unknown more ih =>
    obtain ⟨lt, read, next, -⟩ := read_cons inside here
    obtain ⟨fuel, rfl⟩ : ∃ more, fuel = more + 1 := ⟨fuel - 1, by omega⟩
    rw [← next] at scanned
    rw [Loop.run_bind _ (putch 37 putdat) (fun putdat => { fmt := fmt + 1, ap := r.ap, putdat })
      (pass_abandon putch _ lt read scanned unknown putdat), emit_cons, Outcome.bind_assoc]
    congr 1
    funext putdat
    exact ih putdat (fmt + 1) lt next fuel (by omega)

end JosLab.Printfmt
