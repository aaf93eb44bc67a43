import JosLab.Lib.Vprintfmt

set_option autoImplicit false

namespace JosLab.Printfmt

def Blank (spec : Spec) (string : Option Chars) : Prop :=
  spec.width ≤ 0 ∧ (spec.precision = 0 ∨ (string.getD nullChars).head? = some 0)

instance (spec : Spec) (string : Option Chars) : Decidable (Blank spec string) :=
  inferInstanceAs (Decidable (_ ∧ _))

inductive Silent : List UInt8 → List Arg → Prop where
  | nil (ap : List Arg) : Silent [] ap
  | string {rest after : List UInt8} {ap ap' : List Arg} {spec : Spec} {string : Option Chars}
      (scanned : flags rest none {} ap = some ⟨115, after, spec, .str string :: ap'⟩)
      (blank : Blank spec string) (more : Silent after ap') : Silent (37 :: rest) ap

-- A `putch` that no character gets past: a run returns just when it prints nothing.
def refuse (_ : Int) (_ : Unit) : Outcome Fault Unit := .fault .panic

theorem emit_refuse (w : List Int) (result : Unit) :
    emit refuse w () = .done result ↔ w = [] := by
  cases w <;> simp [refuse]

theorem refuse_done (ch : Int) (result : Unit) : refuse ch () ≠ .done result := by
  simp [refuse]

theorem pad_refuse (padc width : Int) (result : Unit) :
    pad refuse padc width () = .done result ↔ width ≤ 0 := by
  rw [pad_emit, emit_refuse, List.replicate_eq_nil_iff]
  omega

theorem printnumAt_refuse (depth : Nat) (num base : UInt64) (width padc : Int) (result : Unit) :
    printnumAt refuse depth num base width padc () ≠ .done result := by
  intro ran
  cases depth with
  | zero => cases ran
  | succ depth =>
    by_cases more : base ≤ num
    next =>
      simp only [printnumAt, more, if_true, Outcome.bind_eq_done] at ran
      obtain ⟨_, _, _, _, last⟩ := ran
      exact refuse_done _ _ last
    next =>
      simp only [printnumAt, more, if_false, Outcome.bind_eq_done] at ran
      obtain ⟨_, _, _, _, last⟩ := ran
      exact refuse_done _ _ last

theorem printUnsigned_refuse (base : UInt64) (spec : Spec) (ap : List Arg)
    (result : List Arg × Unit) : printUnsigned refuse base spec ap () ≠ .done result := by
  intro ran
  simp only [printUnsigned, Outcome.bind_eq_done] at ran
  obtain ⟨_, _, _, number, _⟩ := ran
  exact printnumAt_refuse _ _ _ _ _ _ number

theorem printSigned_refuse (spec : Spec) (ap : List Arg) (result : List Arg × Unit) :
    printSigned refuse spec ap () ≠ .done result := by
  intro ran
  simp only [printSigned, Outcome.bind_eq_done] at ran
  obtain ⟨⟨num, ap'⟩, _, rest⟩ := ran
  by_cases negative : num < 0
  next =>
    simp only [negative, if_true, Outcome.bind_eq_done] at rest
    obtain ⟨_, minus, _⟩ := rest
    exact refuse_done _ _ minus
  next =>
    simp only [negative, if_false, Outcome.bind_eq_done] at rest
    obtain ⟨_, number, _⟩ := rest
    exact printnumAt_refuse _ _ _ _ _ _ number

theorem printPointer_refuse (spec : Spec) (ap : List Arg) (result : List Arg × Unit) :
    printPointer refuse spec ap () ≠ .done result := by
  intro ran
  obtain ⟨_, zero, _⟩ := (Outcome.bind_eq_done _ _ _).1 ran
  exact refuse_done _ _ zero

theorem printCharacter_refuse (ap : List Arg) (result : List Arg × Unit) :
    printCharacter refuse ap () ≠ .done result := by
  intro ran
  simp only [printCharacter, Outcome.bind_eq_done] at ran
  obtain ⟨_, _, _, put, _⟩ := ran
  exact refuse_done _ _ put

theorem errorString_member {err : Int} {entry : Option Chars}
    (found : errorString err = .done entry) : entry ∈ errorStrings := by
  by_cases nonneg : 0 ≤ err
  next =>
    cases listed : errorStrings[err.toNat]? with
    | none => simp [errorString, nonneg, listed] at found
    | some other =>
      simp only [errorString, nonneg, listed, if_true, Outcome.need_some] at found
      cases found
      exact List.mem_of_getElem? listed
  next => simp [errorString, nonneg] at found

theorem printError_refuse (ap : List Arg) (result : List Arg × Unit) :
    printError (printfmtAt refuse 1) ap () ≠ .done result := by
  intro ran
  have number (err : UInt32) (after : Unit) :
      printfmtAt refuse 1 errorFormat [.word err] () ≠ .done after := by
    simp [printfmtAt, vprintfmtAt, Loop.run, vprintfmtPass, CString.read, errorFormat, refuse]
  have string (p : Chars) (member : some p ∈ errorStrings) (after : Unit) :
      printfmtAt refuse 1 stringFormat [.str (some p)] () ≠ .done after := by
    simp only [errorStrings, List.mem_cons, List.not_mem_nil, or_false, reduceCtorEq, false_or,
      Option.some.injEq] at member
    rcases member with rfl | rfl | rfl | rfl | rfl | rfl
    all_goals
      intro ran
      cases ran
  simp only [printError, Outcome.bind_eq_done] at ran
  obtain ⟨⟨value, ap'⟩, _, rest⟩ := ran
  dsimp only at rest
  generalize (if value < 0 then int32 (-value) else value) = err at rest
  by_cases large : maxerror ≤ err
  next =>
    simp only [large, if_true, Outcome.bind_eq_done] at rest
    obtain ⟨_, spelled, _⟩ := rest
    exact number _ _ spelled
  next =>
    simp only [large, if_false, Outcome.bind_eq_done] at rest
    obtain ⟨entry, found, rest⟩ := rest
    cases entry with
    | none =>
      obtain ⟨_, spelled, _⟩ := (Outcome.bind_eq_done _ _ _).1 rest
      exact number _ _ spelled
    | some p =>
      obtain ⟨_, spelled, _⟩ := (Outcome.bind_eq_done _ _ _).1 rest
      exact string p (errorString_member found) _ spelled

theorem putString_refuse (altflag : Bool) (p : Chars) (precision width : Int) (reads : p ≠ [])
    (result : Int × Unit) :
    putString refuse altflag p precision width () = .done result ↔
      result = (width, ()) ∧ (precision = 0 ∨ p.head? = some 0) := by
  cases p with
  | nil => exact absurd rfl reads
  | cons byte p =>
    obtain ⟨shown, printed⟩ := putStringChar_emit altflag (charInt byte)
    by_cases nul : byte = 0
    next => simp [putString, nul, eq_comm]
    by_cases none : precision = 0
    next => simp [putString, nul, none, eq_comm]
    by_cases unlimited : precision < 0
    next => simp [putString, nul, none, unlimited, printed, refuse]
    next =>
      have room : 1 ≤ precision := by omega
      simp [putString, nul, none, unlimited, room, printed, refuse]

theorem strnlen_blank (p : Chars) (precision : Int) (reads : p ≠ [])
    (blank : precision = 0 ∨ p.head? = some 0) :
    strnlen p (UInt32.ofInt precision).toNat = .done 0 := by
  cases p with
  | nil => exact absurd rfl reads
  | cons byte p =>
    rcases blank with rfl | first
    next => rfl
    next =>
      obtain rfl : byte = 0 := by simpa using first
      cases (UInt32.ofInt precision).toNat <;> simp [strnlen]

theorem printString_reads {spec : Spec} {string : Option Chars} {rest : List Arg} {w : List Int}
    {result : List Arg × List Int}
    (ran : printString record spec (.str string :: rest) w = .done result) :
    string.getD nullChars ≠ [] := by
  intro none
  by_cases padded : 0 < spec.width ∧ spec.padc ≠ 45
  next =>
    simp only [printString, vaString, none, padded, and_self, if_true, ne_eq, not_false_eq_true,
      Outcome.pure_eq, Outcome.done_bind, Outcome.bind_eq_done, putString, reduceCtorEq, false_and,
      and_false, exists_false] at ran
  next =>
    simp only [printString, vaString, none, padded, if_false, Outcome.pure_eq, Outcome.done_bind,
      Outcome.fault_bind, putString, reduceCtorEq] at ran

theorem printString_refuse (spec : Spec) (string : Option Chars) (width : spec.width < 2 ^ 31)
    (reads : string.getD nullChars ≠ []) :
    printString refuse spec [.str string] () = .done ([], ()) ↔ Blank spec string := by
  by_cases padded : 0 < spec.width ∧ spec.padc ≠ 45
  next =>
    obtain ⟨positive, right⟩ := padded
    have not_blank : ¬ Blank spec string := fun blank => by
      have := blank.1
      omega
    refine iff_of_false (fun ran => ?_) not_blank
    simp only [printString, vaString, positive, right, ne_eq, not_false_eq_true, and_self, if_true,
      Outcome.pure_eq, Outcome.done_bind, Outcome.bind_eq_done] at ran
    obtain ⟨length, counted, _, before, _, shown, _⟩ := ran
    have blank := ((putString_refuse _ _ _ _ reads _).1 shown).2
    rw [strnlen_blank _ _ reads blank] at counted
    cases counted
    have narrow := (pad_refuse _ _ _).1 before
    rw [int32_of_lt _ (by omega) (by omega)] at narrow
    omega
  next =>
    have wide : printString refuse spec [.str string] () = .done ([], ()) ↔
        (spec.precision = 0 ∨ (string.getD nullChars).head? = some 0) ∧ spec.width ≤ 0 := by
      simp only [printString, vaString, padded, if_false, Outcome.pure_eq, Outcome.done_bind,
        Outcome.bind_eq_done]
      constructor
      · rintro ⟨_, shown, _, after, _⟩
        obtain ⟨rfl, blank⟩ := (putString_refuse _ _ _ _ reads _).1 shown
        exact ⟨blank, (pad_refuse _ _ _).1 after⟩
      · rintro ⟨blank, narrow⟩
        exact ⟨(spec.width, ()), (putString_refuse _ _ _ _ reads _).2 ⟨rfl, blank⟩, (),
          (pad_refuse _ _ _).2 narrow, trivial⟩
    rw [wide, Blank, and_comm]

theorem flagged_width (ch : UInt8) {number : Option Int} {spec : Spec} (ap : List Arg)
    (width : spec.width < 2 ^ 31) (small : ∀ n, number = some n → n < 2 ^ 31) :
    (settle number spec).width < 2 ^ 31 ∧ ∀ number' spec' ap',
      flagged ch number spec ap = .more number' spec' ap' →
        spec'.width < 2 ^ 31 ∧ ∀ n, number' = some n → n < 2 ^ 31 := by
  have process (spec : Spec) (n : Int) (width : spec.width < 2 ^ 31) (lt : n < 2 ^ 31) :
      (spec.processPrecision n).width < 2 ^ 31 := by
    unfold Spec.processPrecision
    split
    · exact lt
    · exact width
  have settled : (settle number spec).width < 2 ^ 31 := by
    cases number with
    | none => exact width
    | some n => exact process spec n width (small n rfl)
  refine ⟨settled, fun number' spec' ap' more => ?_⟩
  unfold flagged at more
  split at more
  next =>
    cases more
    exact ⟨width, fun n same => by cases same; exact int32_lt _⟩
  split at more
  next =>
    split at more
    next value rest =>
      cases more
      exact ⟨process _ _ settled (Int32.toInt_lt _), fun n same => by cases same⟩
    next => cases more
  next =>
    split at more
    next set =>
      cases more
      refine ⟨?_, fun n same => by cases same⟩
      unfold Spec.set at set
      split_ifs at set <;> cases set <;>
        first | exact settled | exact (by decide : (0 : Int) < 2 ^ 31)
    next => cases more

theorem flags_width {s : List UInt8} {number : Option Int} {spec : Spec} {ap : List Arg}
    {r : Scanned} (found : flags s number spec ap = some r) (width : spec.width < 2 ^ 31)
    (small : ∀ n, number = some n → n < 2 ^ 31) : r.spec.width < 2 ^ 31 := by
  induction s generalizing number spec ap with
  | nil =>
    cases found
    exact (flagged_width 0 ap width small).1
  | cons ch rest ih =>
    obtain ⟨settled, kept⟩ := flagged_width ch ap width small
    cases taken : flagged ch number spec ap with
    | stuck => simp [flags, taken] at found
    | stop spec' =>
      have stopped : spec' = settle number spec := by
        unfold flagged at taken
        split_ifs at taken
        · split at taken <;> cases taken
        · split at taken <;> cases taken
          rfl
      simp only [flags, taken] at found
      cases found
      rw [stopped]
      exact settled
    | more number' spec' ap' =>
      simp only [flags, taken] at found
      obtain ⟨width', small'⟩ := kept number' spec' ap' taken
      exact ih found width' small'

theorem Converts.string {spec : Spec} {used : List Arg} {u : List Int}
    (converts : Converts 1 115 spec used u) :
    ∃ string, used = [.str string] ∧ string.getD nullChars ≠ [] := by
  obtain ⟨print, chosen, recorded⟩ := converts record [] []
  rw [List.append_nil, emit_record, Outcome.done_bind] at recorded
  cases chosen
  obtain ⟨⟨string, rest⟩, read, _⟩ := (Outcome.bind_eq_done _ _ _).1 recorded
  obtain rfl := vaString_returns read
  obtain ⟨w, emits⟩ := (printString_emit spec string).resolve_right
    fun off => off.2 rest [] _ recorded
  refine ⟨string, ?_, printString_reads recorded⟩
  rw [emits, Outcome.bind_eq_done] at recorded
  obtain ⟨_, _, last⟩ := recorded
  cases last
  rfl

theorem converts_silent {ch : UInt8} {spec : Spec} {used : List Arg} {u : List Int}
    (known : ch ∈ conversions) (width : spec.width < 2 ^ 31) (converts : Converts 1 ch spec used u) :
    u = [] ↔ ch = 115 ∧ ∃ string, used = [.str string] ∧ Blank spec string := by
  obtain ⟨print, chosen, printed⟩ := converts refuse () []
  rw [List.append_nil] at printed
  have refused : u = [] ↔ print used () = .done ([], ()) := by
    rw [printed, Outcome.bind_eq_done]
    simp [emit_refuse]
  rw [refused]
  simp only [conversions, List.mem_cons, List.not_mem_nil, or_false] at known
  rcases known with rfl | rfl | rfl | rfl | rfl | rfl | rfl | rfl | rfl
  all_goals cases chosen
  · exact iff_of_false (printCharacter_refuse _ _) (by simp)
  · exact iff_of_false (printError_refuse _ _) (by simp)
  · obtain ⟨string, rfl, reads⟩ := converts.string
    simpa using printString_refuse spec string width reads
  · exact iff_of_false (printSigned_refuse _ _ _) (by simp)
  · exact iff_of_false (printUnsigned_refuse _ _ _ _) (by simp)
  · exact iff_of_false (printUnsigned_refuse _ _ _ _) (by simp)
  · exact iff_of_false (printPointer_refuse _ _ _) (by simp)
  · exact iff_of_false (printUnsigned_refuse _ _ _ _) (by simp)
  · exact iff_of_false (by simp [refuse]) (by simp)

theorem Renders.silent {s : List UInt8} {ap left : List Arg} {w : List Int}
    (renders : Renders (Converts 1) s ap w left) : w = [] ↔ Silent s ap := by
  induction renders with
  | finish ap => exact iff_of_true rfl (.nil ap)
  | @text ch rest ap left w plain more ih =>
    refine iff_of_false (by simp) fun silent => ?_
    cases silent with
    | string scanned blank more => exact plain rfl
  | @convert rest after ap used ap' left ch spec u w scanned known converted more ih =>
    have width := flags_width scanned (by decide) (by simp)
    rw [List.append_eq_nil_iff, converts_silent known width converted, ih]
    constructor
    · rintro ⟨⟨rfl, string, rfl, blank⟩, silent⟩
      exact .string scanned blank silent
    · intro silent
      cases silent with
      | string scanned' blank silent' =>
        rw [scanned] at scanned'
        simp only [Option.some.injEq, Scanned.mk.injEq] at scanned'
        obtain ⟨rfl, rfl, rfl, same⟩ := scanned'
        obtain ⟨string, rfl, -⟩ := converted.string
        cases same
        exact ⟨⟨rfl, _, rfl, blank⟩, silent'⟩
  | @abandon rest ap left r w scanned unknown more ih =>
    refine iff_of_false (by simp) fun silent => ?_
    cases silent with
    | string scanned' blank more =>
      rw [scanned] at scanned'
      cases scanned'
      exact unknown (show (115 : UInt8) ∈ conversions by decide)

end JosLab.Printfmt
