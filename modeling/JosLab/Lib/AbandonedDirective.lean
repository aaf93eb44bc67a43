import JosLab.Lib.FormatPieces

set_option autoImplicit false

namespace JosLab.Printfmt

structure Unrecognized where
  marks : List UInt8
  flags : ∀ ch ∈ marks, isFlag ch = true
  other : UInt8
  no_flag : isFlag other = false
  unknown : other ∉ conversions
  nonzero : other ≠ 0

namespace Unrecognized

variable (directive : Unrecognized)

theorem plain : ∀ ch ∈ directive.marks ++ [directive.other], ch ≠ 37 := by
  intro ch member
  rcases List.mem_append.1 member with mark | last
  · exact isFlag_plain (directive.flags ch mark)
  · rw [List.mem_singleton.1 last]
    intro percent
    exact directive.unknown (by rw [percent]; decide)

def text : CString where
  bytes := 37 :: (directive.marks ++ [directive.other])
  noNul := by
    have marks : 0 ∉ directive.marks := fun member => by
      have flag := directive.flags 0 member
      cases flag
    simp [marks, Ne.symm directive.nonzero]

end Unrecognized

variable {number : Option Int} {spec : Spec}

theorem flagged_mark {ch : UInt8} (flag : isFlag ch = true) (not_star : ch ≠ 42) :
    ∃ number' spec', ∀ ap, flagged ch number spec ap = .more number' spec' ap := by
  by_cases digit : isDigit ch ∧ (number ≠ none ∨ ch ≠ 48)
  next => exact ⟨_, _, fun ap => if_pos digit⟩
  next =>
    cases set : (settle number spec).set ch with
    | some spec' =>
      exact ⟨none, spec', fun ap => by simp only [flagged, digit, not_star, set, if_false]⟩
    | none =>
      have not_digit : ch = 48 ∨ isDigit ch = false := by
        by_cases zero : ch = 48 <;> simp_all
      rw [set_none set not_star not_digit] at flag
      cases flag

theorem flags_marks {marks : List UInt8} (flagged_all : ∀ ch ∈ marks, isFlag ch = true)
    {other : UInt8} (no_flag : isFlag other = false) (words : List UInt32)
    (enough : words.length = marks.count 42) (rest : List UInt8) (ap : List Arg) :
    ∃ spec', flags (marks ++ other :: rest) number spec (words.map .word ++ ap) =
      some ⟨other, rest, spec', ap⟩ := by
  induction marks generalizing number spec words with
  | nil =>
    obtain rfl := List.length_eq_zero_iff.1 enough
    exact ⟨_, by rw [List.nil_append, flags, flagged_stops no_flag]; rfl⟩
  | cons ch marks ih =>
    have flag := flagged_all ch (by simp)
    have later := fun other member => flagged_all other (List.mem_cons_of_mem ch member)
    by_cases star : ch = 42
    next =>
      subst star
      rw [List.count_cons_self] at enough
      obtain ⟨word, words, rfl⟩ := List.exists_cons_of_length_eq_add_one enough
      simp only [List.length_cons, Nat.add_right_cancel_iff] at enough
      exact ih later words enough
    next =>
      rw [List.count_cons_of_ne star] at enough
      obtain ⟨number', spec', taken⟩ := @flagged_mark number spec ch flag star
      obtain ⟨last, scanned⟩ := @ih number' spec' later words enough
      exact ⟨last, by rw [List.cons_append, flags, taken]; exact scanned⟩

variable {after : List UInt8} {ap left : List Arg} {w : List Int}

theorem renders_abandoned (directive : Unrecognized) (words : List UInt32)
    (enough : words.length = directive.marks.count 42)
    (more : Renders (Converts 1) after ap w left) :
    Renders (Converts 1) (directive.text.bytes ++ after) (words.map .word ++ ap)
      (literally directive.text.bytes ++ w) left := by
  obtain ⟨spec, scanned⟩ := @flags_marks none {} _ directive.flags _ directive.no_flag words enough
    after ap
  have plain : 37 ∉ directive.marks ++ [directive.other] :=
    fun member => directive.plain 37 member rfl
  have text := renders_text _ plain more
  rw [List.append_assoc, List.singleton_append] at text
  have given_up := Renders.abandon scanned directive.unknown text
  simpa [Unrecognized.text, literally] using given_up

def Literal (directive : Unrecognized) : Prop :=
  ∀ (f g : CString) (ap middle left : List Arg) (u v : List Int), Complete f →
    printed f ap = .done (u, middle) → printed g middle = .done (v, left) →
    printed (f.append (directive.text.append g)) ap =
        .done (u ++ (literally directive.text.bytes ++ v), left) ∧
      ∀ {σ : Type} (putch : Int → σ → Outcome Fault σ) (putdat : σ),
        vprintfmt putch (f.append (directive.text.append g)) ap putdat =
          vprintfmt putch f ap putdat >>= fun putdat =>
            emit putch (literally directive.text.bytes) putdat >>= vprintfmt putch g middle

theorem literal_starless (directive : Unrecognized) (starless : 42 ∉ directive.marks) :
    Literal directive := by
  intro f g ap middle left u v complete first second
  have none : ([] : List UInt32).length = directive.marks.count 42 :=
    (List.count_eq_zero_of_not_mem starless).symm
  have text := renders_abandoned directive [] none ((printed_iff g middle left v).1 second)
  have whole : Renders (Converts 1) (directive.text.append g).bytes (middle ++ [])
      (literally directive.text.bytes ++ v) left := by
    rw [List.append_nil]
    exact text
  have both := ((printed_iff f ap middle u).1 first).append complete whole
  rw [List.append_nil] at both
  have prints := (printed_iff (f.append (directive.text.append g)) ap left _).2 both
  refine ⟨prints, fun putch putdat => ?_⟩
  rw [vprintfmt_emit prints, vprintfmt_emit first, emit_append]
  congr 1
  funext putdat
  rw [emit_append]
  congr 1
  funext putdat
  rw [vprintfmt_emit second]

-- "%d"
def decimalFormat : CString := Numeric.decimal.plain 0

theorem decimalFormat_prints (v : UInt32) (more : List Arg) :
    printed decimalFormat (.word v :: more) =
      .done (literally (Numeric.decimal.shown (.word v)), more) := by
  have ended : Renders (Converts 1) [] more [] more := .finish more
  have number := renders_numeric .decimal v ended
  rw [List.append_nil] at number
  exact (printed_iff ..).2 number

theorem literal_starred (directive : Unrecognized) (starred : 42 ∈ directive.marks) :
    ¬ Literal directive := by
  intro literal
  obtain ⟨more, enough⟩ := Nat.exists_eq_add_of_lt (List.count_pos_iff.2 starred)
  let words : List UInt32 := 1 :: List.replicate more 2
  have taken : words.length = directive.marks.count 42 := by
    simp [words]
    omega
  have start : printed .empty (words.map .word ++ [.word 2]) =
      .done ([], words.map .word ++ [.word 2]) := (printed_iff ..).2 (.finish _)
  have expected := (literal .empty decimalFormat _ _ _ _ _ rfl start
    (decimalFormat_prints 1 _)).1
  have actual := renders_abandoned directive words taken
    ((printed_iff ..).1 (decimalFormat_prints 2 []))
  have both := (printed_iff (CString.empty.append (directive.text.append decimalFormat)) ..).2 actual
  rw [expected] at both
  have texts := (Prod.mk.inj (Outcome.done.inj both)).1
  have digits : literally (Numeric.decimal.shown (.word 1)) =
      literally (Numeric.decimal.shown (.word 2)) := List.append_cancel_left texts
  exact absurd digits (by decide)

-- "%*y"
def starY : Unrecognized where
  marks := [42]
  flags := List.forall_mem_singleton.2 rfl
  other := 121
  no_flag := rfl
  unknown := by decide
  nonzero := by decide

theorem starY_shifts : ¬ Literal starY := by
  intro literal
  have expected := (literal .empty decimalFormat [.word 1, .word 2] [.word 1, .word 2]
    [.word 2] [] [49] rfl (by decide +kernel) (by decide +kernel)).1
  have actual : printed (CString.empty.append (starY.text.append decimalFormat)) [.word 1, .word 2] =
      .done ([37, 42, 121, 50], []) := by decide +kernel
  rw [expected] at actual
  cases actual

theorem literal_iff (directive : Unrecognized) : Literal directive ↔ 42 ∉ directive.marks := by
  constructor
  · intro literal starred
    exact literal_starred directive starred literal
  · exact literal_starless directive

end JosLab.Printfmt
