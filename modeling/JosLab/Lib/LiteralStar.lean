import JosLab.Lib.Directives
import JosLab.Lib.ReadBack
import JosLab.Lib.StringField

set_option autoImplicit false

namespace JosLab.Printfmt

open Numeral

theorem flags_settle {ch : UInt8} (no_digit : isDigit ch = false) (precision : Int) (spec : Spec)
    (rest : List UInt8) (ap : List Arg) :
    flags (ch :: rest) (some precision) spec ap =
      flags (ch :: rest) none (spec.processPrecision precision) ap := by
  simp only [flags, flagged_settle no_digit]

theorem flags_conv {back after : List UInt8} {conv : UInt8} {number : Option Int} {spec : Spec}
    {ap : List Arg} {r : Scanned} (marks : ∀ ch ∈ back, isFlag ch = true)
    (no_flag : isFlag conv = false)
    (found : flags (back ++ conv :: after) number spec ap = some r) : r.ch = conv := by
  induction back generalizing number spec ap with
  | nil =>
    simp only [List.nil_append, flags, flagged_stops no_flag, Option.some.injEq] at found
    rw [← found]
  | cons ch back ih =>
    cases taken : flagged ch number spec ap with
    | stuck => simp [flags, taken] at found
    | stop spec' =>
      have flag := marks ch (by simp)
      rw [(flagged_stop taken).1] at flag
      cases flag
    | more number spec ap =>
      simp only [List.cons_append, flags, taken] at found
      exact ih (fun other member => marks other (by simp [member])) found

theorem renders_alike {converts : UInt8 → Spec → List Arg → List Int → Prop}
    {first second : List UInt8} {ap ap' left : List Arg} {w : List Int}
    (same : flags first none {} ap = flags second none {} ap')
    (known : ∀ r, flags first none {} ap = some r → r.ch ∈ conversions)
    (renders : Renders converts (37 :: first) ap w left) :
    Renders converts (37 :: second) ap' w left := by
  cases renders with
  | text plain more => exact absurd rfl plain
  | convert scanned member converted more =>
    rw [same] at scanned
    exact .convert scanned member converted more
  | abandon scanned unknown more => exact absurd (known _ scanned) unknown

structure Numbered where
  front : List UInt8
  taken : List Arg
  spec : Spec
  passed : through front none {} taken = some (none, spec, [])
  back : List UInt8
  marks : ∀ ch ∈ back, isFlag ch = true
  apart : ∀ ch, back.head? = some ch → isDigit ch = false
  conv : UInt8
  known : conv ∈ conversions
  rest : CString

theorem conversion_plain {ch : UInt8} (known : ch ∈ conversions) : isFlag ch = false ∧ ch ≠ 0 := by
  simp only [conversions, List.mem_cons, List.not_mem_nil, or_false] at known
  rcases known with rfl | rfl | rfl | rfl | rfl | rfl | rfl | rfl | rfl <;>
    exact ⟨rfl, by decide⟩

def literal (v : Nat) : CString where
  bytes := spelled (numeral 10 v)
  noNul := spelled_noNul _ fun digit member =>
    lt_trans (numeral_lt (by decide) digit member) (by decide)

def star : CString := ⟨[42], by decide⟩

namespace Numbered

variable (directive : Numbered)

def around (number : CString) : CString where
  bytes := 37 :: (directive.front ++ (number.bytes ++
    (directive.back ++ directive.conv :: directive.rest.bytes)))
  noNul := by
    have nul : isFlag 0 = false := rfl
    have front : 0 ∉ directive.front := fun member => by
      have flag := (through_rest directive.passed []).2 0 member
      rw [nul] at flag
      cases flag
    have back : 0 ∉ directive.back := fun member => by
      have flag := directive.marks 0 member
      rw [nul] at flag
      cases flag
    have conv := (conversion_plain directive.known).2.symm
    simp [front, back, conv, number.noNul, directive.rest.noNul]

theorem flags_number (precision : Int) (ap : List Arg) :
    flags (directive.back ++ directive.conv :: directive.rest.bytes) (some precision) directive.spec
        ap =
      flags (directive.back ++ directive.conv :: directive.rest.bytes) none
        (directive.spec.processPrecision precision) ap := by
  have apart := directive.apart
  have no_flag := (conversion_plain directive.known).1
  cases marks : directive.back with
  | nil =>
    exact flags_settle (no_flag_digit no_flag) precision _ _ ap
  | cons ch back => exact flags_settle (apart ch (by simp [marks])) precision _ _ ap

variable {v : Nat}

theorem flags_literal (positive : 1 ≤ v) (ap : List Arg) :
    flags (directive.front ++ ((literal v).bytes ++
        (directive.back ++ directive.conv :: directive.rest.bytes))) none {} (directive.taken ++ ap) =
      flags (directive.back ++ directive.conv :: directive.rest.bytes) none
        (directive.spec.processPrecision (int32 v)) ap := by
  rw [flags_through (through_rest directive.passed ap).1, literal,
    flags_through (through_literal v positive), directive.flags_number]

theorem flags_star (int : v < 2 ^ 31) (ap : List Arg) :
    flags (directive.front ++ (star.bytes ++
        (directive.back ++ directive.conv :: directive.rest.bytes))) none {}
        (directive.taken ++ .word (UInt32.ofNat v) :: ap) =
      flags (directive.back ++ directive.conv :: directive.rest.bytes) none
        (directive.spec.processPrecision v) ap := by
  have value := natCast_bmod v int
  have passed : through star.bytes none directive.spec (.word (UInt32.ofNat v) :: ap) =
      some (none, directive.spec.processPrecision v, ap) := by
    simp [star, through, flagged, isDigit, settle, value]
  rw [flags_through (through_rest directive.passed _).1, flags_through passed]

theorem same_flags (positive : 1 ≤ v) (int : v < 2 ^ 31) (ap left : List Arg) (w : List Int) :
    printed (directive.around (literal v)) (directive.taken ++ ap) = .done (w, left) ↔
      printed (directive.around star) (directive.taken ++ .word (UInt32.ofNat v) :: ap) =
        .done (w, left) := by
  have no_flag := (conversion_plain directive.known).1
  have inRange : int32 v = v := int32_of_lt v (by omega) (by omega)
  have same := (directive.flags_literal positive ap).trans
    (by rw [inRange, ← directive.flags_star int ap])
  have known (r : Scanned) (found : flags (directive.back ++ directive.conv ::
      directive.rest.bytes) none (directive.spec.processPrecision v) ap = some r) :
      r.ch ∈ conversions := by
    rw [flags_conv directive.marks no_flag found]
    exact directive.known
  rw [printed_iff, printed_iff]
  constructor
  · exact renders_alike same fun r found =>
      known r (by rwa [same, directive.flags_star int ap] at found)
  · exact renders_alike same.symm fun r found =>
      known r (by rwa [directive.flags_star int ap] at found)

end Numbered

def SameMeaning (v : Nat) : Prop :=
  ∀ directive : Numbered, (1 ≤ v ∨ directive.front.getLast? = some 46) → ∀ ap left w,
    printed (directive.around (literal v)) (directive.taken ++ ap) = .done (w, left) ↔
      printed (directive.around star) (directive.taken ++ .word (UInt32.ofNat v) :: ap) =
        .done (w, left)

-- "%." before the number and "s" after it
def dotString : Numbered where
  front := [46]
  taken := []
  spec := { width := 0 }
  passed := rfl
  back := []
  marks := by simp
  apart := by simp
  conv := 115
  known := by decide
  rest := .empty

def Cuts (v : Nat) : Prop :=
  ∀ string s, Spells string s →
    ∃ w, printed (dotString.around (literal v)) [.str string] = .done (w, []) ∧ w.length ≤ v

theorem cuts_positive {v : Nat} (positive : 1 ≤ v) (int : v < 2 ^ 31) : Cuts v := by
  intro string s spells
  have inRange : int32 v = v := int32_of_lt v (by omega) (by omega)
  have scanned : flags _ none {} [.str string] = _ :=
    dotString.flags_literal positive [.str string]
  have read : flags (dotString.back ++ dotString.conv :: dotString.rest.bytes) none
      (dotString.spec.processPrecision v) [.str string] =
        some ⟨115, [], { width := 0, precision := v }, [.str string]⟩ := rfl
  rw [inRange, read] at scanned
  refine ⟨_, printed_directive scanned (by decide) (converts_string spells _ rfl), ?_⟩
  have short : (cut v s).length ≤ v := by
    have limited : ¬ (v : Int) < 0 := by omega
    rw [cut, if_neg limited, Int.toNat_natCast, List.length_take]
    exact min_le_left _ _
  have blanks : (int32 (0 - (cut v s).length)).toNat = 0 := by
    rw [int32_of_lt _ (by omega) (by omega)]
    omega
  have unpadded : ¬ ((0 : Int) < 0 ∧ (32 : Int) ≠ 45) := by decide
  rw [stringText, if_neg unpadded, shownText, List.length_append, List.length_replicate,
    List.length_map, blanks]
  exact short

-- "%.0s" of "a": the literal is the '0' flag.
theorem literalZero_whole :
    printed (dotString.around (literal 0)) [.str (some [97, 0])] = .done ([97], []) := by
  decide +kernel

theorem starredZero_empty :
    printed (dotString.around star) [.word 0, .str (some [97, 0])] = .done ([], []) := by
  decide +kernel

theorem zeroPrecision_uncut :
    printed (dotString.around (literal 0)) [.str (some [97, 0])] = .done ([97], []) ∧
      printed (dotString.around star) [.word 0, .str (some [97, 0])] = .done ([], []) :=
  ⟨literalZero_whole, starredZero_empty⟩

theorem literalStar_iff (v : Nat) (int : v < 2 ^ 31) :
    (SameMeaning v ↔ 1 ≤ v) ∧ (Cuts v ↔ 1 ≤ v) := by
  constructor
  · constructor
    · intro same
      by_contra zero
      obtain rfl : v = 0 := by omega
      have cut : printed (dotString.around (literal 0)) [.str (some [97, 0])] = .done ([], []) :=
        (same dotString (.inr rfl) _ _ _).2 starredZero_empty
      rw [literalZero_whole] at cut
      cases cut
    · intro positive directive _ ap left w
      exact directive.same_flags positive int ap left w
  · constructor
    · intro cuts
      by_contra zero
      obtain rfl : v = 0 := by omega
      obtain ⟨w, prints, short⟩ := cuts (some [97, 0]) [97] ⟨by decide, [], rfl⟩
      rw [literalZero_whole] at prints
      cases prints
      cases short
    · exact fun positive => cuts_positive positive int

theorem seven_same : SameMeaning 7 ∧ Cuts 7 :=
  ⟨(literalStar_iff 7 (by decide)).1.2 (by decide), (literalStar_iff 7 (by decide)).2.2 (by decide)⟩

end JosLab.Printfmt
