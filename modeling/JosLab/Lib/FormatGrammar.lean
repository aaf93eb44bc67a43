import JosLab.Lib.Printfmt

set_option autoImplicit false

namespace JosLab.Printfmt

inductive Mode where
  | text
  | directive (lflag : Int)
  deriving DecidableEq, Repr

inductive Kind where
  | word
  | errno
  | dword
  | string
  deriving DecidableEq, Repr

def isFlag (ch : UInt8) : Bool :=
  ch = 45 || isDigit ch || ch = 42 || ch = 46 || ch = 35 || ch = 108

def conversions : List UInt8 := [99, 101, 115, 100, 117, 111, 112, 120, 37]

def Mode.step : Mode → UInt8 → Mode
  | .text, ch => if ch = 37 then .directive 0 else .text
  | .directive lflag, ch =>
      if ch = 108 then .directive (int32 (lflag + 1))
      else if isFlag ch then .directive lflag else .text

def Mode.takes : Mode → UInt8 → List Kind
  | .text, _ => []
  | .directive lflag, ch =>
      if ch = 42 ∨ ch = 99 ∨ ch = 112 then [.word]
      else if ch = 101 then [.errno]
      else if ch = 115 then [.string]
      else if ch = 100 ∨ ch = 117 ∨ ch = 111 ∨ ch = 120 then
        [if 2 ≤ lflag then .dword else .word]
      else []

def demand : Mode → List UInt8 → List Kind
  | _, [] => []
  | mode, ch :: rest => mode.takes ch ++ demand (mode.step ch) rest

def Complete (f : CString) : Prop := f.bytes.foldl Mode.step .text = .text

instance (f : CString) : Decidable (Complete f) :=
  inferInstanceAs (Decidable (f.bytes.foldl Mode.step .text = .text))

def Kind.matches : Kind → Arg → Bool
  | .word, .word _ => true
  | .errno, .word value => value ≠ 0x80000000
  | .dword, .dword _ => true
  | .string, .str p => p.all fun p => p.contains 0
  | .word, _ | .errno, _ | .dword, _ | .string, _ => false

inductive Consumes : List Kind → List Arg → List Arg → Prop where
  | nil (left : List Arg) : Consumes [] left left
  | cons {kind : Kind} {kinds : List Kind} {arg : Arg} {args left : List Arg}
      (fits : kind.matches arg = true) (more : Consumes kinds args left) :
      Consumes (kind :: kinds) (arg :: args) left

theorem Consumes.append {first second : List Kind} {args left : List Arg} :
    Consumes (first ++ second) args left ↔
      ∃ middle, Consumes first args middle ∧ Consumes second middle left := by
  constructor
  next =>
    intro consumes
    induction first generalizing args with
    | nil => exact ⟨args, .nil args, consumes⟩
    | cons kind kinds ih =>
      cases consumes with
      | cons fits more =>
        obtain ⟨middle, here, later⟩ := ih more
        exact ⟨middle, .cons fits here, later⟩
  next =>
    intro split
    obtain ⟨middle, here, later⟩ := split
    induction here with
    | nil middle => exact later
    | cons fits more ih => exact .cons fits (ih later)

theorem Consumes.used {kinds : List Kind} {args left : List Arg}
    (consumes : Consumes kinds args left) :
    ∃ used, args = used ++ left ∧ Consumes kinds used [] := by
  induction consumes with
  | nil left => exact ⟨[], rfl, .nil []⟩
  | @cons kind kinds arg args left fits more ih =>
    obtain ⟨used, split, consumes⟩ := ih
    exact ⟨arg :: used, by rw [split, List.cons_append], .cons fits consumes⟩

def settle : Option Int → Spec → Spec
  | none, spec => spec
  | some precision, spec => spec.processPrecision precision

def Spec.set (spec : Spec) (ch : UInt8) : Option Spec :=
  if ch = 45 then some { spec with padc := 45 }
  else if ch = 48 then some { spec with padc := 48 }
  else if ch = 46 then some (if spec.width < 0 then { spec with width := 0 } else spec)
  else if ch = 35 then some { spec with altflag := true }
  else if ch = 108 then some { spec with lflag := int32 (spec.lflag + 1) }
  else none

inductive Flagged where
  | more (number : Option Int) (spec : Spec) (ap : List Arg)
  | stop (spec : Spec)
  | stuck

def flagged (ch : UInt8) (number : Option Int) (spec : Spec) (ap : List Arg) : Flagged :=
  if isDigit ch ∧ (number ≠ none ∨ ch ≠ 48) then
    .more (some (int32 (number.getD 0 * 10 + ch.toNat - 48))) spec ap
  else if ch = 42 then
    match ap with
    | .word value :: ap =>
        .more none ((settle number spec).processPrecision value.toInt32.toInt) ap
    | _ => .stuck
  else
    match (settle number spec).set ch with
    | some spec => .more none spec ap
    | none => .stop (settle number spec)

structure Scanned where
  ch : UInt8
  after : List UInt8
  spec : Spec
  ap : List Arg

def flags : List UInt8 → Option Int → Spec → List Arg → Option Scanned
  | [], number, spec, ap => some ⟨0, [], settle number spec, ap⟩
  | ch :: rest, number, spec, ap =>
      match flagged ch number spec ap with
      | .more number spec ap => flags rest number spec ap
      | .stop spec => some ⟨ch, rest, spec, ap⟩
      | .stuck => none

@[simp] theorem processPrecision_lflag (spec : Spec) (precision : Int) :
    (spec.processPrecision precision).lflag = spec.lflag := by
  unfold Spec.processPrecision
  split <;> rfl

@[simp] theorem settle_lflag (number : Option Int) (spec : Spec) :
    (settle number spec).lflag = spec.lflag := by
  cases number <;> simp [settle]

theorem set_correct {spec spec' : Spec} {ch : UInt8} (set : spec.set ch = some spec') :
    isFlag ch = true ∧ (Mode.directive spec.lflag).step ch = .directive spec'.lflag ∧
      (Mode.directive spec.lflag).takes ch = [] := by
  unfold Spec.set at set
  split_ifs at set <;> cases set <;> subst ch <;> simp [isFlag, isDigit, Mode.step, Mode.takes]

theorem set_none {spec : Spec} {ch : UInt8} (none : spec.set ch = none) (not_star : ch ≠ 42)
    (not_digit : ch = 48 ∨ isDigit ch = false) : isFlag ch = false := by
  unfold Spec.set at none
  split_ifs at none with minus zero dot hash ell
  simp_all [isFlag]

theorem digit_ne {ch other : UInt8} (digit : isDigit ch = true) (no_digit : isDigit other = false) :
    ch ≠ other := by
  intro same
  subst same
  simp [digit] at no_digit

theorem digit_correct (lflag : Int) {ch : UInt8} (digit : isDigit ch = true) :
    isFlag ch = true ∧ (Mode.directive lflag).step ch = .directive lflag ∧
      (Mode.directive lflag).takes ch = [] := by
  have flag : isFlag ch = true := by simp [isFlag, digit]
  refine ⟨flag, ?_, ?_⟩
  · simp (disch := decide) [Mode.step, flag, digit_ne digit]
  · simp (disch := decide) [Mode.takes, digit_ne digit]

theorem flagged_more {ch : UInt8} {number number' : Option Int} {spec spec' : Spec}
    {ap ap' : List Arg} (more : flagged ch number spec ap = .more number' spec' ap') :
    isFlag ch = true ∧ (Mode.directive spec.lflag).step ch = .directive spec'.lflag ∧
      (∀ kinds left, Consumes ((Mode.directive spec.lflag).takes ch ++ kinds) ap left →
        Consumes kinds ap' left) ∧
      ∃ used, ap = used ++ ap' ∧
        ∀ other, flagged ch number spec (used ++ other) = .more number' spec' other := by
  by_cases digit : isDigit ch ∧ (number ≠ none ∨ ch ≠ 48)
  next =>
    simp only [flagged, digit, and_self, if_true] at more ⊢
    cases more
    obtain ⟨flag, step, takes⟩ := digit_correct spec.lflag digit.1
    exact ⟨flag, step, by simp [takes], [], rfl, fun _ => rfl⟩
  by_cases star : ch = 42
  next =>
    subst star
    simp only [flagged, digit, if_false, if_true] at more ⊢
    split at more
    next value rest =>
      cases more
      refine ⟨rfl, by simp [Mode.step, isFlag], ?_, [.word value], rfl, fun _ => rfl⟩
      intro kinds left consumes
      cases consumes with
      | cons fits more => exact more
    next => cases more
  next =>
    simp only [flagged, digit, star, if_false] at more ⊢
    split at more
    next spec' set =>
      cases more
      obtain ⟨flag, step, takes⟩ := set_correct set
      rw [settle_lflag] at step takes
      exact ⟨flag, step, by simp [takes], [], rfl, fun _ => rfl⟩
    next => cases more

theorem flagged_stop {ch : UInt8} {number : Option Int} {spec spec' : Spec} {ap : List Arg}
    (stop : flagged ch number spec ap = .stop spec') :
    isFlag ch = false ∧ spec'.lflag = spec.lflag ∧
      ∀ other, flagged ch number spec other = .stop spec' := by
  by_cases digit : isDigit ch ∧ (number ≠ none ∨ ch ≠ 48)
  next => simp [flagged, digit] at stop
  by_cases star : ch = 42
  next =>
    subst star
    simp only [flagged, digit, if_false, if_true] at stop
    split at stop
    next => cases stop
    next => cases stop
  next =>
    simp only [flagged, digit, star, if_false] at stop ⊢
    split at stop
    next => cases stop
    next none =>
      cases stop
      have not_digit : ch = 48 ∨ isDigit ch = false := by
        by_cases zero : ch = 48 <;> simp_all
      exact ⟨set_none none star not_digit, settle_lflag number spec, fun _ => rfl⟩

theorem flagged_stuck {ch : UInt8} {number : Option Int} {spec : Spec}
    {ap left : List Arg} {kinds : List Kind}
    (enough : Consumes ((Mode.directive spec.lflag).takes ch ++ kinds) ap left) :
    flagged ch number spec ap ≠ .stuck := by
  intro stuck
  by_cases digit : isDigit ch ∧ (number ≠ none ∨ ch ≠ 48)
  next => simp [flagged, digit] at stuck
  by_cases star : ch = 42
  next =>
    subst star
    simp only [flagged, digit, if_false, if_true] at stuck
    split at stuck
    next => cases stuck
    next other =>
      cases enough with
      | @cons _ _ arg rest _ fits _ =>
        cases arg with
        | word value => exact other value rest rfl
        | dword value => exact Bool.false_ne_true fits
        | str string => exact Bool.false_ne_true fits
  next =>
    simp only [flagged, digit, star, if_false] at stuck
    split at stuck <;> cases stuck

theorem isFlag_plain {ch : UInt8} (flag : isFlag ch = true) : ch ≠ 37 := by
  intro percent
  subst percent
  exact Bool.false_ne_true flag

theorem flags_shape {s : List UInt8} {number : Option Int} {spec : Spec} {ap : List Arg}
    {r : Scanned} (found : flags s number spec ap = some r) :
    isFlag r.ch = false ∧ ∃ skipped, (∀ ch ∈ skipped, isFlag ch = true) ∧
      (s = skipped ∧ r.ch = 0 ∧ r.after = [] ∨ s = skipped ++ r.ch :: r.after) := by
  induction s generalizing number spec ap with
  | nil =>
    cases found
    exact ⟨rfl, [], by simp⟩
  | cons ch rest ih =>
    cases taken : flagged ch number spec ap with
    | stuck => simp [flags, taken] at found
    | stop spec' =>
      simp only [flags, taken] at found
      cases found
      exact ⟨(flagged_stop taken).1, [], by simp, .inr rfl⟩
    | more number' spec' ap' =>
      simp only [flags, taken] at found
      obtain ⟨no_flag, skipped, flags, shape⟩ := ih found
      refine ⟨no_flag, ch :: skipped, ?_, ?_⟩
      · simpa [(flagged_more taken).1] using flags
      · simpa using shape

theorem flags_complete {s : List UInt8} {number : Option Int} {spec : Spec} {ap : List Arg}
    {r : Scanned} (found : flags s number spec ap = some r)
    (complete : s.foldl Mode.step (.directive spec.lflag) = .text) :
    r.after.foldl Mode.step .text = .text ∧ ∀ t other,
      flags (s ++ t) number spec (ap ++ other) =
        some ⟨r.ch, r.after ++ t, r.spec, r.ap ++ other⟩ := by
  induction s generalizing number spec ap with
  | nil => cases complete
  | cons ch rest ih =>
    cases taken : flagged ch number spec ap with
    | stuck => simp [flags, taken] at found
    | stop spec' =>
      obtain ⟨no_flag, -, always⟩ := flagged_stop taken
      simp only [flags, taken] at found
      cases found
      have not_long : ch ≠ 108 := by
        intro long
        subst long
        cases no_flag
      have step : (Mode.directive spec.lflag).step ch = .text := by
        simp [Mode.step, no_flag, not_long]
      rw [List.foldl_cons, step] at complete
      exact ⟨complete, fun t other => by simp [flags, always]⟩
    | more number' spec' ap' =>
      obtain ⟨-, step, -, used, split, always⟩ := flagged_more taken
      simp only [flags, taken] at found
      rw [List.foldl_cons, step] at complete
      obtain ⟨after, appended⟩ := ih found complete
      refine ⟨after, fun t other => ?_⟩
      rw [List.cons_append, flags, split, List.append_assoc, always]
      exact appended t other

theorem flags_total {s : List UInt8} {number : Option Int} {spec : Spec} {ap left : List Arg}
    (enough : Consumes (demand (.directive spec.lflag) s) ap left) :
    ∃ r, flags s number spec ap = some r ∧
      Consumes ((Mode.directive r.spec.lflag).takes r.ch ++ demand .text r.after) r.ap left := by
  induction s generalizing number spec ap with
  | nil =>
    cases enough
    exact ⟨_, rfl, .nil _⟩
  | cons ch rest ih =>
    rw [demand] at enough
    cases taken : flagged ch number spec ap with
    | stuck => exact absurd taken (flagged_stuck enough)
    | stop spec' =>
      obtain ⟨no_flag, same, -⟩ := flagged_stop taken
      have not_long : ch ≠ 108 := by
        intro long
        subst long
        cases no_flag
      have step : (Mode.directive spec.lflag).step ch = .text := by
        simp [Mode.step, no_flag, not_long]
      rw [step] at enough
      refine ⟨_, by rw [flags, taken], ?_⟩
      rw [same]
      exact enough
    | more number' spec' ap' =>
      obtain ⟨-, step, consumed, -⟩ := flagged_more taken
      rw [step] at enough
      obtain ⟨r, found, rest_enough⟩ := ih (consumed _ _ enough)
      exact ⟨r, by rw [flags, taken]; exact found, rest_enough⟩

theorem plain_step {s : List UInt8} (plain : ∀ ch ∈ s, ch ≠ 37) :
    s.foldl Mode.step .text = .text := by
  induction s with
  | nil => rfl
  | cons ch rest ih =>
    have here : ch ≠ 37 := plain ch (by simp)
    simp only [List.foldl_cons, Mode.step, here, if_false]
    exact ih fun ch member => plain ch (by simp [member])

theorem plain_demand {s : List UInt8} (plain : ∀ ch ∈ s, ch ≠ 37) (t : List UInt8) :
    demand .text (s ++ t) = demand .text t := by
  induction s with
  | nil => rfl
  | cons ch rest ih =>
    have here : ch ≠ 37 := plain ch (by simp)
    simp only [List.cons_append, demand, Mode.takes, Mode.step, here, if_false, List.nil_append]
    exact ih fun ch member => plain ch (by simp [member])

theorem reread_demand {s : List UInt8} {spec : Spec} {ap : List Arg} {r : Scanned}
    (scanned : flags s none spec ap = some r) (unknown : r.ch ∉ conversions) :
    demand .text s = demand .text r.after := by
  obtain ⟨-, skipped, flagged, shape⟩ := flags_shape scanned
  have plain (ch : UInt8) (member : ch ∈ skipped) : ch ≠ 37 := isFlag_plain (flagged ch member)
  cases shape with
  | inl ended =>
    have text := plain_demand plain []
    rw [List.append_nil] at text
    rw [ended.1, ended.2.2]
    exact text
  | inr stopped =>
    have not_percent : r.ch ≠ 37 := by
      intro percent
      rw [percent] at unknown
      exact unknown (by decide)
    rw [stopped, plain_demand plain]
    simp [demand, Mode.takes, Mode.step, not_percent]

theorem reread_step {s : List UInt8} {spec : Spec} {ap : List Arg} {r : Scanned}
    (scanned : flags s none spec ap = some r) (unknown : r.ch ∉ conversions) :
    s.foldl Mode.step .text = r.after.foldl Mode.step .text := by
  obtain ⟨-, skipped, flagged, shape⟩ := flags_shape scanned
  have plain (ch : UInt8) (member : ch ∈ skipped) : ch ≠ 37 := isFlag_plain (flagged ch member)
  cases shape with
  | inl ended =>
    rw [ended.1, ended.2.2, plain_step plain]
    rfl
  | inr stopped =>
    have not_percent : r.ch ≠ 37 := by
      intro percent
      rw [percent] at unknown
      exact unknown (by decide)
    rw [stopped, List.foldl_append, plain_step plain]
    simp [Mode.step, not_percent]

theorem takes_other (lflag : Int) {ch : UInt8} (no_flag : isFlag ch = false)
    (unknown : ch ∉ conversions) : (Mode.directive lflag).takes ch = [] := by
  have not_star : ch ≠ 42 := by
    intro star
    subst star
    cases no_flag
  simp [conversions] at unknown
  simp [Mode.takes, not_star, unknown]

section Renders

variable (converts : UInt8 → Spec → List Arg → List Int → Prop)

inductive Renders : List UInt8 → List Arg → List Int → List Arg → Prop where
  | finish (ap : List Arg) : Renders [] ap [] ap
  | text {ch : UInt8} {rest : List UInt8} {ap left : List Arg} {w : List Int} (plain : ch ≠ 37)
      (more : Renders rest ap w left) : Renders (ch :: rest) ap (ch.toNat :: w) left
  | convert {rest after : List UInt8} {ap used ap' left : List Arg} {ch : UInt8} {spec : Spec}
      {u w : List Int} (scanned : flags rest none {} ap = some ⟨ch, after, spec, used ++ ap'⟩)
      (known : ch ∈ conversions) (converted : converts ch spec used u)
      (more : Renders after ap' w left) : Renders (37 :: rest) ap (u ++ w) left
  -- A directive that is given up: its own characters are read again as text.
  | abandon {rest : List UInt8} {ap left : List Arg} {r : Scanned} {w : List Int}
      (scanned : flags rest none {} ap = some r) (unknown : r.ch ∉ conversions)
      (more : Renders rest r.ap w left) : Renders (37 :: rest) ap (37 :: w) left

variable {converts}

theorem Renders.append {f g : List UInt8} {a b l left : List Arg} {u v : List Int}
    (first : Renders converts f a u l) (complete : f.foldl Mode.step .text = .text)
    (second : Renders converts g (l ++ b) v left) :
    Renders converts (f ++ g) (a ++ b) (u ++ v) left := by
  induction first with
  | finish ap => exact second
  | text plain more ih =>
    simp only [List.foldl_cons, Mode.step, plain, if_false] at complete
    exact .text plain (ih complete second)
  | @convert rest after ap used ap' _ ch spec u w scanned known converted more ih =>
    obtain ⟨later, appended⟩ := flags_complete scanned complete
    have again := appended g b
    rw [List.append_assoc used ap' b] at again
    rw [List.append_assoc]
    exact .convert again known converted (ih later second)
  | @abandon rest ap _ r w scanned unknown more ih =>
    obtain ⟨later, appended⟩ := flags_complete scanned complete
    have again : rest.foldl Mode.step .text = .text := by
      rw [reread_step scanned unknown]
      exact later
    exact .abandon (appended g b) unknown (ih again second)

theorem Renders.total
    (total : ∀ ch spec used, ch ∈ conversions →
      Consumes ((Mode.directive spec.lflag).takes ch) used [] → ∃ w, converts ch spec used w)
    {s : List UInt8} {ap left : List Arg} (enough : Consumes (demand .text s) ap left) :
    ∃ w, Renders converts s ap w left := by
  -- An abandoned directive is read again from after its '%', so the induction is on the length.
  induction size : s.length using Nat.strong_induction_on generalizing s ap with
  | _ n ih =>
    subst size
    cases s with
    | nil =>
      cases enough
      exact ⟨[], .finish left⟩
    | cons ch rest =>
      by_cases plain : ch = 37
      next =>
        subst plain
        have inside : Consumes (demand (.directive ({} : Spec).lflag) rest) ap left := enough
        obtain ⟨r, scanned, rest_enough⟩ := flags_total inside
        obtain ⟨no_flag, skipped, -, shape⟩ := flags_shape scanned
        by_cases known : r.ch ∈ conversions
        next =>
          have shorter : r.after.length < (37 :: rest).length := by
            rcases shape with ended | stopped
            · simp [ended.2.2]
            · simp [stopped]
              omega
          obtain ⟨middle, taken, enough⟩ := Consumes.append.1 rest_enough
          obtain ⟨used, split, fits⟩ := taken.used
          obtain ⟨u, converted⟩ := total r.ch r.spec used known fits
          obtain ⟨w, more⟩ := ih _ shorter enough rfl
          exact ⟨u ++ w, .convert (by rw [scanned, ← split]) known converted more⟩
        next =>
          rw [takes_other _ no_flag known, List.nil_append, ← reread_demand scanned known]
            at rest_enough
          obtain ⟨w, more⟩ := ih rest.length (by simp) rest_enough rfl
          exact ⟨_, .abandon scanned known more⟩
      next =>
        simp only [demand, Mode.takes, Mode.step, plain, if_false, List.nil_append] at enough
        obtain ⟨w, more⟩ := ih rest.length (by simp) enough rfl
        exact ⟨_, .text plain more⟩

end Renders

end JosLab.Printfmt
