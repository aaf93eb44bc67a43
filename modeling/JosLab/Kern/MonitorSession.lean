import JosLab.Kern.ConsoleLine
import JosLab.Kern.MonitorCommands

set_option autoImplicit false

namespace JosLab.Monitor

open Console Printfmt Readline Words

section Source

variable {κ : Type} (getchar : κ → Console → Outcome Fault (Int × κ × Console))

inductive Yields : κ → List Int → κ → Prop where
  | nil (source : κ) : Yields source [] source
  | key {source next last : κ} {c : Int} {rest : List Int}
      (got : ∀ s, getchar source s = .done (c, next, s)) (more : Yields next rest last) :
      Yields source (c :: rest) last

variable {getchar}

theorem Yields.append {source middle last : κ} {a b : List Int}
    (first : Yields getchar source a middle) (second : Yields getchar middle b last) :
    Yields getchar source (a ++ b) last := by
  induction first with
  | nil source => exact second
  | key got more ih => exact .key got (ih second)

theorem Yields.split {source last : κ} {a b : List Int} (yields : Yields getchar source (a ++ b) last) :
    ∃ middle, Yields getchar source a middle ∧ Yields getchar middle b last := by
  induction a generalizing source with
  | nil => exact ⟨source, .nil source, yields⟩
  | cons c a ih =>
    cases yields with
    | key got more =>
      obtain ⟨middle, first, second⟩ := ih more
      exact ⟨middle, .key got first, second⟩

theorem Yields.unique {source first second : κ} {keys : List Int} (s : Console)
    (one : Yields getchar source keys first) (other : Yields getchar source keys second) :
    first = second := by
  induction one with
  | nil source =>
    cases other
    rfl
  | @key source next last c rest got more ih =>
    cases other with
    | @key _ next' _ _ _ got' more' =>
      have same := (got s).symm.trans (got' s)
      cases same
      exact ih more'

end Source

structure Entry where
  keys : List Int
  stop : Int
  editing : ∀ c ∈ keys, Editing c
  newline : stop = 10 ∨ stop = 13

namespace Entry

def strokes (entry : Entry) : List Int := entry.keys ++ [entry.stop]

def line (entry : Entry) : List UInt8 := entry.keys.foldl keep []

def echo (entry : Entry) : List UInt8 := echoes [] entry.keys ++ [10]

end Entry

inductive Request where
  | nothing
  | tooMany
  | call (command : Command) (args : List (List UInt8))
  | unknown (word : List UInt8)

def request (line : List UInt8) : Request :=
  match words isBlank line with
  | [] => .nothing
  | word :: rest =>
      if maxargs - 1 < rest.length + 1 then .tooMany
      else
        match commands.find? fun command => command.name.bytes = word with
        | some command => .call command (word :: rest)
        | none => .unknown word

def tooManyText : List UInt8 :=
  [84, 111, 111, 32, 109, 97, 110, 121, 32, 97, 114, 103, 117, 109, 101, 110, 116, 115, 32, 40, 109,
    97, 120, 32, 49, 54, 41, 10]

def unknownText (word : List UInt8) : List UInt8 :=
  [85, 110, 107, 110, 111, 119, 110, 32, 99, 111, 109, 109, 97, 110, 100, 32, 39] ++
    (word ++ [39, 10])

structure Answer where
  text : Command → List (List UInt8) → List UInt8
  value : Command → List (List UInt8) → Int

def Answer.reply (answer : Answer) : Request → List UInt8
  | .nothing => []
  | .tooMany => tooManyText
  | .call command args => answer.text command args
  | .unknown word => unknownText word

def Answer.result (answer : Answer) : Request → Int
  | .call command args => answer.value command args
  | .nothing | .tooMany | .unknown _ => 0

structure Args (mem : Mem) (argv : Argv) (limit : Nat) (args : List (List UInt8)) : Prop where
  mapped : ∀ i < maxargs, argv.mapped i = true
  strings : ∀ i word, args[i]? = some word →
    StringAt mem (argv.value i) word ∧ argv.value i + word.length < limit
  ended : argv.value args.length = 0

section Commands

variable (origin : Console) (buf : Nat)
  (func : Command → Nat → Argv → Nat → Console → Outcome Fault (Int × Console))

def Answers (answer : Answer) : Prop :=
  ∀ command args argv tf s, Fit origin buf s → Args s.mem argv (buf + buflen) args →
    ∃ s', func command args.length argv tf s = .done (answer.value command args, s') ∧
      Printed origin buf s s' (answer.text command args)

def AnswersTo (asked : Command → Prop) (answer : Answer) : Prop :=
  ∀ command, asked command → ∀ args argv tf s, Fit origin buf s →
    Args s.mem argv (buf + buflen) args →
      ∃ s', func command args.length argv tf s = .done (answer.value command args, s') ∧
        Printed origin buf s s' (answer.text command args)

def Harmless : Prop :=
  ∀ command args argv tf s, Fit origin buf s → Args s.mem argv (buf + buflen) args →
    ∃ rc s', func command args.length argv tf s = .done (rc, s') ∧ 0 ≤ rc ∧ Fit origin buf s'

def Asks (asked : Command → Prop) (line : List UInt8) : Prop :=
  ∀ command args, request line = .call command args → asked command

variable {origin buf func}

theorem Answers.only {answer : Answer} (answers : Answers origin buf func answer)
    (asked : Command → Prop) : AnswersTo origin buf func asked answer :=
  fun command _ => answers command

theorem tooMany_prints :
    printed tooManyArguments [.word maxargs.toUInt32] = .done (literally tooManyText, []) := by
  decide +kernel

theorem unknown_prints {word : List UInt8} (rest : List UInt8) (noNul : 0 ∉ word) (short : word.length < 2 ^ 31) :
    printed unknownCommand [.str (some (word ++ 0 :: rest))] =
      .done (literally [85, 110, 107, 110, 111, 119, 110, 32, 99, 111, 109, 109, 97, 110, 100, 32,
        39] ++ (word.map charInt ++ literally [39, 10]), []) := by
  rw [printed_iff]
  exact renders_text [85, 110, 107, 110, 111, 119, 110, 32, 99, 111, 109, 109, 97, 110, 100, 32, 39]
    (by decide) (renders_string ⟨noNul, rest, rfl⟩ short (renders_last [39, 10] (by decide)))

theorem first_length {line word : List UInt8} {rest : List (List UInt8)}
    (split : words isBlank line = word :: rest) : word.length ≤ line.length := by
  rcases split_cases isBlank line with blank | ⟨gap, first, more, rfl, parts⟩
  next =>
    rw [words_of_blank blank] at split
    cases split
  next =>
    rw [parts.words_eq] at split
    cases split
    simp only [List.length_append]
    omega

theorem find_command {word : List UInt8} {command : Command}
    (found : commands.find? (fun command => command.name.bytes = word) = some command) :
    command.name.bytes = word := by
  have named := List.find?_some found
  exact of_decide_eq_true named

variable {s : Console} {line : List UInt8} (junk : Nat → Nat)

variable (func)

theorem runcmd_words {limit : Nat} (tf : Nat) (stored : StringAt s.mem buf line)
    (inside : buf + line.length < limit) (few : (words isBlank line).length ≤ maxargs - 1) :
    ∃ (argv : Argv) (mem : Mem), OnlyBlanks line buf s.mem mem ∧
      Args mem argv limit (words isBlank line) ∧
      runcmd func junk buf limit tf s =
        if (words isBlank line).length = 0 then .done (0, { s with mem })
        else invoke func (words isBlank line).length argv limit tf { s with mem } commands := by
  obtain ⟨argv, ran, mapped, -, saved⟩ :=
    (line_parses junk stored inside).fits (by rwa [Nat.zero_add])
  simp only [Nat.zero_add] at ran saved
  have slots : ∀ i < maxargs, argv.mapped i = true :=
    fun i lt => (mapped i).trans (decide_eq_true lt)
  have last : (words isBlank line).length < maxargs := by
    unfold maxargs at *
    omega
  have ended := Memory.store_mapped Fault.index argv (words isBlank line).length 0 (slots _ last)
  refine ⟨argv.set (words isBlank line).length 0, _, onlyBlanks_blit stored _ le_rfl,
    ⟨slots, fun i word nth => ?_, by simp⟩, ?_⟩
  next =>
    obtain ⟨spells, inside_line⟩ := saved i word nth
    have earlier : i ≠ (words isBlank line).length := (List.getElem?_eq_some_iff.1 nth).1.ne
    rw [Memory.set_value, if_neg earlier]
    exact ⟨spells, by omega⟩
  next =>
    simp only [runcmd, emptied_stored, ran, ended, Outcome.done_bind, Outcome.pure_eq]

variable {func}

section Placed

variable (placed : Placed origin buf) (fit : Fit origin buf s) (stored : StringAt s.mem buf line)
  (room : line.length < buflen)

include fit room in
theorem Fit.blanks {mem : Mem} (blanks : OnlyBlanks line buf s.mem mem) :
    Fit origin buf { s with mem } := by
  refine fit.store blanks.1 fun a out => ?_
  by_contra changed
  obtain ⟨i, lt, same, -⟩ := blanks.2 a changed
  omega

include placed fit stored room

theorem runcmd_overlong {tf : Nat} (many : maxargs - 1 < (words isBlank line).length) :
    ∃ s', runcmd func junk buf (buf + buflen) tf s = .done (0, s') ∧
      Printed origin buf s s' tooManyText := by
  have reports : ∃ mem : Mem, OnlyBlanks line buf s.mem mem ∧
      Reports (runcmd func junk buf (buf + buflen) tf s) tooManyArguments [.word maxargs.toUInt32]
        { s with mem } :=
    runcmd_many func junk stored (by omega) fit.onScreen (fit.screen placed) many
  obtain ⟨mem, blanks, s', printed, ran, -⟩ := reports
  obtain ⟨s'', again, shown⟩ := cprintf_printed placed (fit.blanks room blanks) tooMany_prints
  rw [again] at printed
  cases printed
  rw [literally_low] at shown
  exact ⟨s', ran, shown.fit, shown.sends⟩

omit placed in
variable (func) in
theorem runcmd_calls {command : Command} {args : List (List UInt8)}
    (called : request line = .call command args) (tf : Nat) :
    ∃ argv mem, Fit origin buf { s with mem } ∧ Args mem argv (buf + buflen) args ∧
      runcmd func junk buf (buf + buflen) tf s =
        func command args.length argv tf { s with mem } := by
  cases split : words isBlank line with
  | nil => simp [request, split] at called
  | cons word rest =>
    simp only [request, split] at called
    split_ifs at called with many
    cases found : commands.find? fun command => command.name.bytes = word with
    | none => simp [found] at called
    | some named =>
      rw [found] at called
      cases called
      have few : (words isBlank line).length ≤ maxargs - 1 := by
        rw [split, List.length_cons]
        omega
      obtain ⟨argv, mem, blanks, args, ran⟩ := runcmd_words func junk tf stored
        (by omega : buf + line.length < buf + buflen) few
      rw [split] at args ran
      obtain ⟨spells, inside⟩ := args.strings 0 word rfl
      have some : ¬ (word :: rest).length = 0 := by simp
      rw [if_neg some] at ran
      refine ⟨argv, mem, fit.blanks room blanks, args, ran.trans ?_⟩
      exact invoke_named func (args.mapped 0 (by decide)) spells inside command (find_command found)
        commands (List.mem_of_find?_eq_some found)

variable (func) in
theorem runcmd_reports (other : ∀ command args, request line ≠ .call command args) (answer : Answer)
    (tf : Nat) :
    ∃ s', runcmd func junk buf (buf + buflen) tf s = .done (answer.result (request line), s') ∧
      Printed origin buf s s' (answer.reply (request line)) := by
  by_cases many : maxargs - 1 < (words isBlank line).length
  next =>
    have asked : request line = .tooMany := by
      cases split : words isBlank line with
      | nil => simp [split] at many
      | cons word rest =>
        rw [split, List.length_cons] at many
        simp [request, split, many]
    rw [asked]
    exact runcmd_overlong junk placed fit stored room many
  obtain ⟨argv, mem, blanks, args, ran⟩ := runcmd_words func junk tf stored
    (by omega : buf + line.length < buf + buflen) (by omega)
  have fit' := fit.blanks room blanks
  rw [ran]
  cases split : words isBlank line with
  | nil =>
    have asked : request line = .nothing := by simp [request, split]
    rw [asked]
    exact ⟨_, rfl, fit', .nil _⟩
  | cons word rest =>
    rw [split] at args many
    rw [List.length_cons] at many
    obtain ⟨spells, inside⟩ := args.strings 0 word rfl
    have slot := args.mapped 0 (by decide)
    have some : ¬ (word :: rest).length = 0 := by simp
    rw [if_neg some]
    cases found : commands.find? fun command => command.name.bytes = word with
    | some command =>
      have asked : request line = .call command (word :: rest) := by
        simp [request, split, many, found]
      exact absurd asked (other command _)
    | none =>
      have asked : request line = .unknown word := by simp [request, split, many, found]
      have unknown : ∀ command ∈ commands, command.name.bytes ≠ word := by
        simpa using List.find?_eq_none.1 found
      have short : word.length < 2 ^ 31 := by
        have size : buflen = 1024 := rfl
        have fits := first_length split
        omega
      obtain ⟨s', shown, printed⟩ := cprintf_printed placed fit'
        (unknown_prints (charsAt mem (argv.value 0 + word.length + 1) (buf + buflen))
          spells.noNul short)
      rw [asked, invoke_unknown func (s := { s with mem }) slot spells inside commands unknown]
      refine ⟨s', ?_, ?_⟩
      · simp only [invoke, Memory.load_mapped _ _ _ slot, Outcome.done_bind,
          spells.charsAt_eq _ inside, shown, Outcome.pure_eq]
        rfl
      · simp only [List.map_append, literally_low, charInts_low] at printed
        exact ⟨printed.fit, printed.sends⟩

theorem runcmd_replies {asked : Command → Prop} {answer : Answer}
    (answers : AnswersTo origin buf func asked answer) (asks : Asks asked line) (tf : Nat) :
    ∃ s', runcmd func junk buf (buf + buflen) tf s = .done (answer.result (request line), s') ∧
      Printed origin buf s s' (answer.reply (request line)) := by
  by_cases called : ∃ command args, request line = .call command args
  next =>
    obtain ⟨command, args, called⟩ := called
    obtain ⟨argv, mem, fit', given, ran⟩ :=
      runcmd_calls func junk fit stored room called tf
    obtain ⟨s', replied, printed⟩ :=
      answers command (asks command args called) args argv tf _ fit' given
    rw [ran, called]
    exact ⟨s', replied, printed.fit, printed.sends⟩
  next =>
    apply runcmd_reports func junk placed fit stored room _ answer tf
    intro command args asked
    exact called ⟨command, args, asked⟩

theorem runcmd_harmless (harmless : Harmless origin buf func) (tf : Nat) :
    ∃ rc s', runcmd func junk buf (buf + buflen) tf s = .done (rc, s') ∧ 0 ≤ rc ∧
      Fit origin buf s' := by
  by_cases called : ∃ command args, request line = .call command args
  next =>
    obtain ⟨command, args, called⟩ := called
    obtain ⟨argv, mem, fit', given, ran⟩ :=
      runcmd_calls func junk fit stored room called tf
    rw [ran]
    exact harmless command args argv tf _ fit' given
  next =>
    have other : ∀ command args, request line ≠ .call command args :=
      fun command args asked => called ⟨command, args, asked⟩
    obtain ⟨s', ran, printed⟩ :=
      runcmd_reports func junk placed fit stored room other ⟨fun _ _ => [], fun _ _ => 0⟩ tf
    refine ⟨_, s', ran, ?_, printed.fit⟩
    cases request line <;> exact le_rfl

end Placed

end Commands

end JosLab.Monitor
