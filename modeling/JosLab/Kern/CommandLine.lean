import JosLab.Kern.Monitor
import JosLab.Kern.PrintfCount
import JosLab.Shared.Words

set_option autoImplicit false

namespace JosLab

structure StringAt (mem : Mem) (p : Nat) (text : List UInt8) : Prop where
  noNul : 0 ∉ text
  chars : ∀ i < text.length, mem.value (p + i) = text.getD i 0
  terminated : mem.value (p + text.length) = 0
  maps : mem.Maps p (p + text.length + 1)
  bound : p + text.length < 2 ^ 32

namespace StringAt

variable {mem : Mem} {p : Nat} {text : List UInt8}

theorem load_nil (spells : StringAt mem p []) : mem.load Fault.load p = .done 0 := by
  rw [Memory.load_mapped _ _ _ (spells.maps p le_rfl (by simp))]
  exact congrArg _ spells.terminated

theorem load_cons {c : UInt8} {rest : List UInt8} (spells : StringAt mem p (c :: rest)) :
    mem.load Fault.load p = .done c := by
  rw [Memory.load_mapped _ _ _ (spells.maps p le_rfl (by simp))]
  exact congrArg _ (spells.chars 0 (by simp))

theorem head_nonzero {c : UInt8} {rest : List UInt8} (spells : StringAt mem p (c :: rest)) :
    c ≠ 0 :=
  fun nul => spells.noNul (by simp [nul])

theorem append {front rest : List UInt8} (spells : StringAt mem p (front ++ rest)) :
    StringAt mem (p + front.length) rest := by
  obtain ⟨noNul, chars, terminated, maps, bound⟩ := spells
  rw [List.length_append] at chars terminated maps bound
  refine ⟨fun member => noNul (by simp [member]), fun i lt => ?_, ?_, maps.narrow (by omega) (by omega),
    by omega⟩
  · rw [Nat.add_assoc, chars (front.length + i) (by omega), List.getD_append_right _ _ _ _ (by omega),
      Nat.add_sub_cancel_left]
  · rw [Nat.add_assoc, terminated]

theorem tail {c : UInt8} {rest : List UInt8} (spells : StringAt mem p (c :: rest)) :
    StringAt mem (p + 1) rest := by
  have split : StringAt mem p ([c] ++ rest) := spells
  exact split.append

theorem frame {mem' : Mem} (spells : StringAt mem p text)
    (mapped : ∀ a, mem'.mapped a = mem.mapped a)
    (same : ∀ a, p ≤ a → mem'.value a = mem.value a) : StringAt mem' p text where
  noNul := spells.noNul
  chars i lt := by rw [same _ (by omega), spells.chars i lt]
  terminated := by rw [same _ (by omega), spells.terminated]
  maps a ge lt := by rw [mapped, spells.maps a ge lt]
  bound := spells.bound

theorem behind {front rest : List UInt8} (spells : StringAt mem p (front ++ rest))
    (cell : Nat → UInt8) :
    StringAt (mem.blit p front.length cell) (p + front.length) rest :=
  spells.append.frame (fun _ => rfl) fun _ _ => Memory.blit_outside _ _ _ _ _ (by omega)

theorem charsAt_eq (spells : StringAt mem p text) (limit : Nat) (inside : p + text.length < limit) :
    charsAt mem p limit = text ++ 0 :: charsAt mem (p + text.length + 1) limit := by
  rw [charsAt_text mem text p limit (by omega) spells.chars, charsAt_cons _ _ _ inside,
    spells.terminated]

end StringAt

namespace Monitor

open Words Printfmt

def isBlank (c : UInt8) : Bool := c = 9 || c = 13 || c = 10 || c = 32

theorem strchr_blank {c : UInt8} (blank : isBlank c = true) :
    ∃ i, strchr whitespace c = .done (some i) := by
  simp only [isBlank, Bool.or_eq_true, decide_eq_true_eq] at blank
  rcases blank with ((rfl | rfl) | rfl) | rfl
  next => exact ⟨0, rfl⟩
  next => exact ⟨1, rfl⟩
  next => exact ⟨2, rfl⟩
  next => exact ⟨3, rfl⟩

theorem strchr_solid {c : UInt8} (solid : isBlank c = false) :
    strchr whitespace c = .done none := by
  simp only [isBlank, Bool.or_eq_false_iff, decide_eq_false_iff_not] at solid
  obtain ⟨⟨⟨tab, cr⟩, lf⟩, space⟩ := solid
  simp [strchr, whitespace, Ne.symm tab, Ne.symm cr, Ne.symm lf, Ne.symm space]

theorem gobble_run (text : List UInt8) (fuel p : Nat) (mem : Mem) (spells : StringAt mem p text)
    (enough : text.length < fuel) :
    Loop.run gobblePass fuel (p, mem) = .done (p + (text.takeWhile isBlank).length,
      mem.blit p (text.takeWhile isBlank).length fun _ => 0) := by
  induction text generalizing fuel p mem with
  | nil =>
    obtain ⟨fuel, rfl⟩ := Loop.one_more enough
    exact Loop.run_leave _ (by simp [gobblePass, spells.load_nil, Memory.blit_zero])
  | cons c rest ih =>
    rw [List.length_cons] at enough
    obtain ⟨fuel, rfl⟩ := Loop.one_more enough
    by_cases blank : isBlank c = true
    next =>
      obtain ⟨i, found⟩ := strchr_blank blank
      have bound := spells.bound
      rw [List.length_cons] at bound
      have stored := Memory.store_mapped Fault.store mem p 0 (spells.maps p le_rfl (by omega))
      have step : gobblePass (p, mem) = .done (.again (p + 1, mem.blit p 1 fun _ => 0)) := by
        simp [gobblePass, spells.load_cons, spells.head_nonzero, found, stored,
          wrap_of_lt (p + 1) (by omega), ← Memory.set_eq_blit]
      have later : StringAt (mem.blit p 1 fun _ => 0) (p + 1) rest :=
        spells.tail.frame (fun _ => rfl) fun a ge => Memory.blit_outside _ _ _ _ _ (by omega)
      have size : ((c :: rest).takeWhile isBlank).length = 1 + (rest.takeWhile isBlank).length := by
        rw [List.takeWhile_cons_of_pos blank, List.length_cons, Nat.add_comm]
      rw [Loop.run_again _ step, ih fuel (p + 1) _ later (by omega), size, ← Memory.blit_blit,
        Nat.add_assoc]
    next =>
      have solid : isBlank c = false := by simpa using blank
      rw [List.takeWhile_cons_of_neg blank]
      refine Loop.run_leave _ ?_
      simp [gobblePass, spells.load_cons, spells.head_nonzero, strchr_solid solid, Memory.blit_zero]

theorem scan_run (text : List UInt8) (fuel p : Nat) (mem : Mem) (spells : StringAt mem p text)
    (enough : text.length < fuel) :
    Loop.run (scanPass mem) fuel p = .done (p + (text.takeWhile fun c => !isBlank c).length) := by
  induction text generalizing fuel p with
  | nil =>
    obtain ⟨fuel, rfl⟩ := Loop.one_more enough
    exact Loop.run_leave _ (by simp [scanPass, spells.load_nil])
  | cons c rest ih =>
    rw [List.length_cons] at enough
    obtain ⟨fuel, rfl⟩ := Loop.one_more enough
    by_cases blank : isBlank c = true
    next =>
      obtain ⟨i, found⟩ := strchr_blank blank
      rw [List.takeWhile_cons_of_neg (by simp [blank])]
      exact Loop.run_leave _ (by simp [scanPass, spells.load_cons, spells.head_nonzero, found])
    next =>
      have solid : isBlank c = false := by simpa using blank
      have bound := spells.bound
      rw [List.length_cons] at bound
      have step : scanPass mem p = .done (.again (p + 1)) := by
        simp [scanPass, spells.load_cons, spells.head_nonzero, strchr_solid solid,
          wrap_of_lt (p + 1) (by omega)]
      rw [Loop.run_again _ step, ih fuel (p + 1) spells.tail (by omega),
        List.takeWhile_cons_of_pos (by simp [solid]), List.length_cons, Nat.add_assoc,
        Nat.add_comm 1]

def nulled (line : List UInt8) (i : Nat) : UInt8 :=
  if isBlank (line.getD i 0) then 0 else line.getD i 0

theorem nulled_append (front rest : List UInt8) (i : Nat) :
    nulled (front ++ rest) (front.length + i) = nulled rest i := by
  simp [nulled, List.getD_eq_getElem?_getD, List.getElem?_append_right]

theorem nulled_front (front rest : List UInt8) (i : Nat) (lt : i < front.length) :
    nulled (front ++ rest) i = nulled front i := by
  simp [nulled, List.getD_eq_getElem?_getD, List.getElem?_append_left lt]

theorem nulled_blank {gap : List UInt8} (blank : ∀ c ∈ gap, isBlank c = true) (i : Nat)
    (lt : i < gap.length) : nulled gap i = 0 := by
  have here : isBlank (gap.getD i 0) = true := blank _ (by simp [lt])
  rw [nulled, if_pos here]

theorem nulled_solid {word : List UInt8} (solid : ∀ c ∈ word, isBlank c = false) (i : Nat)
    (lt : i < word.length) : nulled word i = word.getD i 0 := by
  have here : isBlank (word.getD i 0) = false := solid _ (by simp [lt])
  rw [nulled, here, if_neg Bool.false_ne_true]

variable {mem : Mem} {p : Nat}

theorem nulled_blits {gap word rest : List UInt8} (spells : StringAt mem p (gap ++ (word ++ rest)))
    (blank : ∀ c ∈ gap, isBlank c = true) (solid : ∀ c ∈ word, isBlank c = false) (n : Nat) :
    (mem.blit p gap.length fun _ => 0).blit (p + gap.length + word.length) n (nulled rest) =
      mem.blit p (gap.length + (word.length + n)) (nulled (gap ++ (word ++ rest))) := by
  have front : mem.blit p gap.length (nulled (gap ++ (word ++ rest))) =
      mem.blit p gap.length fun _ => 0 := by
    apply Memory.blit_congr
    intro i lt
    rw [nulled_front _ _ _ lt, nulled_blank blank i lt]
  have kept : (mem.blit p gap.length fun _ => 0).blit (p + gap.length) word.length
      (nulled (word ++ rest)) = mem.blit p gap.length fun _ => 0 := by
    apply Memory.blit_same
    intro i lt
    have char := spells.append.chars i (by rw [List.length_append]; omega)
    rw [Memory.blit_outside _ _ _ _ _ (by omega), char, nulled_front _ _ _ lt,
      nulled_solid solid i lt, List.getD_append _ _ _ _ lt]
  rw [← Memory.blit_blit, front]
  simp only [nulled_append]
  rw [← Memory.blit_blit, kept]
  simp only [nulled_append]

theorem word_at {gap word rest : List UInt8} (spells : StringAt mem p (gap ++ (word ++ rest)))
    (solid : ∀ c ∈ word, isBlank c = false) (ends : ∀ c ∈ rest.head?, isBlank c = true) :
    StringAt (mem.blit p (gap.length + (word.length + rest.length)) (nulled (gap ++ (word ++ rest))))
      (p + gap.length) word := by
  obtain ⟨noNul, chars, terminated, maps, bound⟩ := spells
  rw [List.length_append, List.length_append] at terminated maps bound
  refine ⟨fun member => noNul (by simp [member]), fun i lt => ?_, ?_,
    (Memory.blit_maps ..).2 (maps.narrow (by omega) (by omega)), by omega⟩
  next =>
    rw [Nat.add_assoc, Memory.blit_inside _ _ _ _ _ (by omega), nulled_append,
      nulled_front _ _ _ lt, nulled_solid solid i lt]
  next =>
    cases rest with
    | nil =>
      rw [Memory.blit_outside _ _ _ _ _ (by simp; omega), ← terminated]
      simp [Nat.add_assoc]
    | cons c rest =>
      have blank : nulled (c :: rest) 0 = 0 := by
        have here := ends c rfl
        simp [nulled, here]
      have after := nulled_append word (c :: rest) 0
      rw [Nat.add_zero, blank] at after
      rw [Nat.add_assoc, Memory.blit_inside _ _ _ _ _ (by simp), nulled_append, after]

structure Parses (run : Outcome Fault Parsed) (line : List UInt8) (argc : Nat) (argv : Argv)
    (p : Nat) (mem : Mem) : Prop where
  fits : argc + (words isBlank line).length ≤ maxargs - 1 → ∃ argv' : Argv,
    run = .done (.line (argc + (words isBlank line).length) argv'
      (mem.blit p line.length (nulled line))) ∧
    (∀ i, argv'.mapped i = argv.mapped i) ∧
    (∀ i, i < argc ∨ maxargs ≤ i → argv'.value i = argv.value i) ∧
    ∀ i word, (words isBlank line)[i]? = some word →
      StringAt (mem.blit p line.length (nulled line)) (argv'.value (argc + i)) word ∧
        argv'.value (argc + i) + word.length ≤ p + line.length
  overflows : maxargs - 1 < argc + (words isBlank line).length →
    ∃ n ≤ line.length, run = .done (.tooMany (mem.blit p n (nulled line)))

theorem parse_blank (fuel inner : Nat) (line : List UInt8) (argc : Nat) (argv : Argv) (p : Nat)
    (mem : Mem) (spells : StringAt mem p line) (room : argc ≤ maxargs - 1)
    (inside : line.length < inner) (blank : ∀ c ∈ line, isBlank c = true) :
    Parses (Loop.run (parsePass inner) (fuel + 1) { argc, argv, buf := p, mem }) line argc argv p
      mem := by
  have gobbled := gobble_run line inner p mem spells inside
  have zeros : mem.blit p line.length (nulled line) = mem.blit p line.length fun _ => 0 :=
    Memory.blit_congr _ _ _ _ _ fun i lt => nulled_blank blank i lt
  have after : StringAt (mem.blit p line.length fun _ => 0) (p + line.length) [] := by
    rw [← List.append_nil line] at spells
    exact spells.behind fun _ => 0
  rw [List.takeWhile_eq_self_iff.2 blank] at gobbled
  have leave : parsePass inner { argc, argv, buf := p, mem } =
      .done (.leave (.line argc argv (mem.blit p line.length fun _ => 0))) := by
    simp [parsePass, gobbled, after.load_nil]
  have none : words isBlank line = [] := words_of_blank blank
  rw [Loop.run_leave fuel leave]
  constructor
  next =>
    intro _
    refine ⟨argv, by simp [none, zeros], fun _ => rfl, fun _ _ => rfl, ?_⟩
    simp [none]
  next =>
    intro beyond
    rw [none, List.length_nil] at beyond
    omega

theorem Parses.word {run : Outcome Fault Parsed} {gap word rest : List UInt8} {argc : Nat}
    {argv : Argv} {p : Nat} {mem : Mem}
    (later : Parses run rest (argc + 1) (Memory.set argv argc (p + gap.length))
      (p + gap.length + word.length) (mem.blit p gap.length fun _ => 0))
    (spells : StringAt mem p (gap ++ (word ++ rest))) (parts : Split isBlank gap word rest)
    (room : argc < maxargs) : Parses run (gap ++ (word ++ rest)) argc argv p mem := by
  have swept (n : Nat) := nulled_blits spells parts.gaps parts.solid n
  have count : argc + (words isBlank (gap ++ (word ++ rest))).length =
      argc + 1 + (words isBlank rest).length := by
    rw [parts.words_eq, List.length_cons]
    omega
  have size : (gap ++ (word ++ rest)).length = gap.length + (word.length + rest.length) := by simp
  constructor
  next =>
    intro fits
    rw [count] at fits ⊢
    obtain ⟨argv', ran, mapped, kept, saved⟩ := later.fits fits
    rw [swept, ← size] at ran saved
    refine ⟨argv', ran, mapped, fun i other => ?_, fun i w nth => ?_⟩
    next =>
      have apart : i ≠ argc := by omega
      rw [kept i (by omega), Memory.set_value, if_neg apart]
    next =>
      rw [parts.words_eq] at nth
      cases i with
      | zero =>
        obtain rfl : word = w := by simpa using nth
        have here : argv'.value (argc + 0) = p + gap.length := by
          rw [Nat.add_zero, kept argc (by omega), Memory.set_value, if_pos rfl]
        rw [here, size]
        exact ⟨word_at spells parts.solid parts.ends, by omega⟩
      | succ i =>
        have next := saved i w (by simpa using nth)
        rw [Nat.add_assoc, Nat.add_comm 1 i] at next
        exact ⟨next.1, by rw [size]; omega⟩
  next =>
    intro beyond
    rw [count] at beyond
    obtain ⟨n, le, ran⟩ := later.overflows beyond
    rw [swept] at ran
    exact ⟨_, by rw [size]; omega, ran⟩

theorem Parses.full {run : Outcome Fault Parsed} {gap word rest : List UInt8} {argc : Nat}
    {argv : Argv} (ran : run = .done (.tooMany (mem.blit p gap.length fun _ => 0)))
    (parts : Split isBlank gap word rest) (full : argc = maxargs - 1) :
    Parses run (gap ++ (word ++ rest)) argc argv p mem := by
  constructor
  next =>
    intro fits
    rw [parts.words_eq, List.length_cons] at fits
    omega
  next =>
    intro _
    have zeros : mem.blit p gap.length (nulled (gap ++ (word ++ rest))) =
        mem.blit p gap.length fun _ => 0 := by
      apply Memory.blit_congr
      intro i lt
      rw [nulled_front _ _ _ lt, nulled_blank parts.gaps i lt]
    exact ⟨gap.length, by simp, by rw [ran, zeros]⟩

theorem parsePass_word {gap word rest : List UInt8} (inner argc : Nat) (argv : Argv)
    (spells : StringAt mem p (gap ++ (word ++ rest))) (parts : Split isBlank gap word rest)
    (inside : (gap ++ (word ++ rest)).length < inner) :
    parsePass inner { argc, argv, buf := p, mem } =
      if argc = maxargs - 1 then .done (.leave (.tooMany (mem.blit p gap.length fun _ => 0)))
      else argv.store .index argc (p + gap.length) >>= fun argv => .done (.again
        { argc := argc + 1, argv, buf := p + gap.length + word.length,
          mem := mem.blit p gap.length fun _ => 0 }) := by
  have gobbled := gobble_run _ inner p mem spells inside
  rw [parts.gap_eq] at gobbled
  rw [List.length_append] at inside
  have at_word := spells.behind fun _ => 0
  have scanned := scan_run _ inner _ _ at_word (by omega)
  rw [parts.word_eq] at scanned
  obtain ⟨c, more, first⟩ := List.exists_cons_of_ne_nil parts.nonempty
  rw [first, List.cons_append] at at_word
  by_cases full : argc = maxargs - 1
  next => simp [parsePass, gobbled, at_word.load_cons, at_word.head_nonzero, full]
  next => simp [parsePass, gobbled, at_word.load_cons, at_word.head_nonzero, full, scanned]

-- By induction on the passes: each takes a gap and a word off the line.
theorem parse_run (fuel inner : Nat) (line : List UInt8) (argc : Nat) (argv : Argv) (p : Nat)
    (mem : Mem) (spells : StringAt mem p line) (room : argc ≤ maxargs - 1)
    (slots : ∀ i < maxargs, argv.mapped i = true) (inside : line.length < inner)
    (enough : line.length < fuel) :
    Parses (Loop.run (parsePass inner) fuel { argc, argv, buf := p, mem }) line argc argv p mem := by
  induction fuel generalizing line argc argv p mem with
  | zero => omega
  | succ fuel ih =>
    rcases split_cases isBlank line with blank | ⟨gap, word, rest, rfl, parts⟩
    next => exact parse_blank fuel inner line argc argv p mem spells room inside blank
    next =>
      have pass := parsePass_word inner argc argv spells parts inside
      by_cases full : argc = maxargs - 1
      next =>
        rw [if_pos full] at pass
        exact .full (Loop.run_leave fuel pass) parts full
      next =>
        have slot : argc < maxargs := by
          unfold maxargs at *
          omega
        rw [if_neg full, Memory.store_mapped _ _ _ _ (slots argc slot), Outcome.done_bind] at pass
        have some := List.length_pos_iff.2 parts.nonempty
        rw [List.length_append, List.length_append] at inside enough
        have later := ih rest (argc + 1) (argv.set argc (p + gap.length))
          (p + gap.length + word.length) _ (spells.behind fun _ => 0).append
          (by unfold maxargs at *; omega) slots (by omega) (by omega)
        rw [Loop.run_again fuel pass]
        exact later.word spells parts slot

section Commands

variable (func : Command → Nat → Argv → Nat → Console → Outcome Fault (Int × Console))

variable {argc : Nat} {argv : Argv} {limit tf : Nat} {s : Console} {word : List UInt8}

theorem names_distinct (c c' : Command) (same : c.name.bytes = c'.name.bytes) : c = c' := by
  revert same
  cases c <;> cases c' <;> decide

theorem invoke_cons (slot : argv.mapped 0 = true) (spells : StringAt s.mem (argv.value 0) word)
    (inside : argv.value 0 + word.length < limit) (command : Command) (rest : List Command) :
    invoke func argc argv limit tf s (command :: rest) =
      if word = command.name.bytes then func command argc argv tf s
      else invoke func argc argv limit tf s rest := by
  obtain ⟨order, compared, zero⟩ := strcmp_zero word command.name.bytes
    (charsAt s.mem (argv.value 0 + word.length + 1) limit) [] spells.noNul command.name.noNul
  rw [← spells.charsAt_eq limit inside] at compared
  simp only [invoke, Memory.load_mapped _ _ _ slot, Outcome.done_bind, compared, zero]

theorem invoke_named (slot : argv.mapped 0 = true) (spells : StringAt s.mem (argv.value 0) word)
    (inside : argv.value 0 + word.length < limit) (command : Command)
    (named : command.name.bytes = word) (table : List Command) (listed : command ∈ table) :
    invoke func argc argv limit tf s table = func command argc argv tf s := by
  induction table with
  | nil => cases listed
  | cons head rest ih =>
    rw [invoke_cons func slot spells inside]
    by_cases here : word = head.name.bytes
    next => rw [if_pos here, names_distinct command head (named.trans here)]
    next =>
      rw [if_neg here]
      refine ih ((List.mem_cons.1 listed).resolve_left fun same => ?_)
      exact here (same ▸ named.symm)

theorem invoke_unknown (slot : argv.mapped 0 = true) (spells : StringAt s.mem (argv.value 0) word)
    (inside : argv.value 0 + word.length < limit) (table : List Command)
    (unknown : ∀ command ∈ table, command.name.bytes ≠ word) :
    invoke func argc argv limit tf s table = invoke func argc argv limit tf s [] := by
  induction table with
  | nil => rfl
  | cons head rest ih =>
    have other := unknown head (by simp)
    rw [invoke_cons func slot spells inside, if_neg (Ne.symm other)]
    exact ih fun command listed => unknown command (by simp [listed])

def Reports (run : Outcome Fault (Int × Console)) (f : CString) (ap : List Arg) (s : Console) :
    Prop :=
  ∃ s', Console.cprintf f ap s = .done (0, s') ∧ run = .done (0, s') ∧
    ∀ a, a < s.crtBuf ∨ s.crtBuf + 4000 ≤ a → s'.mem.value a = s.mem.value a

theorem cprintf_reports {f : CString} {ap left : List Arg}
    (enough : Consumes (demand .text f.bytes) ap left) (onScreen : s.crtPos < Console.crtSize)
    (maps : s.mem.Maps s.crtBuf (s.crtBuf + 4000)) :
    Reports (Console.cprintf f ap s >>= fun result => .done (0, result.2)) f ap s := by
  obtain ⟨s', _, ran, -, shown⟩ :=
    Console.cprintf_shows enough (Console.paper_shown s) onScreen maps
  exact ⟨s', ran, by rw [ran, Outcome.done_bind], shown.confined.outside⟩

def OnlyBlanks (line : List UInt8) (buf : Nat) (mem mem' : Mem) : Prop :=
  (∀ a, mem'.mapped a = mem.mapped a) ∧ ∀ a, mem'.value a ≠ mem.value a →
    ∃ i < line.length, a = buf + i ∧ isBlank (line.getD i 0) = true ∧ mem'.value a = 0

theorem onlyBlanks_blit {line : List UInt8} {buf : Nat} {mem : Mem}
    (spells : StringAt mem buf line) (n : Nat) (le : n ≤ line.length) :
    OnlyBlanks line buf mem (mem.blit buf n (nulled line)) := by
  refine ⟨fun _ => rfl, fun a changed => ?_⟩
  by_cases inside : buf ≤ a ∧ a < buf + n
  next =>
    obtain ⟨i, rfl⟩ := Nat.exists_eq_add_of_le inside.1
    rw [Memory.blit_inside _ _ _ _ _ (by omega)] at changed ⊢
    rw [spells.chars i (by omega), nulled] at changed
    by_cases blank : isBlank (line.getD i 0) = true
    next => exact ⟨i, by omega, rfl, blank, if_pos blank⟩
    next =>
      rw [if_neg blank] at changed
      exact absurd rfl changed
  next => exact absurd (Memory.blit_outside _ _ _ _ _ (by omega)) changed

structure Runs (run : Outcome Fault (Int × Console)) (line : List UInt8) (argv : Argv)
    (limit tf : Nat) (s : Console) : Prop where
  none : words isBlank line = [] → run = .done (0, s)
  named : ∀ command : Command, (words isBlank line).head? = some command.name.bytes →
    run = func command (words isBlank line).length argv tf s
  unknown : words isBlank line ≠ [] →
    (∀ command : Command, (words isBlank line).head? ≠ some command.name.bytes) →
    Reports run unknownCommand [.str (some (charsAt s.mem (argv.value 0) limit))] s

theorem invoke_runs {line : List UInt8} (onScreen : s.crtPos < Console.crtSize)
    (maps : s.mem.Maps s.crtBuf (s.crtBuf + 4000)) (slot : argv.mapped 0 = true)
    (saved : ∀ i word, (words isBlank line)[i]? = some word →
      StringAt s.mem (argv.value i) word ∧ argv.value i + word.length < limit) :
    Runs func (if (words isBlank line).length = 0 then .done (0, s)
      else invoke func (words isBlank line).length argv limit tf s commands) line argv limit tf s := by
  cases count : words isBlank line with
  | nil => exact ⟨fun _ => rfl, fun _ named => by simp [count] at named, fun some => absurd count some⟩
  | cons word rest =>
    obtain ⟨spells, inside⟩ := saved 0 word (by simp [count])
    rw [List.length_cons, if_neg (Nat.succ_ne_zero _)]
    constructor
    next =>
      intro none
      rw [count] at none
      cases none
    next =>
      intro command named
      simp only [count, List.head?_cons, Option.some.injEq] at named
      rw [invoke_named func slot spells inside command named.symm commands
        (by cases command <;> decide), count, List.length_cons]
    next =>
      intro _ unknown
      simp only [count, List.head?_cons, ne_eq, Option.some.injEq] at unknown
      rw [invoke_unknown func slot spells inside commands fun command _ => Ne.symm (unknown command)]
      have terminated : (charsAt s.mem (argv.value 0) limit).contains 0 = true := by
        simp [spells.charsAt_eq limit inside]
      have enough : Consumes (demand .text unknownCommand.bytes)
          [.str (some (charsAt s.mem (argv.value 0) limit))] [] := .cons terminated (.nil [])
      simp only [invoke, Memory.load_mapped _ _ _ slot, Outcome.done_bind]
      exact cprintf_reports enough onScreen maps

-- argv[argc] = 0, before the first word
def emptied (junk : Nat → Nat) : Argv :=
  Memory.set { mapped := fun i => decide (i < maxargs), value := junk } 0 0

theorem emptied_stored (junk : Nat → Nat) :
    Memory.store Fault.index { mapped := fun i => decide (i < maxargs), value := junk } 0 0 =
      .done (emptied junk) :=
  Memory.store_mapped Fault.index _ 0 0 rfl

section Line

variable (junk : Nat → Nat) {line : List UInt8} {buf : Nat}
  (stored : StringAt s.mem buf line) (inside : buf + line.length < limit)
  (onScreen : s.crtPos < Console.crtSize) (maps : s.mem.Maps s.crtBuf (s.crtBuf + 4000))

include stored inside onScreen maps

omit onScreen maps in
theorem line_parses :
    Parses (Loop.run (parsePass (limit - buf + 1)) (limit - buf + 1)
      { argc := 0, argv := emptied junk, buf, mem := s.mem }) line 0 (emptied junk) buf s.mem :=
  parse_run (limit - buf + 1) (limit - buf + 1) line 0 (emptied junk) buf s.mem stored (Nat.zero_le _)
    (fun _ lt => decide_eq_true lt) (by omega) (by omega)

theorem runcmd_few (few : (words isBlank line).length ≤ maxargs - 1) :
    ∃ (argv : Argv) (mem : Mem), OnlyBlanks line buf s.mem mem ∧
      (∀ i, maxargs ≤ i → argv.value i = junk i) ∧
      argv.value (words isBlank line).length = 0 ∧
      (∀ i word, (words isBlank line)[i]? = some word → StringAt mem (argv.value i) word) ∧
      Runs func (runcmd func junk buf limit tf s) line argv limit tf { s with mem } := by
  let k := (words isBlank line).length
  have slots : ∀ i < maxargs, (emptied junk).mapped i = true := fun i lt => decide_eq_true lt
  obtain ⟨argv', ran, mapped, kept, saved⟩ :=
    (line_parses junk stored inside).fits (by rwa [Nat.zero_add])
  simp only [Nat.zero_add] at ran saved
  let mem := s.mem.blit buf line.length (nulled line)
  have last : k < maxargs := by
    unfold maxargs at *
    omega
  have ended := Memory.store_mapped Fault.index argv' k 0 ((mapped k).trans (slots k last))
  have entry : ∀ i word, (words isBlank line)[i]? = some word →
      StringAt mem ((argv'.set k 0).value i) word ∧
        (argv'.set k 0).value i + word.length < limit := by
    intro i word nth
    obtain ⟨at_entry, inside_line⟩ := saved i word nth
    have earlier : i ≠ k := (List.getElem?_eq_some_iff.1 nth).1.ne
    rw [Memory.set_value, if_neg earlier]
    exact ⟨at_entry, by omega⟩
  refine ⟨argv'.set k 0, mem, onlyBlanks_blit stored _ le_rfl, fun i outside => ?_, ?_,
    fun i word nth => (entry i word nth).1, ?_⟩
  next =>
    have other : i ≠ k := by omega
    have later : i ≠ 0 := by
      unfold maxargs at outside
      omega
    rw [Memory.set_value, if_neg other, kept i (.inr outside), emptied, Memory.set_value,
      if_neg later]
  next => rw [Memory.set_value, if_pos rfl]
  next =>
    have run : runcmd func junk buf limit tf s =
        if k = 0 then .done (0, { s with mem })
        else invoke func k (argv'.set k 0) limit tf { s with mem } commands := by
      simp only [runcmd, emptied_stored, ran, ended, Outcome.done_bind, Outcome.pure_eq, mem, k]
    have slot : (argv'.set k 0).mapped 0 = true := (mapped 0).trans (slots 0 (by decide))
    rw [run]
    exact invoke_runs func (s := { s with mem }) onScreen maps slot entry

theorem runcmd_many (many : maxargs - 1 < (words isBlank line).length) :
    ∃ mem : Mem, OnlyBlanks line buf s.mem mem ∧
      Reports (runcmd func junk buf limit tf s) tooManyArguments [.word maxargs.toUInt32]
        { s with mem } := by
  obtain ⟨n, le, ran⟩ := (line_parses junk stored inside).overflows (by rwa [Nat.zero_add])
  let mem := s.mem.blit buf n (nulled line)
  have run : runcmd func junk buf limit tf s =
      Console.cprintf tooManyArguments [.word maxargs.toUInt32] { s with mem } >>= fun result =>
        .done (0, result.2) := by
    simp only [runcmd, emptied_stored, ran, Outcome.done_bind, Outcome.pure_eq, mem]
  have enough : Consumes (demand .text tooManyArguments.bytes) [.word maxargs.toUInt32] [] :=
    .cons rfl (.nil [])
  refine ⟨mem, onlyBlanks_blit stored n le, ?_⟩
  rw [run]
  exact cprintf_reports (s := { s with mem }) enough onScreen maps

end Line

theorem runcmd_correct (junk : Nat → Nat) (line : List UInt8) (buf limit tf : Nat) (s : Console)
    (stored : StringAt s.mem buf line) (inside : buf + line.length < limit)
    (onScreen : s.crtPos < Console.crtSize) (maps : s.mem.Maps s.crtBuf (s.crtBuf + 4000)) :
    ((words isBlank line).length ≤ maxargs - 1 → ∃ (argv : Argv) (mem : Mem),
      OnlyBlanks line buf s.mem mem ∧
      (∀ i, maxargs ≤ i → argv.value i = junk i) ∧
      argv.value (words isBlank line).length = 0 ∧
      (∀ i word, (words isBlank line)[i]? = some word → StringAt mem (argv.value i) word) ∧
      Runs func (runcmd func junk buf limit tf s) line argv limit tf { s with mem }) ∧
    (maxargs - 1 < (words isBlank line).length → ∃ mem : Mem,
      OnlyBlanks line buf s.mem mem ∧
      Reports (runcmd func junk buf limit tf s) tooManyArguments [.word maxargs.toUInt32]
        { s with mem }) :=
  ⟨runcmd_few func junk stored inside onScreen maps,
    runcmd_many func junk stored inside onScreen maps⟩

end Commands

-- " help me", at 0x1000
def helpMe : List UInt8 := [32, 104, 101, 108, 112, 32, 109, 101]

def typed : Console where
  adapter := .cga
  crtPos := 0
  cgaBg := 0
  cgaFg := 0
  mem := { mapped := fun _ => true, value := fun a => helpMe.getD (a - 0x1000) 0 }
  ports := []

theorem helpMe_runs :
    ∃ s, runcmd (fun command argc _ _ s => .done (if command = .help then argc else 0, s))
      (fun _ => 7) 0x1000 0x1400 0 typed = .done (2, s) := by
  have stored : StringAt typed.mem 0x1000 helpMe :=
    ⟨by decide, by decide, by decide, fun _ _ _ => rfl, by decide⟩
  obtain ⟨argv, mem, -, -, -, -, runs⟩ :=
    (runcmd_correct (fun command argc _ _ s => .done (if command = .help then argc else 0, s))
      (fun _ => 7) helpMe 0x1000 0x1400 0 typed stored (by decide) (by decide)
      fun _ _ _ => rfl).1 (by decide)
  exact ⟨_, runs.named .help (by decide)⟩

end Monitor

end JosLab
