import JosLab.Kern.MonitorSession

set_option autoImplicit false

namespace JosLab.Monitor

open Console Printfmt Readline Words

theorem prompt_prints :
    printed stringFormat [.str (some (prompt.bytes ++ [0]))] =
      .done (prompt.bytes.map charInt, []) := by
  decide +kernel

namespace Entry

def transcript (answer : Answer) (entry : Entry) : List UInt8 :=
  prompt.bytes ++ (entry.echo ++ answer.reply (request entry.line))

def result (answer : Answer) (entry : Entry) : Int := answer.result (request entry.line)

theorem foldl_keep_length (keys : List Int) (line : List UInt8) (room : line.length < buflen) :
    (keys.foldl keep line).length < buflen := by
  induction keys generalizing line with
  | nil => exact room
  | cons c rest ih =>
    apply ih
    unfold keep
    split
    next =>
      rw [List.length_dropLast]
      omega
    split
    next more =>
      rw [List.length_append, List.length_singleton]
      omega
    next => exact room

theorem line_room (entry : Entry) : entry.line.length < buflen :=
  foldl_keep_length entry.keys [] (Nat.zero_lt_succ _)

end Entry

section Source

variable {κ : Type} {getchar : κ → Console → Outcome Fault (Int × κ × Console)} {origin : Console}
  {buf : Nat} (placed : Placed origin buf)

include placed

theorem showPrompt_printed {s : Console} (fit : Fit origin buf s) :
    ∃ s', showPrompt (some (prompt.bytes ++ [0])) s = .done s' ∧
      Printed origin buf s s' prompt.bytes := by
  obtain ⟨s', ran, shown⟩ := cprintf_printed placed fit prompt_prints
  rw [charInts_low] at shown
  exact ⟨s', by simp [showPrompt, ran], shown⟩

theorem read_keys (keys : List Int) (stop : Int) (newline : stop = 10 ∨ stop = 13)
    (editing : ∀ c ∈ keys, Editing c) {source last : κ}
    (yields : Yields getchar source (keys ++ [stop]) last) {t : Typing} {line : List UInt8}
    (fit : Fit origin buf t.console) (holds : Held buf t line) (fuel : Nat)
    (enough : keys.length < fuel) :
    ∃ s', Loop.run (readPass getchar buf) fuel (source, t) = .done (some buf, last, s') ∧
      StringAt s'.mem buf (keys.foldl keep line) ∧
      Printed origin buf t.console s' (echoes line keys ++ [10]) := by
  induction keys generalizing source t line fuel with
  | nil =>
    obtain ⟨fuel, rfl⟩ := Loop.one_more enough
    cases yields with
    | key got more =>
      cases more
      obtain ⟨s', ended, stored, printed⟩ := readlineKeyAt_ends placed fit holds newline
      exact ⟨s', Loop.run_leave fuel (by simp [readPass, got, ended]), stored, printed⟩
  | cons c keys ih =>
    rw [List.length_cons] at enough
    obtain ⟨fuel, rfl⟩ := Loop.one_more enough
    cases yields with
    | @key _ next _ _ _ got more =>
      obtain ⟨t', went, holds', printed⟩ :=
        readlineKeyAt_goes placed fit holds (editing c (by simp))
      have step : readPass getchar buf (source, t) = .done (.again (next, t')) := by
        simp [readPass, got, went]
      obtain ⟨s', ran, stored, rest⟩ := ih (fun c member => editing c (by simp [member])) more
        printed.fit holds' fuel (by omega)
      refine ⟨s', (Loop.run_again fuel step).trans ran, stored, ?_⟩
      rw [echoes, List.append_assoc]
      exact printed.append rest

theorem readline_reads (entry : Entry) {source last : κ}
    (yields : Yields getchar source entry.strokes last) {s : Console} (fit : Fit origin buf s)
    (fuel : Nat) (enough : entry.keys.length < fuel) :
    ∃ s', readline getchar buf fuel (some (prompt.bytes ++ [0])) source s =
        .done (some buf, last, s') ∧
      StringAt s'.mem buf entry.line ∧
      Printed origin buf s s' (prompt.bytes ++ entry.echo) := by
  obtain ⟨shown, ran, printed⟩ := showPrompt_printed placed fit
  obtain ⟨s', read, stored, echoed⟩ := read_keys placed entry.keys entry.stop entry.newline
    entry.editing yields printed.fit (Held.start buf shown) fuel enough
  refine ⟨s', ?_, stored, printed.append echoed⟩
  rw [readline, ran, Outcome.done_bind]
  exact read

-- With a buffer of its own or with one in the console's memory, `readline` reads the same line.
theorem readline_agrees (entry : Entry) (rest : List Int) {source last : κ}
    (yields : Yields getchar source entry.strokes last) (line : Buf)
    (mapped : ∀ i < buflen, line.mapped i = true) {s : Console} (fit : Fit origin buf s)
    (fuel : Nat) (enough : entry.keys.length < fuel) :
    ∃ line' s₁ s₂, Readline.readline (some (prompt.bytes ++ [0])) (entry.strokes ++ rest) line s =
        .done (some line', s₁) ∧
      readline getchar buf fuel (some (prompt.bytes ++ [0])) source s =
        .done (some buf, last, s₂) ∧
      StringAt s₂.mem buf (text line') := by
  have terminated : ∀ p, some (prompt.bytes ++ [0]) = some p → 0 ∈ p := by
    rintro p ⟨⟩
    simp
  obtain ⟨line', s₁, kept, result⟩ :=
    readline_keeps (some (prompt.bytes ++ [0])) terminated entry.keys rest entry.stop entry.editing
      entry.newline line mapped s fit.onScreen (fit.screen placed)
  obtain ⟨s₂, read, stored, -⟩ := readline_reads placed entry yields fit fuel enough
  refine ⟨line', s₁, s₂, ?_, read, ?_⟩
  · rw [Entry.strokes, List.append_assoc]
    exact kept
  · rw [result]
    exact stored

variable {func : Command → Nat → Argv → Nat → Console → Outcome Fault (Int × Console)}
  {answer : Answer}

section Asked

variable {asked : Command → Prop} (answers : AnswersTo origin buf func asked answer)
  (junk : κ → Console → Nat → Nat) (fuel tf : Nat)

include answers

theorem monitorPass_answers (entry : Entry) (asks : Asks asked entry.line) {source last : κ}
    (yields : Yields getchar source entry.strokes last) {s : Console} (fit : Fit origin buf s)
    (enough : entry.keys.length < fuel) :
    ∃ s', Printed origin buf s s' (entry.transcript answer) ∧
      monitorPass getchar buf func junk fuel tf (source, s) =
        if entry.result answer < 0 then .done (.leave (last, s'))
        else .done (.again (last, s')) := by
  obtain ⟨read, ran, stored, echoed⟩ := readline_reads placed entry yields fit fuel enough
  obtain ⟨s', replied, printed⟩ := runcmd_replies (junk last read) placed echoed.fit stored
    entry.line_room answers asks tf
  refine ⟨s', ?_, ?_⟩
  · rw [Entry.transcript, ← List.append_assoc]
    exact echoed.append printed
  · simp only [monitorPass, ran, replied, Outcome.done_bind, Outcome.pure_eq]
    rfl

def answered (answer : Answer) : List Entry → List Entry
  | [] => []
  | entry :: rest => if entry.result answer < 0 then [entry] else entry :: answered answer rest

theorem loop_answers (entries : List Entry) (asks : ∀ entry ∈ entries, Asks asked entry.line)
    (short : ∀ entry ∈ entries, entry.keys.length < fuel) {source last : κ}
    (yields : Yields getchar source (entries.flatMap Entry.strokes) last) {s : Console}
    (fit : Fit origin buf s) :
    ∃ source' s', Yields getchar source ((answered answer entries).flatMap Entry.strokes) source' ∧
      Printed origin buf s s' ((answered answer entries).flatMap (Entry.transcript answer)) ∧
      ∀ more, Loop.run (monitorPass getchar buf func junk fuel tf) (entries.length + more)
          (source, s) =
        if ∀ entry ∈ entries, 0 ≤ entry.result answer then
          Loop.run (monitorPass getchar buf func junk fuel tf) more (source', s')
        else .done (source', s') := by
  induction entries generalizing source s with
  | nil => exact ⟨source, s, .nil source, ⟨fit, .nil s⟩, fun more => by simp⟩
  | cons entry rest ih =>
    rw [List.flatMap_cons] at yields
    obtain ⟨next, typed, later⟩ := yields.split
    obtain ⟨s', printed, pass⟩ := monitorPass_answers placed answers junk fuel tf entry
      (asks entry (by simp)) typed fit (short entry (by simp))
    by_cases stops : entry.result answer < 0
    next =>
      rw [if_pos stops] at pass
      have some : ¬ ∀ other ∈ entry :: rest, 0 ≤ other.result answer := by
        intro all
        have goes := all entry (by simp)
        omega
      simp only [answered, if_pos stops, if_neg some, List.flatMap_cons, List.flatMap_nil,
        List.append_nil]
      refine ⟨next, s', typed, printed, fun more => ?_⟩
      rw [List.length_cons, Nat.add_right_comm]
      exact Loop.run_leave _ pass
    next =>
      rw [if_neg stops] at pass
      obtain ⟨source', last', typed', printed', runs⟩ :=
        ih (fun other member => asks other (by simp [member]))
          (fun other member => short other (by simp [member])) later printed.fit
      have goes : (∀ other ∈ entry :: rest, 0 ≤ other.result answer) ↔
          ∀ other ∈ rest, 0 ≤ other.result answer := by
        simp only [List.mem_cons, forall_eq_or_imp]
        exact and_iff_right (by omega)
      simp only [answered, if_neg stops, goes, List.flatMap_cons]
      refine ⟨source', last', typed.append typed', printed.append printed', fun more => ?_⟩
      rw [List.length_cons, Nat.add_right_comm, Loop.run_again _ pass]
      exact runs more

theorem session_printed (entries : List Entry) (asks : ∀ entry ∈ entries, Asks asked entry.line)
    (short : ∀ entry ∈ entries, entry.keys.length < fuel) {source last : κ}
    (yields : Yields getchar source (entries.flatMap Entry.strokes) last) {s : Console}
    (fit : Fit origin buf s) :
    ∃ source' s', Yields getchar source ((answered answer entries).flatMap Entry.strokes) source' ∧
      Printed origin buf s s' (welcome.bytes ++ (typeHelp.bytes ++
        (answered answer entries).flatMap (Entry.transcript answer))) ∧
      ∀ more, monitor getchar buf func junk fuel (entries.length + more) tf source s =
        if ∀ entry ∈ entries, 0 ≤ entry.result answer then
          Loop.run (monitorPass getchar buf func junk fuel tf) more (source', s')
        else .done (source', s') := by
  obtain ⟨greeted, first, welcomed⟩ :=
    cprintf_plain placed fit (f := welcome) (by decide) []
  obtain ⟨ready, second, helped⟩ :=
    cprintf_plain placed welcomed.fit (f := typeHelp) (by decide) []
  obtain ⟨source', s', typed, printed, runs⟩ :=
    loop_answers placed answers junk fuel tf entries asks short yields helped.fit
  refine ⟨source', s', typed, welcomed.append (helped.append printed), fun more => ?_⟩
  simp only [← runs more, monitor, first, second, Outcome.done_bind]

omit placed answers in
theorem answered_all (entries : List Entry)
    (goes : ∀ entry ∈ entries, 0 ≤ entry.result answer) : answered answer entries = entries := by
  induction entries with
  | nil => rfl
  | cons entry rest ih =>
    have first := goes entry (by simp)
    rw [answered, if_neg (by omega), ih fun other member => goes other (by simp [member])]

-- Lines that all leave the monitor running: it goes on behind the last of them.
theorem session_waits (entries : List Entry) (asks : ∀ entry ∈ entries, Asks asked entry.line)
    (short : ∀ entry ∈ entries, entry.keys.length < fuel)
    (stays : ∀ entry ∈ entries, 0 ≤ entry.result answer) {source last : κ}
    (yields : Yields getchar source (entries.flatMap Entry.strokes) last) {s : Console}
    (fit : Fit origin buf s) :
    ∃ s', Printed origin buf s s' (welcome.bytes ++ (typeHelp.bytes ++
        entries.flatMap (Entry.transcript answer))) ∧
      ∀ more, monitor getchar buf func junk fuel (entries.length + more) tf source s =
        Loop.run (monitorPass getchar buf func junk fuel tf) more (last, s') := by
  obtain ⟨source', s', typed, printed, runs⟩ :=
    session_printed placed answers junk fuel tf entries asks short yields fit
  rw [answered_all entries stays] at typed printed
  have same := typed.unique s yields
  subst same
  refine ⟨s', printed, fun more => ?_⟩
  rw [runs more, if_pos stays]

end Asked

variable (answers : Answers origin buf func answer) (junk : κ → Console → Nat → Nat) (fuel tf : Nat)

include answers

theorem monitor_session (entries : List Entry)
    (short : ∀ entry ∈ entries, entry.keys.length < fuel) {source last : κ}
    (yields : Yields getchar source (entries.flatMap Entry.strokes) last) {s : Console}
    (fit : Fit origin buf s) :
    ∃ source' s', Yields getchar source ((answered answer entries).flatMap Entry.strokes) source' ∧
      Fit origin buf s' ∧
      (∀ port, port = com1 ∨ port = lptData → transmitted port s' = transmitted port s ++
        (welcome.bytes ++ (typeHelp.bytes ++
          (answered answer entries).flatMap (Entry.transcript answer))).flatMap spread) ∧
      ∀ more, monitor getchar buf func junk fuel (entries.length + more) tf source s =
        if ∀ entry ∈ entries, 0 ≤ entry.result answer then
          Loop.run (monitorPass getchar buf func junk fuel tf) more (source', s')
        else .done (source', s') := by
  obtain ⟨source', s', typed, printed, runs⟩ :=
    session_printed placed (answers.only fun _ => True) junk fuel tf entries
      (fun _ _ _ _ _ => trivial) short yields fit
  exact ⟨source', s', typed, printed.fit,
    fun port device => transmitted_spread port device _ printed.sends, runs⟩

end Source

def pop : List Int → Console → Outcome Fault (Int × List Int × Console)
  | c :: rest, s => .done (c, rest, s)
  | [], _ => .spin

theorem pop_yields (keys source last : List Int) :
    Yields pop source keys last ↔ source = keys ++ last := by
  constructor
  next =>
    intro yields
    induction yields with
    | nil source => rfl
    | @key source next last c rest got more ih =>
      cases source with
      | nil => cases got typed
      | cons c' source =>
        cases got typed
        rw [ih]
        rfl
  next =>
    rintro rfl
    induction keys with
    | nil => exact .nil last
    | cons c keys ih => exact .key (fun _ => rfl) ih

def leaving : Answer := ⟨fun _ _ => [], fun command _ => if command = .kerninfo then -1 else 0⟩

def helpEntry : Entry := ⟨[104, 101, 108, 112], 10, by decide, by decide⟩

def kerninfoEntry : Entry := ⟨[107, 101, 114, 110, 105, 110, 102, 111], 13, by decide, by decide⟩

theorem leaving_session :
    ∃ s', monitor pop 0x2000
        (fun command _ _ _ s => .done (if command = .kerninfo then -1 else 0, s)) (fun _ _ _ => 7) 9 3
        0 ([helpEntry, kerninfoEntry, helpEntry].flatMap Entry.strokes) typed =
      .done (helpEntry.strokes, s') := by
  have placed : Placed typed 0x2000 :=
    ⟨fun _ _ _ => rfl, fun _ _ _ => rfl, by decide, .inl (by decide)⟩
  have answers : Answers typed 0x2000
      (fun command _ _ _ s => .done (if command = .kerninfo then -1 else 0, s)) leaving :=
    fun command args argv tf s fit _ => ⟨s, rfl, fit, .nil s⟩
  have yields := (pop_yields _ _ []).2 (List.append_nil
    ([helpEntry, kerninfoEntry, helpEntry].flatMap Entry.strokes)).symm
  obtain ⟨source, s', typed_keys, -, -, runs⟩ := monitor_session placed answers (fun _ _ _ => 7) 9 0
    [helpEntry, kerninfoEntry, helpEntry] (by decide) yields (Fit.refl 0x2000 (by decide))
  have left : source = helpEntry.strokes := by
    have split : [helpEntry, kerninfoEntry].flatMap Entry.strokes ++ helpEntry.strokes =
        [helpEntry, kerninfoEntry].flatMap Entry.strokes ++ source :=
      (pop_yields _ _ _).1 typed_keys
    exact (List.append_cancel_left split).symm
  exact ⟨s', left ▸ runs 0⟩

end JosLab.Monitor
