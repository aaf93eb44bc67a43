import JosLab.Kern.MonitorSafety

set_option autoImplicit false

namespace JosLab.Monitor

open Console Printfmt Readline

-- "kernel panic at %s:%d: "
def panicLine : CString :=
  ⟨[107, 101, 114, 110, 101, 108, 32, 112, 97, 110, 105, 99, 32, 97, 116, 32, 37, 115, 58, 37, 100,
    58, 32], by decide⟩

-- "kernel warning at %s:%d: "
def warnLine : CString :=
  ⟨[107, 101, 114, 110, 101, 108, 32, 119, 97, 114, 110, 105, 110, 103, 32, 97, 116, 32, 37, 115, 58,
    37, 100, 58, 32], by decide⟩

def newline : CString := ⟨[10], by decide⟩

structure Site where
  file : List UInt8
  noNul : 0 ∉ file
  line : Int

def report (header : CString) (site : Site) (fmt : CString) (ap : List Arg) (s : Console) :
    Outcome Fault Console := do
  let (_, s) ← cprintf header [.str (some (site.file ++ [0])), .word (UInt32.ofInt site.line)] s
  let (_, s) ← vcprintf fmt ap s
  let (_, s) ← cprintf newline [] s
  return s

def warn (site : Site) (fmt : CString) (ap : List Arg) (s : Console) : Outcome Fault Console :=
  report warnLine site fmt ap s

def panicked (site : Site) (fmt : CString) (ap : List Arg) (panicstr : Option CString)
    (s : Console) : Outcome Fault (Option CString × Console) := do
  match panicstr with
  | some _ => return (panicstr, s)
  | none => return (some fmt, ← report panicLine site fmt ap s)

section Loop

variable {κ : Type} (getchar : κ → Console → Outcome Fault (Int × κ × Console)) (buf : Nat)
  (func : Command → Nat → Argv → Nat → Console → Outcome Fault (Int × Console))
  (junk : κ → Console → Nat → Nat) (fuel lines : Nat)

def monitorsPass (state : κ × Console) : Outcome Fault (Pass (κ × Console) Empty) := do
  return .again (← monitor getchar buf func junk fuel lines 0 state.1 state.2)

-- while (1) monitor(NULL);
def monitors (rounds : Nat) (state : κ × Console) : Outcome Fault Empty :=
  Loop.run (monitorsPass getchar buf func junk fuel lines) rounds state

def panic (rounds : Nat) (site : Site) (fmt : CString) (ap : List Arg) (panicstr : Option CString)
    (source : κ) (s : Console) : Outcome Fault Empty := do
  let (_, s) ← panicked site fmt ap panicstr s
  monitors getchar buf func junk fuel lines rounds (source, s)

theorem monitors_succ (rounds : Nat) (source : κ) (s : Console) :
    monitors getchar buf func junk fuel lines (rounds + 1) (source, s) =
      monitor getchar buf func junk fuel lines 0 source s >>=
        monitors getchar buf func junk fuel lines rounds := by
  simp only [monitors, Loop.run, monitorsPass]
  cases monitor getchar buf func junk fuel lines 0 source s <;> rfl

end Loop

section Reports

variable {origin s : Console} {buf : Nat} (placed : Placed origin buf) (fit : Fit origin buf s)

def siteText (label : List UInt8) (site : Site) : List UInt8 :=
  label ++ (site.file ++ ([58] ++ (Numeric.decimal.shown (.word (UInt32.ofInt site.line)) ++
    [58, 32])))

def panicLabel : List UInt8 :=
  [107, 101, 114, 110, 101, 108, 32, 112, 97, 110, 105, 99, 32, 97, 116, 32]

def warnLabel : List UInt8 :=
  [107, 101, 114, 110, 101, 108, 32, 119, 97, 114, 110, 105, 110, 103, 32, 97, 116, 32]

theorem header_prints (header : CString) (label : List UInt8)
    (format : header.bytes = label ++ (37 :: 115 :: ([58] ++ (37 :: 100 :: [58, 32]))))
    (plain : 37 ∉ label) (site : Site) (short : site.file.length < 2 ^ 31) :
    printed header [.str (some (site.file ++ [0])), .word (UInt32.ofInt site.line)] =
      .done (literally label ++ (site.file.map charInt ++ (literally [58] ++
        (literally (Numeric.decimal.shown (.word (UInt32.ofInt site.line))) ++
          literally [58, 32]))), []) := by
  rw [printed_iff, format]
  exact renders_text label plain (renders_string ⟨site.noNul, [], rfl⟩ short
    (renders_text [58] (by decide) (renders_numeric .decimal _ (renders_last [58, 32] (by decide)))))

def sentBytes (w : List Int) : List UInt8 := w.map fun c => (UInt32.ofInt c).toUInt8

include placed fit

theorem report_printed (header : CString) (label : List UInt8)
    (format : header.bytes = label ++ (37 :: 115 :: ([58] ++ (37 :: 100 :: [58, 32]))))
    (plain : 37 ∉ label) (site : Site) (short : site.file.length < 2 ^ 31) {fmt : CString}
    {ap left : List Arg} {w : List Int} (prints : printed fmt ap = .done (w, left)) :
    ∃ s', report header site fmt ap s = .done s' ∧
      Printed origin buf s s' (siteText label site ++ (sentBytes w ++ [10])) := by
  obtain ⟨s₁, first, shown₁⟩ := cprintf_printed placed fit (header_prints header label format
    plain site short)
  obtain ⟨s₂, second, shown₂⟩ := cprintf_printed placed shown₁.fit prints
  obtain ⟨s₃, third, shown₃⟩ := cprintf_plain placed shown₂.fit (f := newline) (by decide) []
  simp only [List.map_append, literally_low, charInts_low] at shown₁
  refine ⟨s₃, ?_, shown₁.append (shown₂.append shown₃)⟩
  rw [cprintf] at second
  simp only [report, first, second, third, Outcome.done_bind, Outcome.pure_eq]

theorem warn_printed (site : Site) (short : site.file.length < 2 ^ 31) {fmt : CString}
    {ap left : List Arg} {w : List Int} (prints : printed fmt ap = .done (w, left)) :
    ∃ s', warn site fmt ap s = .done s' ∧
      Printed origin buf s s' (siteText warnLabel site ++ (sentBytes w ++ [10])) :=
  report_printed placed fit warnLine warnLabel rfl (by decide) site short prints

end Reports

structure Session (answer : Answer) where
  entries : List Entry
  last : Entry
  stays : ∀ entry ∈ entries, 0 ≤ entry.result answer
  leaves : last.result answer < 0

namespace Session

variable {answer : Answer}

def lines (session : Session answer) : List Entry := session.entries ++ [session.last]

def strokes (session : Session answer) : List Int := session.lines.flatMap Entry.strokes

def text (session : Session answer) : List UInt8 :=
  welcome.bytes ++ (typeHelp.bytes ++ session.lines.flatMap (Entry.transcript answer))

def Fits (asked : Command → Prop) (fuel passes : Nat) (session : Session answer) : Prop :=
  session.lines.length ≤ passes ∧
    ∀ entry ∈ session.lines, entry.keys.length < fuel ∧ Asks asked entry.line

theorem answered_lines (session : Session answer) :
    answered answer session.lines = session.lines := by
  obtain ⟨entries, last, stays, leaves⟩ := session
  simp only [lines]
  induction entries with
  | nil => simp [answered, leaves]
  | cons entry rest ih =>
    have goes : ¬ entry.result answer < 0 := not_lt.2 (stays entry (by simp))
    simp only [List.cons_append, answered, if_neg goes]
    rw [ih fun other member => stays other (by simp [member])]

theorem leaves_lines (session : Session answer) :
    ¬ ∀ entry ∈ session.lines, 0 ≤ entry.result answer := by
  intro all
  have goes := all session.last (by simp [lines])
  have leaves := session.leaves
  omega

end Session

section Sessions

variable {κ : Type} {getchar : κ → Console → Outcome Fault (Int × κ × Console)} {origin : Console}
  {buf : Nat} {func : Command → Nat → Argv → Nat → Console → Outcome Fault (Int × Console)}
  {asked : Command → Prop} {answer : Answer} (placed : Placed origin buf)
  (answers : AnswersTo origin buf func asked answer) (junk : κ → Console → Nat → Nat) (fuel : Nat)

include placed answers

theorem monitors_sessions (lines : Nat) (sessions : List (Session answer))
    (fits : ∀ session ∈ sessions, session.Fits asked fuel lines) {source last : κ}
    (yields : Yields getchar source (sessions.flatMap Session.strokes) last) {s : Console}
    (fit : Fit origin buf s) :
    ∃ s', Printed origin buf s s' (sessions.flatMap Session.text) ∧
      ∀ more, monitors getchar buf func junk fuel lines (sessions.length + more) (source, s) =
        monitors getchar buf func junk fuel lines more (last, s') := by
  induction sessions generalizing source s with
  | nil =>
    cases yields
    exact ⟨s, ⟨fit, .nil s⟩, fun more => by simp⟩
  | cons session rest ih =>
    rw [List.flatMap_cons] at yields
    obtain ⟨next, typed, later⟩ := yields.split
    obtain ⟨count, each⟩ := fits session (by simp)
    obtain ⟨more, enough⟩ := Nat.exists_eq_add_of_le count
    obtain ⟨source', s₁, typed', printed, runs⟩ := session_printed placed answers junk fuel 0
      session.lines (fun entry member => (each entry member).2)
      (fun entry member => (each entry member).1) typed fit
    rw [session.answered_lines] at typed' printed
    have same := typed'.unique s typed
    subst same
    have left := runs more
    rw [if_neg session.leaves_lines, ← enough] at left
    have pass : monitorsPass getchar buf func junk fuel lines (source, s) =
        .done (.again (source', s₁)) := by
      rw [monitorsPass, left]
      rfl
    obtain ⟨s₂, printed', goes⟩ :=
      ih (fun other member => fits other (by simp [member])) later printed.fit
    refine ⟨s₂, printed.append printed', fun more => ?_⟩
    rw [List.length_cons, Nat.add_right_comm, ← goes more]
    exact Loop.run_again _ pass

def openText (answer : Answer) (entries : List Entry) : List UInt8 :=
  welcome.bytes ++ (typeHelp.bytes ++ entries.flatMap (Entry.transcript answer))

theorem monitors_goes_on (more : Nat) (sessions : List (Session answer)) (entries : List Entry)
    (fits : ∀ session ∈ sessions, session.Fits asked fuel (entries.length + more))
    (stays : ∀ entry ∈ entries, 0 ≤ entry.result answer)
    (asks : ∀ entry ∈ entries, Asks asked entry.line)
    (short : ∀ entry ∈ entries, entry.keys.length < fuel) {source last : κ}
    (yields : Yields getchar source
      (sessions.flatMap Session.strokes ++ entries.flatMap Entry.strokes) last) {s : Console}
    (fit : Fit origin buf s) :
    ∃ s', Printed origin buf s s' (sessions.flatMap Session.text ++ openText answer entries) ∧
      ∀ rounds, monitors getchar buf func junk fuel (entries.length + more)
          (sessions.length + (rounds + 1)) (source, s) =
        Loop.run (monitorPass getchar buf func junk fuel 0) more (last, s') >>=
          monitors getchar buf func junk fuel (entries.length + more) rounds := by
  obtain ⟨middle, closed, running⟩ := yields.split
  obtain ⟨s₁, printed, goes⟩ := monitors_sessions placed answers junk fuel (entries.length + more)
    sessions fits closed fit
  obtain ⟨s₂, printed', runs⟩ :=
    session_waits placed answers junk fuel 0 entries asks short stays running printed.fit
  refine ⟨s₂, printed.append printed', fun rounds => ?_⟩
  rw [goes, ← runs more]
  exact monitors_succ ..

theorem panic_monitors (site : Site) (short : site.file.length < 2 ^ 31) {fmt : CString}
    {ap left : List Arg} {w : List Int} (prints : printed fmt ap = .done (w, left))
    (panicstr : Option CString) (more : Nat) (sessions : List (Session answer))
    (entries : List Entry)
    (fits : ∀ session ∈ sessions, session.Fits asked fuel (entries.length + more))
    (stays : ∀ entry ∈ entries, 0 ≤ entry.result answer)
    (asks : ∀ entry ∈ entries, Asks asked entry.line)
    (read : ∀ entry ∈ entries, entry.keys.length < fuel) {source last : κ}
    (yields : Yields getchar source
      (sessions.flatMap Session.strokes ++ entries.flatMap Entry.strokes) last) {s : Console}
    (fit : Fit origin buf s) :
    ∃ s', Fit origin buf s' ∧
      (∀ port, port = com1 ∨ port = lptData → transmitted port s' = transmitted port s ++
        ((if panicstr = none then siteText panicLabel site ++ (sentBytes w ++ [10]) else []) ++
          (sessions.flatMap Session.text ++ openText answer entries)).flatMap spread) ∧
      ∀ rounds, panic getchar buf func junk fuel (entries.length + more)
          (sessions.length + (rounds + 1)) site fmt ap panicstr source s =
        Loop.run (monitorPass getchar buf func junk fuel 0) more (last, s') >>=
          monitors getchar buf func junk fuel (entries.length + more) rounds := by
  cases panicstr with
  | none =>
    obtain ⟨s₁, reported, printed⟩ :=
      report_printed placed fit panicLine panicLabel rfl (by decide) site short prints
    obtain ⟨s', answered, runs⟩ := monitors_goes_on placed answers junk fuel more sessions entries
      fits stays asks read yields printed.fit
    have all := printed.append answered
    refine ⟨s', all.fit, fun port device => transmitted_spread port device _ all.sends,
      fun rounds => ?_⟩
    rw [← runs rounds, panic, panicked, reported]
    rfl
  | some first =>
    obtain ⟨s', answered, runs⟩ := monitors_goes_on placed answers junk fuel more sessions entries
      fits stays asks read yields fit
    exact ⟨s', answered.fit, fun port device => transmitted_spread port device _ answered.sends,
      runs⟩

end Sessions

def initSite : Site := ⟨[107, 101, 114, 110, 47, 105, 110, 105, 116, 46, 99], by decide, 7⟩

theorem hi_panics :
    ∃ s', transmitted com1 s' = ((siteText panicLabel initSite ++
        (sentBytes (literally greeting.bytes) ++ [10])) ++
          (welcome.bytes ++ (typeHelp.bytes ++ ([75, 62, 32] ++
            ([104, 101, 108, 112, 10] ++ commands.flatMap helpText))))).flatMap spread ∧
      ∀ rounds, panic pop 0x2000 (func someSymbols Kdebug.sampleTables 2 stackedFrame.ebp)
          (fun _ _ _ => 7) 9 3 (rounds + 1) initSite greeting [] none helpEntry.strokes stacked =
        Loop.run (monitorPass pop 0x2000 (func someSymbols Kdebug.sampleTables 2 stackedFrame.ebp)
          (fun _ _ _ => 7) 9 0) 2 ([], s') >>=
        monitors pop 0x2000 (func someSymbols Kdebug.sampleTables 2 stackedFrame.ebp)
          (fun _ _ _ => 7) 9 3 rounds := by
  have answers := func_answers stacked_placed someSymbols Kdebug.sampleTables 2 stackedFrame.ebp
    fun _ => []
  have yields := (pop_yields helpEntry.strokes helpEntry.strokes []).2 (List.append_nil _).symm
  obtain ⟨s', -, sent, runs⟩ := panic_monitors stacked_placed answers (fun _ _ _ => 7) 9 initSite
    (by decide) (printed_text greeting (by decide) []) none 2 [] [helpEntry] nofun
    (fun entry _ => (kernelAnswer_result someSymbols _ _).ge) helpEntry_unlisted (by decide) yields
    (Fit.refl 0x2000 (by decide))
  refine ⟨s', (sent com1 (.inl rfl)).trans ?_, fun rounds => ?_⟩
  · decide +kernel
  · have counted := runs rounds
    rwa [List.length_nil, Nat.zero_add] at counted

end JosLab.Monitor
