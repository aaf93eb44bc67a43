import JosLab.Kern.MonitorRun

set_option autoImplicit false

namespace JosLab.Monitor

open Console Printfmt Readline Kdebug

-- "  name  00000000 (virt)  00000000 (phys)\n"
def addressText (label : List UInt8) (address : UInt32) : List UInt8 :=
  label ++ (hexText address ++ (virt ++ (hexText (address - Mmu.kernbaseWord) ++ phys)))

def startLabel : List UInt8 :=
  [32, 32, 95, 115, 116, 97, 114, 116, 32, 32, 32, 32, 32, 32, 32, 32, 32, 32, 32, 32, 32, 32, 32, 32,
    32, 32]

def footprintLabel : List UInt8 :=
  [75, 101, 114, 110, 101, 108, 32, 101, 120, 101, 99, 117, 116, 97, 98, 108, 101, 32, 109, 101, 109,
    111, 114, 121, 32, 102, 111, 111, 116, 112, 114, 105, 110, 116, 58, 32]

def kilobytes : List UInt8 := [75, 66, 10]

def kerninfoText (link : Symbols) : List UInt8 :=
  specialSymbols.bytes ++ ((startLabel ++ (hexText link.start ++ phys)) ++
    (addressText entryLabel link.entry ++ (addressText etextLabel link.etext ++
    (addressText edataLabel link.edata ++ (addressText endLabel link.end_ ++ (footprintLabel ++
    (Numeric.decimal.shown (.word (UInt32.ofInt link.footprint)) ++ kilobytes)))))))

theorem symbolFormat_prints (label : List UInt8) (noNul : 0 ∉ label) (plain : 37 ∉ label)
    (address : UInt32) :
    printed (symbolFormat label noNul) [.word address, .word (address - Mmu.kernbaseWord)] =
      .done (literally (addressText label address), []) := by
  rw [printed_iff]
  simp only [addressText, literally_append]
  exact renders_text label plain (renders_word _ (renders_text virt (by decide)
    (renders_word _ (renders_last phys (by decide)))))

theorem startLine_prints (start : UInt32) :
    printed startLine [.word start] =
      .done (literally (startLabel ++ (hexText start ++ phys)), []) := by
  rw [printed_iff]
  simp only [literally_append]
  exact renders_text startLabel (by decide) (renders_word _ (renders_last phys (by decide)))

theorem footprintLine_prints (v : UInt32) :
    printed footprintLine [.word v] = .done (literally (footprintLabel ++
      (Numeric.decimal.shown (.word v) ++ kilobytes)), []) := by
  rw [printed_iff]
  simp only [literally_append]
  exact renders_text footprintLabel (by decide)
    (renders_numeric .decimal _ (renders_last kilobytes (by decide)))

theorem Symbols.footprint_eq (link : Symbols) (ordered : link.entry ≤ link.end_)
    (small : link.end_.toNat - link.entry.toNat + 1023 < 2 ^ 31) :
    link.footprint = ((link.end_.toNat - link.entry.toNat + 1023) / 1024 : Nat) := by
  have size := UInt32.toNat_sub_of_le link.end_ link.entry ordered
  have kilobyte : (1024 : UInt32).toNat = 1024 := rfl
  have rounded := roundUp_toNat (link.end_ - link.entry) 1024 (by decide)
    (by rw [size, kilobyte]; omega)
  have up : link.end_.toNat - link.entry.toNat + 1024 - 1 =
      link.end_.toNat - link.entry.toNat + 1023 := by omega
  rw [size, kilobyte, up] at rounded
  have le := Nat.div_mul_le_self (link.end_.toNat - link.entry.toNat + 1023) 1024
  rw [Symbols.footprint, rounded, int32_of_lt _ (by omega) (by omega)]
  rw [Nat.cast_mul, Nat.cast_ofNat, Int.mul_tdiv_cancel _ (by decide)]

section Placed

variable {origin : Console} {buf : Nat} (placed : Placed origin buf)

include placed

theorem cprintf_literally {s : Console} (fit : Fit origin buf s) {f : CString} {ap : List Arg}
    {text : List UInt8} (prints : printed f ap = .done (literally text, [])) :
    ∃ s', cprintf f ap s = .done (0, s') ∧ Printed origin buf s s' text := by
  obtain ⟨s', ran, shown⟩ := cprintf_printed placed fit prints
  rw [literally_low] at shown
  exact ⟨s', ran, shown⟩

theorem monKerninfo_printed (link : Symbols) {s : Console} (fit : Fit origin buf s) :
    ∃ s', monKerninfo link s = .done (0, s') ∧ Printed origin buf s s' (kerninfoText link) := by
  obtain ⟨s₁, ran₁, shown₁⟩ := cprintf_plain placed fit (f := specialSymbols) (by decide) []
  obtain ⟨s₂, ran₂, shown₂⟩ := cprintf_literally placed shown₁.fit (startLine_prints link.start)
  obtain ⟨s₃, ran₃, shown₃⟩ := cprintf_literally placed shown₂.fit
    (symbolFormat_prints entryLabel (by decide) (by decide) link.entry)
  obtain ⟨s₄, ran₄, shown₄⟩ := cprintf_literally placed shown₃.fit
    (symbolFormat_prints etextLabel (by decide) (by decide) link.etext)
  obtain ⟨s₅, ran₅, shown₅⟩ := cprintf_literally placed shown₄.fit
    (symbolFormat_prints edataLabel (by decide) (by decide) link.edata)
  obtain ⟨s₆, ran₆, shown₆⟩ := cprintf_literally placed shown₅.fit
    (symbolFormat_prints endLabel (by decide) (by decide) link.end_)
  obtain ⟨s₇, ran₇, shown₇⟩ := cprintf_literally placed shown₆.fit
    (footprintLine_prints (UInt32.ofInt link.footprint))
  refine ⟨s₇, by simp only [monKerninfo, ran₁, ran₂, ran₃, ran₄, ran₅, ran₆, ran₇,
    Outcome.done_bind, Outcome.pure_eq], ?_⟩
  exact shown₁.append (shown₂.append (shown₃.append (shown₄.append (shown₅.append
    (shown₆.append shown₇)))))

theorem monHelp_printed {s : Console} (fit : Fit origin buf s) :
    ∃ s', monHelp s = .done (0, s') ∧ Printed origin buf s s' (commands.flatMap helpText) := by
  obtain ⟨s', played, shown, -⟩ := play_printed placed fit
    (commands.map fun command => .text (helpChars command))
  have bytes : (commands.map fun command => Act.text (helpChars command)).flatMap Act.bytes =
      commands.flatMap helpText := by
    decide +kernel
  rw [bytes] at shown
  exact ⟨s', by rw [monHelp_plays, played, Outcome.done_bind], shown⟩

end Placed

def Frame.Clear (frame : Frame) (origin : Console) (buf : Nat) : Prop :=
  ∀ i < 28, (wrap (frame.ebp.toNat + i) < buf ∨ buf + buflen ≤ wrap (frame.ebp.toNat + i)) ∧
    (wrap (frame.ebp.toNat + i) < origin.crtBuf ∨ origin.crtBuf + 4000 ≤ wrap (frame.ebp.toNat + i))

section Frames

variable {origin s : Console} {buf : Nat} (fit : Fit origin buf s)

include fit

theorem Fit.loadWord {frame : Frame} (clear : frame.Clear origin buf) (offset : UInt32)
    (inside : offset.toNat + 4 ≤ 28) :
    loadWord s.mem (frame.ebp + offset) 4 = loadWord origin.mem (frame.ebp + offset) 4 := by
  have same : loadBytes s.mem (frame.ebp + offset).toNat 4 =
      loadBytes origin.mem (frame.ebp + offset).toNat 4 := by
    refine loadBytes_congr _ 4 (UInt32.toNat_lt _) fun i lt => ⟨fit.mapped _, ?_⟩
    have place : wrap ((frame.ebp + offset).toNat + i) =
        wrap (frame.ebp.toNat + (offset.toNat + i)) := by
      rw [UInt32.toNat_add, wrap, wrap, Nat.mod_add_mod, Nat.add_assoc]
    obtain ⟨line, screen⟩ := clear (offset.toNat + i) (by omega)
    rw [place]
    exact fit.outside _ line screen
  rw [JosLab.loadWord, JosLab.loadWord, same]

theorem Fit.frameAt {frame : Frame} {saved : UInt32} (clear : frame.Clear origin buf)
    (stored : FrameAt origin.mem frame saved) : FrameAt s.mem frame saved := by
  have kept := fit.loadWord clear
  have here := kept 0 (by decide)
  rw [UInt32.add_zero] at here
  exact ⟨here.trans stored.saved, (kept 4 (by decide)).trans stored.eip,
    (kept 8 (by decide)).trans stored.arg1, (kept 12 (by decide)).trans stored.arg2,
    (kept 16 (by decide)).trans stored.arg3, (kept 20 (by decide)).trans stored.arg4,
    (kept 24 (by decide)).trans stored.arg5⟩

theorem Fit.chain {ebp : UInt32} {frames : List Frame} (chain : Chain origin.mem ebp frames)
    (clear : ∀ frame ∈ frames, frame.Clear origin buf) : Chain s.mem ebp frames := by
  induction chain with
  | done => exact .done
  | @frame frame saved frames nonzero stored rest ih =>
    exact .frame nonzero (fit.frameAt (clear frame (by simp)) stored)
      (ih fun frame member => clear frame (by simp [member]))

end Frames

structure Stack (origin : Console) (buf : Nat) (tables : DebugTables) (ebp : UInt32)
    (frames : List Frame) : Prop where
  chain : Chain origin.mem ebp frames
  clear : ∀ frame ∈ frames, frame.Clear origin buf
  symbols : ∀ frame ∈ frames, ∃ rc, debuginfoEip tables frame.eip =
    .done (rc, yields tables frame.eip)
  small : tables.stabstr.length < 2 ^ 31

-- What the kernel's commands print; all of them return 0. A listing depends on more than the line: on
-- the frames of `mon_backtrace` and of its callers.
def kernelAnswer (link : Symbols) (listing : List (List UInt8) → List UInt8) : Answer where
  text command args :=
    match command with
    | .help => commands.flatMap helpText
    | .kerninfo => kerninfoText link
    | .backtrace => listing args
  value _ _ := 0

theorem kernelAnswer_result (link : Symbols) (listing : List (List UInt8) → List UInt8)
    (request : Request) : (kernelAnswer link listing).result request = 0 := by
  cases request <;> rfl

def Unlisted (command : Command) : Prop := command ≠ .backtrace

section Func

variable {origin : Console} {buf : Nat} (placed : Placed origin buf) (link : Symbols)
  (tables : DebugTables) (fuel : Nat) (ebp : UInt32)

include placed

theorem func_answers (listing : List (List UInt8) → List UInt8) :
    AnswersTo origin buf (func link tables fuel ebp) Unlisted (kernelAnswer link listing) := by
  intro command unlisted args argv tf s fit _
  cases command with
  | help => exact monHelp_printed placed fit
  | kerninfo => exact monKerninfo_printed placed link fit
  | backtrace => exact absurd rfl unlisted

theorem func_harmless {frames : List Frame} (stack : Stack origin buf tables ebp frames)
    (enough : frames.length < fuel) : Harmless origin buf (func link tables fuel ebp) := by
  intro command args argv tf s fit _
  cases command with
  | help =>
    obtain ⟨s', ran, printed⟩ := monHelp_printed placed fit
    exact ⟨0, s', ran, le_rfl, printed.fit⟩
  | kerninfo =>
    obtain ⟨s', ran, printed⟩ := monKerninfo_printed placed link fit
    exact ⟨0, s', ran, le_rfl, printed.fit⟩
  | backtrace =>
    have apart : ∀ frame ∈ frames, frame.Apart s.crtBuf := by
      intro frame member i lt
      rw [fit.crtBuf]
      exact (stack.clear frame member i lt).2
    obtain ⟨s', ran, -, ⟨onScreen, p, shown⟩, -⟩ := monBacktrace_plays stack.small
      fit.onScreen (fit.screen placed) (fit.chain stack.chain stack.clear) apart stack.symbols fuel
      enough
    exact ⟨0, s', ran, le_rfl, fit.confined shown.adapter onScreen shown.confined⟩

end Func

theorem stacked_placed : Placed stacked 0x2000 :=
  ⟨fun _ _ _ => rfl, fun _ _ _ => rfl, by decide, .inl (by decide)⟩

theorem stacked_stack : Stack stacked 0x2000 sampleTables stackedFrame.ebp [stackedFrame] where
  chain := .frame (by decide) ⟨rfl, rfl, rfl, rfl, rfl, rfl, rfl⟩ .done
  clear := by
    simp only [List.mem_singleton, forall_eq]
    unfold Frame.Clear
    decide +kernel
  symbols := by
    simp only [List.mem_singleton, forall_eq]
    exact ⟨_, rfl⟩
  small := by decide

theorem helpEntry_unlisted : ∀ entry ∈ [helpEntry], Asks Unlisted entry.line := by
  intro entry member command args asked
  cases List.mem_singleton.1 member
  have help : request helpEntry.line = .call .help [[104, 101, 108, 112]] := by rfl
  rw [help] at asked
  cases asked
  exact nofun

def someSymbols : Symbols := ⟨0x10000c, 0xf010000c, 0xf0101a00, 0xf0112300, 0xf0112960⟩

end JosLab.Monitor
