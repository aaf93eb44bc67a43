import JosLab.Kern.ConsoleInit
import JosLab.Kern.InputSession
import JosLab.Kern.Panic
import JosLab.Kern.TestBacktrace
import JosLab.Lib.Memset

set_option autoImplicit false

namespace JosLab.Monitor

open Console Printfmt Kdebug Readline

structure Image where
  link : Symbols
  tables : DebugTables
  calls : Calls
  -- the stack that `i386_init` takes, and where `test_backtrace(5)` returns to in it
  locals : Nat
  toTest : UInt32

-- "6828 decimal is %o octal!\n"
def octalLine : CString :=
  ⟨[54, 56, 50, 56, 32, 100, 101, 99, 105, 109, 97, 108, 32, 105, 115, 32, 37, 111, 32, 111, 99, 116,
    97, 108, 33, 10], by decide⟩

section Startup

variable {δ : Type} (inb : Nat → δ → UInt8 × δ)

-- memset(edata, 0, end - edata), and with it the console driver's own variables
def clearBss (link : Symbols) (df : Bool) (device : δ) (s : Console) :
    Outcome Fault (Machine δ) := do
  let (_, cpu) ← memsetAsm link.edata.toNat 0 (link.end_ - link.edata).toNat { mem := s.mem, df }
  let console := { s with mem := cpu.mem, crtPos := 0, cgaBg := 0, cgaFg := 0 }
  return { device, serialExists := false, shift := 0, console }

def startup (image : Image) (video : Video) (crtc : Crtc) (fuel : Nat) (ebp : UInt32) (df : Bool)
    (device : δ) (s : Console) : Outcome Fault (Inputs δ × Console) := do
  let m ← clearBss image.link df device s
  let m ← consInit inb video crtc m
  let (_, s) ← cprintf octalLine [.word 6828] m.console
  let (frame, s) ← pushFrame image.locals ebp image.toTest [5] s
  let s ← testBacktrace image.calls image.tables fuel 5 frame s
  let { device, serialExists, shift, .. } := m
  return ({ device, serialExists, shift, cons := Cons.zero }, s)

def i386Init (image : Image) (video : Video) (crtc : Crtc) (walk : Nat) (ebp : UInt32) (df : Bool)
    (buf : Nat) (func : Command → Nat → Argv → Nat → Console → Outcome Fault (Int × Console))
    (junk : Inputs δ → Console → Nat → Nat) (polls fuel lines rounds : Nat) (device : δ)
    (s : Console) : Outcome Fault Empty := do
  let (inputs, s) ← startup inb image video crtc walk ebp df device s
  monitors (Inputs.getchar inb polls) buf func junk fuel lines rounds (inputs, s)

def startInputs (device : δ) : Inputs δ where
  device := (inb com1 (inb (com1 + 2) (inb (com1 + 5) device).2).2).2
  serialExists := decide (lineStatus inb device ≠ 0xFF)
  shift := 0
  cons := Cons.zero

end Startup

def octalText : List UInt8 :=
  [54, 56, 50, 56, 32, 100, 101, 99, 105, 109, 97, 108, 32, 105, 115, 32, 49, 53, 50, 53, 52, 32,
    111, 99, 116, 97, 108, 33, 10]

theorem octalLine_prints : printed octalLine [.word 6828] = .done (literally octalText, []) := by
  have digits : Numeric.octal.shown (.word 6828) = [49, 53, 50, 53, 52] := by decide +kernel
  have text : octalText = [54, 56, 50, 56, 32, 100, 101, 99, 105, 109, 97, 108, 32, 105, 115, 32] ++
      (Numeric.octal.shown (.word 6828) ++ [32, 111, 99, 116, 97, 108, 33, 10]) := by
    rw [digits]
    rfl
  rw [printed_iff, text]
  simp only [literally_append]
  exact renders_text [54, 56, 50, 56, 32, 100, 101, 99, 105, 109, 97, 108, 32, 105, 115, 32]
    (by decide) (renders_numeric .octal _
    (renders_last [32, 111, 99, 116, 97, 108, 33, 10] (by decide)))

theorem Placed.kept {buf base top : Nat} {s s' : Console} (placed : Placed s buf)
    (keeps : Keeps base top s s') : Placed s' buf where
  screen a ge lt := by
    rw [keeps.crtBuf] at ge lt
    exact (keeps.mapped a).trans (placed.screen a ge lt)
  line a ge lt := (keeps.mapped a).trans (placed.line a ge lt)
  bound := placed.bound
  apart := by
    rw [keeps.crtBuf]
    exact placed.apart

theorem Fit.keeps {buf : Nat} {origin s : Console} (fit : Fit origin buf s) :
    Keeps buf (buf + buflen) origin s :=
  ⟨fit.adapter, fit.mapped, fit.outside⟩

structure Loaded (image : Image) (video : Video) (buf low high : Nat) (ebp : UInt32)
    (frames : List Frame) (s : Console) : Prop where
  ordered : image.link.edata ≤ image.link.end_
  bss : s.mem.Maps image.link.edata.toNat image.link.end_.toNat
  line : image.link.edata.toNat ≤ buf ∧ buf + buflen ≤ image.link.end_.toNat
  stack : s.mem.Maps low high ∧ 0 < low ∧ high ≤ 2 ^ 32
  below : high ≤ image.link.edata.toNat ∨ image.link.end_.toNat ≤ low
  cell : s.mem.Maps Adapter.cga.crtBuf (Adapter.cga.crtBuf + 2)
  screen : s.mem.Maps video.found.crtBuf (video.found.crtBuf + 4000)
  bss_apart : image.link.end_.toNat ≤ video.found.crtBuf ∨
    video.found.crtBuf + 4000 ≤ image.link.edata.toNat
  stack_apart : high ≤ video.found.crtBuf ∨ video.found.crtBuf + 4000 ≤ low
  chain : Chain s.mem ebp frames
  above : ∀ frame ∈ frames, frame.Above ebp.toNat high
  symbols : ∀ frame ∈ frames, Symbolized image.tables frame.eip
  small : image.tables.stabstr.length < 2 ^ 31
  self : Symbolized image.tables image.calls.toSelf
  trace : Symbolized image.tables image.calls.toTrace
  test : Symbolized image.tables image.toTest
  room : low + (5 * (image.calls.selfLocals + 12) + (image.calls.traceLocals + 20) +
    (image.locals + 12)) ≤ ebp.toNat

section Loaded

variable {image : Image} {video : Video} {buf low high : Nat} {ebp : UInt32} {frames : List Frame}
  {s : Console} (loaded : Loaded image video buf low high ebp frames s)

def cleared (video : Video) (s : Console) : Console :=
  { s with adapter := video.found, crtPos := 0, cgaBg := 0, cgaFg := 0 }

include loaded

theorem Loaded.region : StackRegion low high (cleared video s) where
  positive := loaded.stack.2.1
  maps := loaded.stack.1
  bound := loaded.stack.2.2
  apart := loaded.stack_apart
  screen := loaded.screen
  onScreen := show (0 : UInt16) < crtSize by decide

theorem Loaded.walkable : Walkable image.tables low high ebp frames (cleared video s) where
  region := loaded.region
  chain := loaded.chain
  above := loaded.above
  symbols := loaded.symbols

theorem Loaded.placed {mem : Mem} (mapped : ∀ a, mem.mapped a = s.mem.mapped a) :
    Placed { cleared video s with mem } buf where
  screen a ge lt := (mapped a).trans (loaded.screen a ge lt)
  line a ge lt := by
    have line := loaded.line
    exact (mapped a).trans (loaded.bss a (by omega) (by omega))
  bound := by
    have line := loaded.line
    have below := image.link.end_.toNat_lt
    omega
  apart := by
    have line := loaded.line
    have apart := loaded.bss_apart
    show buf + buflen ≤ video.found.crtBuf ∨ video.found.crtBuf + 4000 ≤ buf
    omega

theorem Loaded.initializes {δ : Type} (inb : Nat → δ → UInt8 × δ) (crtc : Crtc)
    (onScreen : ((cleared video s).crtc crtc).cursor < 2000) (df : Bool) (device : δ) :
    ∃ m, clearBss image.link df device s >>= consInit inb video crtc = .done m ∧
      (⟨m.device, m.serialExists, m.shift, Cons.zero⟩ : Inputs δ) = startInputs inb device ∧
      Keeps image.link.edata.toNat image.link.end_.toNat (cleared video s) m.console ∧
      m.console.crtPos < crtSize ∧
      ∀ power, m.console.com power =
        configured ((s.com power).tx ++ absentText inb device) := by
  have size := UInt32.toNat_sub_of_le _ _ loaded.ordered
  have ordered := UInt32.le_iff_toNat_le.1 loaded.ordered
  have below := image.link.end_.toNat_lt
  obtain ⟨df', filled⟩ := memsetAsm_correct image.link.edata.toNat 0
    (image.link.end_ - image.link.edata).toNat { mem := s.mem, df } (by omega)
    (loaded.bss.narrow le_rfl (by omega))
  generalize zeroed : (s.mem.blit image.link.edata.toNat
    (image.link.end_ - image.link.edata).toNat fun _ => (0 : UInt32).toUInt8) = mem at filled
  have mapped (a : Nat) : mem.mapped a = s.mem.mapped a := by
    rw [← zeroed, Memory.blit_mapped]
  have outside (a : Nat) (out : a < image.link.edata.toNat ∨ image.link.end_.toNat ≤ a) :
      mem.value a = s.mem.value a := by
    rw [← zeroed, Memory.blit_outside _ _ _ _ _ (by omega)]
  have start : clearBss image.link df device s = .done
      ⟨device, false, 0, { s with mem, crtPos := 0, cgaBg := 0, cgaFg := 0 }⟩ := by
    rw [clearBss, filled]
    rfl
  obtain ⟨m, ran, attached, shift, reads, fit, uart⟩ := consInit_printed inb video crtc
    ⟨device, false, 0, { s with mem, crtPos := 0, cgaBg := 0, cgaFg := 0 }⟩
    (fun a ge lt => (mapped a).trans (loaded.cell a ge lt)) (loaded.placed mapped) onScreen
  refine ⟨m, by rw [start, Outcome.done_bind, ran], ?_, ?_, fit.onScreen, uart⟩
  · rw [attached, shift, reads]
    rfl
  exact {
    adapter := fit.adapter
    mapped := fun a => (fit.mapped a).trans (mapped a)
    outside := fun a out off => by
      have line := loaded.line
      rw [fit.outside a (by omega) off]
      exact outside a out }

def Spares (image : Image) (video : Video) (low top : Nat) (s s' : Console) : Prop :=
  ∀ a, (a < image.link.edata.toNat ∨ image.link.end_.toNat ≤ a) → (a < low ∨ top ≤ a) →
    (a < video.found.crtBuf ∨ video.found.crtBuf + 4000 ≤ a) → s'.mem.value a = s.mem.value a

theorem Loaded.prints {δ : Type} (inb : Nat → δ → UInt8 × δ) (crtc : Crtc)
    (onScreen : ((cleared video s).crtc crtc).cursor < 2000) (df : Bool) (device : δ) (walk : Nat)
    (enough : 7 + frames.length < walk) :
    ∃ s' inner, startup inb image video crtc walk ebp df device s =
        .done (startInputs inb device, s') ∧
      inner.map (fun frame => (frame.eip, frame.arg1)) =
        image.calls.made 5 ++ [(image.toTest, 5)] ∧
      s'.adapter = video.found ∧ Placed s' buf ∧ s'.crtPos < crtSize ∧ Chain s'.mem ebp frames ∧
      Spares image video low ebp.toNat s s' ∧
      ∀ power, s'.com power = configured ((s.com power).tx ++ (absentText inb device ++
        (octalText ++ (descent 5 ++ (backtraceText image.tables (inner ++ frames) ++
          ascent 5))).flatMap spread)) := by
  obtain ⟨m, begun, inputs, keeps, inside, uart⟩ := loaded.initializes inb crtc onScreen df
    device
  have room := loaded.room
  have line := loaded.line
  have below := loaded.below
  have top := loaded.chain.inside (by omega) loaded.above
  have apart : high ≤ image.link.edata.toNat ∨ image.link.end_.toNat ≤ ebp.toNat := by omega
  have placed : Placed m.console buf := (loaded.placed fun _ => rfl).kept keeps
  obtain ⟨s₂, banner, printed⟩ := cprintf_literally placed (Fit.refl buf inside) octalLine_prints
  have keeps₂ := keeps.trans (printed.fit.keeps.widen line.1 line.2)
  have walkable₂ := loaded.walkable.kept keeps₂ printed.fit.onScreen (by omega) apart
  obtain ⟨frame, s₃, pushed, size, pushing, arg, walkable₃⟩ :=
    walkable₂.pushes image.locals image.toTest 5 [] loaded.test (by simp; omega)
  simp only [List.length_cons, List.length_nil] at size
  obtain ⟨s₄, inner, nested, made, within⟩ := testBacktrace_nests loaded.small loaded.self
    loaded.trace 5 walkable₃ (by omega) walk (by simp; omega)
  have last := pushing.append (within.widen le_rfl (by omega))
  refine ⟨s₄, inner ++ [frameOf s₃.mem frame], ?_, ?_, ?_, ?_, last.onScreen, ?_, ?_, ?_⟩
  · have five : ((5 : Nat) : Int) = 5 := rfl
    have restart : startup inb image video crtc walk ebp df device s =
        (clearBss image.link df device s >>= consInit inb video crtc) >>= fun m => do
          let (_, s) ← cprintf octalLine [.word 6828] m.console
          let (frame, s) ← pushFrame image.locals ebp image.toTest [5] s
          let s ← testBacktrace image.calls image.tables walk 5 frame s
          return (⟨m.device, m.serialExists, m.shift, Cons.zero⟩, s) := by
      rw [Outcome.bind_assoc]
      rfl
    rw [five] at nested
    rw [restart, begun]
    simp only [Outcome.done_bind, banner, pushed, nested, Outcome.pure_eq, inputs]
  · rw [List.map_append, made, List.map_singleton, arg]
  · exact (last.toKeeps.adapter.trans printed.fit.adapter).trans keeps.adapter
  · exact (placed.kept printed.fit.keeps).kept last.toKeeps
  · exact (walkable₂.kept last.toKeeps last.onScreen (by omega) (.inr le_rfl)).chain
  · intro a bss stack screen
    have off : a < s₂.crtBuf ∨ s₂.crtBuf + 4000 ≤ a := by
      rw [keeps₂.crtBuf]
      exact screen
    rw [last.outside a (by omega) off]
    exact keeps₂.outside a bss screen
  · intro power
    have spoken := com_sends (printed.sends.append last.sends) (uart power)
    rw [List.append_assoc] at spoken
    simpa using spoken

theorem Loaded.stacked (origin : Console) (adapter : origin.adapter = video.found)
    (chain : Chain origin.mem ebp frames) :
    Stack origin buf image.tables ebp frames where
  chain := chain
  clear := by
    intro frame member i lt
    have line := loaded.line
    have below := loaded.below
    have bound := loaded.stack.2.2
    have apart := loaded.stack_apart
    have room := loaded.room
    have above := loaded.above frame member
    unfold Frame.Above at above
    rw [wrap_of_lt _ (by omega), Console.crtBuf, adapter]
    omega
  symbols := loaded.symbols
  small := loaded.small

theorem Loaded.answers {δ : Type} (inb : Nat → δ → UInt8 × δ) (crtc : Crtc)
    (onScreen : ((cleared video s).crtc crtc).cursor < 2000) (df : Bool) (device : δ) (walk : Nat)
    (enough : 7 + frames.length < walk) (listing : List (List UInt8) → List UInt8)
    (junk : Inputs δ → Console → Nat → Nat) (polls fuel : Nat) (entries : List Entry)
    (asks : ∀ entry ∈ entries, Asks Unlisted entry.line)
    (short : ∀ entry ∈ entries, entry.keys.length < fuel) {last : Inputs δ}
    (yields : Yields (Inputs.getchar inb polls) (startInputs inb device)
      (entries.flatMap Entry.strokes) last) :
    ∃ s' inner, inner.map (fun frame => (frame.eip, frame.arg1)) =
        image.calls.made 5 ++ [(image.toTest, 5)] ∧
      Spares image video low ebp.toNat s s' ∧
      (∀ power, s'.com power = configured ((s.com power).tx ++ (absentText inb device ++
        (octalText ++ (descent 5 ++ (backtraceText image.tables (inner ++ frames) ++ (ascent 5 ++
          (welcome.bytes ++ (typeHelp.bytes ++ entries.flatMap (Entry.transcript
            (kernelAnswer image.link listing)))))))).flatMap spread))) ∧
      ∀ lines rounds, i386Init inb image video crtc walk ebp df buf
          (func image.link image.tables walk ebp) junk polls fuel (entries.length + lines) (rounds + 1)
          device s =
        Loop.run (monitorPass (Inputs.getchar inb polls) buf (func image.link image.tables walk ebp)
          junk fuel 0) lines (last, s') >>=
        monitors (Inputs.getchar inb polls) buf (func image.link image.tables walk ebp) junk fuel
          (entries.length + lines) rounds := by
  obtain ⟨s₁, inner, started, made, adapter, placed, inside, chain, spares, uart⟩ :=
    loaded.prints inb crtc onScreen df device walk enough
  have goes : ∀ entry ∈ entries, 0 ≤ entry.result (kernelAnswer image.link listing) := by
    intro entry _
    exact (kernelAnswer_result _ _ _).symm.le
  obtain ⟨s₂, printed, runs⟩ := session_waits placed
    (func_answers placed image.link image.tables walk ebp listing) junk fuel 0 entries asks short
    goes yields (Fit.refl buf inside)
  refine ⟨s₂, inner, made, ?_, fun power => ?_, fun lines rounds => ?_⟩
  · intro a bss stack screen
    have line := loaded.line
    rw [printed.fit.outside a (by omega) (by rw [Console.crtBuf, adapter]; exact screen)]
    exact spares a bss stack screen
  · rw [com_sends printed.sends (uart power)]
    simp only [List.flatMap_append, List.append_assoc]
  · rw [i386Init, started, Outcome.done_bind, ← runs lines]
    exact monitors_succ ..

end Loaded

end JosLab.Monitor
