import JosLab.Kern.ConsoleLine
import JosLab.Kern.MonitorCommands

set_option autoImplicit false

namespace JosLab.Monitor

open Console Printfmt Kdebug

def red : UInt8 := 0x4

def gray : UInt8 := 0x7

-- "entering test_backtrace "
def enteringLabel : List UInt8 :=
  [101, 110, 116, 101, 114, 105, 110, 103, 32, 116, 101, 115, 116, 95, 98, 97, 99, 107, 116, 114,
    97, 99, 101, 32]

-- "leaving test_backtrace "
def leavingLabel : List UInt8 :=
  [108, 101, 97, 118, 105, 110, 103, 32, 116, 101, 115, 116, 95, 98, 97, 99, 107, 116, 114, 97, 99,
    101, 32]

def testFormat (label : List UInt8) (noNul : 0 ∉ label) : CString :=
  ⟨label ++ [37, 100, 10], by simp [noNul]⟩

-- What the compiler makes of the two calls in `test_backtrace`: how much of the stack there is above
-- the callee's frame, and where the callee returns to.
structure Calls where
  selfLocals : Nat
  toSelf : UInt32
  traceLocals : Nat
  toTrace : UInt32

def pushFrame (locals : Nat) (ebp ret : UInt32) (args : List UInt32) (s : Console) :
    Outcome Fault (UInt32 × Console) := do
  let frame := ebp - UInt32.ofNat (locals + (4 * args.length + 8))
  let mem ← storeBytes s.mem frame.toNat ((ebp :: ret :: args).flatMap Cpu.littleEndian)
  return (frame, { s with mem })

def announce (f : CString) (x : Int) (s : Console) : Outcome Fault Console := do
  let s := (s.cgaSetBg gray).cgaSetFg red
  let (_, s) ← cprintf f [.word (UInt32.ofInt x)] s
  return s.cgaReset

def testBacktrace (calls : Calls) (tables : DebugTables) (fuel : Nat) (x : Int) (ebp : UInt32)
    (s : Console) : Outcome Fault Console := do
  let s ← announce (testFormat enteringLabel (by decide)) x s
  let s ←
    if positive : 0 < x then do
      let (frame, s) ← pushFrame calls.selfLocals ebp calls.toSelf [UInt32.ofInt (x - 1)] s
      testBacktrace calls tables fuel (x - 1) frame s
    else do
      let (frame, s) ← pushFrame calls.traceLocals ebp calls.toTrace [0, 0, 0] s
      let (_, s) ← monBacktrace tables fuel frame s
      pure s
  announce (testFormat leavingLabel (by decide)) x s
termination_by x.toNat

structure StackRegion (low high : Nat) (s : Console) : Prop where
  positive : 0 < low
  maps : s.mem.Maps low high
  bound : high ≤ 2 ^ 32
  apart : high ≤ s.crtBuf ∨ s.crtBuf + 4000 ≤ low
  screen : s.mem.Maps s.crtBuf (s.crtBuf + 4000)
  onScreen : s.crtPos < crtSize

structure Keeps (base top : Nat) (s s' : Console) : Prop where
  adapter : s'.adapter = s.adapter
  mapped : ∀ a, s'.mem.mapped a = s.mem.mapped a
  outside : ∀ a, (a < base ∨ top ≤ a) → (a < s.crtBuf ∨ s.crtBuf + 4000 ≤ a) →
    s'.mem.value a = s.mem.value a

structure Within (base top : Nat) (s s' : Console) (bytes : List UInt8) : Prop extends
    Keeps base top s s' where
  onScreen : s'.crtPos < crtSize
  sends : Sends s s' bytes

variable {low high base top : Nat} {s s₁ s₂ : Console} {a b : List UInt8}

theorem Keeps.crtBuf (keeps : Keeps base top s s₁) : s₁.crtBuf = s.crtBuf := by
  rw [Console.crtBuf, keeps.adapter]

theorem Keeps.trans (first : Keeps base top s s₁) (second : Keeps base top s₁ s₂) :
    Keeps base top s s₂ where
  adapter := second.adapter.trans first.adapter
  mapped x := (second.mapped x).trans (first.mapped x)
  outside x out off := by
    rw [second.outside x out (by rw [first.crtBuf]; exact off), first.outside x out off]

theorem Keeps.widen (keeps : Keeps base top s s₁) (above : low ≤ base) (below : top ≤ high) :
    Keeps low high s s₁ where
  adapter := keeps.adapter
  mapped := keeps.mapped
  outside x out off := keeps.outside x (by omega) off

theorem Within.append (first : Within base top s s₁ a) (second : Within base top s₁ s₂ b) :
    Within base top s s₂ (a ++ b) :=
  ⟨first.toKeeps.trans second.toKeeps, second.onScreen, first.sends.append second.sends⟩

theorem Within.widen (within : Within base top s s₁ a) (above : low ≤ base) (below : top ≤ high) :
    Within low high s s₁ a :=
  ⟨within.toKeeps.widen above below, within.onScreen, within.sends⟩

theorem StackRegion.kept (region : StackRegion low high s) (keeps : Keeps base top s s₁)
    (onScreen : s₁.crtPos < crtSize) : StackRegion low high s₁ where
  positive := region.positive
  maps x ge lt := (keeps.mapped x).trans (region.maps x ge lt)
  bound := region.bound
  apart := by
    rw [keeps.crtBuf]
    exact region.apart
  screen x ge lt := by
    rw [keeps.crtBuf] at ge lt
    exact (keeps.mapped x).trans (region.screen x ge lt)
  onScreen := onScreen

theorem StackRegion.within (region : StackRegion low high s) (within : Within base top s s₁ a) :
    StackRegion low high s₁ :=
  region.kept within.toKeeps within.onScreen

def testText (label : List UInt8) (x : Int) : List UInt8 :=
  label ++ (Numeric.decimal.shown (.word (UInt32.ofInt x)) ++ [10])

theorem announce_prints (region : StackRegion low high s) (label : List UInt8) (noNul : 0 ∉ label)
    (plain : 37 ∉ label) (x : Int) :
    ∃ s', announce (testFormat label noNul) x s = .done s' ∧
      ∀ base top, Within base top s s' (testText label x) := by
  have prints : printed (testFormat label noNul) [.word (UInt32.ofInt x)] =
      .done (literally (testText label x), []) := by
    rw [printed_iff]
    simp only [testText, literally_append]
    exact renders_text label plain (renders_numeric .decimal _ (renders_last [10] (by decide)))
  have line := vcprintf_emit prints
  have steady : Steady s s := ⟨region.onScreen, _, paper_shown s⟩
  obtain ⟨s', played, ⟨onScreen, p, shown⟩, sent, -⟩ := play_steady region.screen
    [.setBg gray, .setFg red, .text (literally (testText label x)), .reset] steady
  refine ⟨s', ?_, fun _ _ => ⟨⟨shown.adapter, shown.confined.mapped,
    fun a _ off => shown.confined.outside a off⟩, onScreen, ?_⟩⟩
  · rw [← played]
    simp only [announce, cprintf, line, Outcome.bind_assoc, Outcome.done_bind, Outcome.pure_eq,
      play, List.foldlM_cons, List.foldlM_nil, act]
  · have bytes : [Act.setBg gray, .setFg red, .text (literally (testText label x)), .reset].flatMap
        Act.bytes = testText label x := by
      simp [Act.bytes, literally_low]
    rw [bytes] at sent
    exact sent

def wordAt (mem : Mem) (a : Nat) : UInt32 := word ((List.range 4).map fun i => mem.value (a + i))

def frameOf (mem : Mem) (ebp : UInt32) : Frame where
  ebp := ebp
  eip := wordAt mem (ebp.toNat + 4)
  arg1 := wordAt mem (ebp.toNat + 8)
  arg2 := wordAt mem (ebp.toNat + 12)
  arg3 := wordAt mem (ebp.toNat + 16)
  arg4 := wordAt mem (ebp.toNat + 20)
  arg5 := wordAt mem (ebp.toNat + 24)

theorem frameOf_at (mem : Mem) (ebp : UInt32) (maps : mem.Maps ebp.toNat (ebp.toNat + 28))
    (bound : ebp.toNat + 28 ≤ 2 ^ 32) : FrameAt mem (frameOf mem ebp) (wordAt mem ebp.toNat) := by
  have load (offset : UInt32) (inside : offset.toNat + 4 ≤ 28) :
      loadWord mem (ebp + offset) 4 = .done (wordAt mem (ebp.toNat + offset.toNat)) := by
    have address : (ebp + offset).toNat = ebp.toNat + offset.toNat := by
      rw [UInt32.toNat_add]
      exact Nat.mod_eq_of_lt (by omega)
    rw [loadWord, address, loadBytes_mapped mem _ 4 (by omega) (maps.narrow (by omega) (by omega))]
    rfl
  have here := load 0 (by decide)
  rw [UInt32.add_zero] at here
  exact ⟨here, load 4 (by decide), load 8 (by decide), load 12 (by decide), load 16 (by decide),
    load 20 (by decide), load 24 (by decide)⟩

theorem FrameAt.keep {old new : Mem} {frame : Frame} {saved : UInt32}
    (stored : FrameAt old frame saved)
    (mapped : ∀ a, new.mapped a = old.mapped a)
    (same : ∀ i < 28,
      new.value (wrap (frame.ebp.toNat + i)) = old.value (wrap (frame.ebp.toNat + i))) :
    FrameAt new frame saved := by
  have kept (offset : UInt32) (inside : offset.toNat + 4 ≤ 28) :
      loadWord new (frame.ebp + offset) 4 = loadWord old (frame.ebp + offset) 4 := by
    have bytes : loadBytes new (frame.ebp + offset).toNat 4 =
        loadBytes old (frame.ebp + offset).toNat 4 := by
      refine loadBytes_congr _ 4 (UInt32.toNat_lt _) fun i lt => ⟨mapped _, ?_⟩
      have place : wrap ((frame.ebp + offset).toNat + i) =
          wrap (frame.ebp.toNat + (offset.toNat + i)) := by
        rw [UInt32.toNat_add, wrap, wrap, Nat.mod_add_mod, Nat.add_assoc]
      rw [place]
      exact same _ (by omega)
    rw [loadWord, loadWord, bytes]
  have here := kept 0 (by decide)
  rw [UInt32.add_zero] at here
  exact ⟨here.trans stored.saved, (kept 4 (by decide)).trans stored.eip,
    (kept 8 (by decide)).trans stored.arg1, (kept 12 (by decide)).trans stored.arg2,
    (kept 16 (by decide)).trans stored.arg3, (kept 20 (by decide)).trans stored.arg4,
    (kept 24 (by decide)).trans stored.arg5⟩

def Frame.Above (base high : Nat) (frame : Frame) : Prop :=
  base ≤ frame.ebp.toNat ∧ frame.ebp.toNat + 28 ≤ high

theorem Chain.keep {ebp : UInt32} {frames : List Frame} {least : Nat}
    (chain : Chain s.mem ebp frames) (region : StackRegion low high s) (keeps : Keeps base top s s₁)
    (above : ∀ frame ∈ frames, frame.Above least high) (le : low ≤ least)
    (apart : high ≤ base ∨ top ≤ least) : Chain s₁.mem ebp frames := by
  induction chain with
  | done => exact .done
  | @frame frame saved frames nonzero stored rest ih =>
    have place := above frame (by simp)
    have bound := region.bound
    have screen := region.apart
    unfold Frame.Above at place
    apply Chain.frame nonzero
    · apply stored.keep keeps.mapped
      intro i lt
      rw [wrap_of_lt _ (by omega)]
      exact keeps.outside _ (by omega) (by omega)
    · exact ih fun frame member => above frame (by simp [member])

theorem list_cells (bytes : List UInt8) :
    bytes = (List.range bytes.length).map fun i => bytes.getD i 0 := by
  apply List.ext_getElem
  · simp
  · intro i lt _
    rw [List.getElem_map, List.getElem_range, List.getD_eq_getElem _ _ lt]

theorem flatMap_littleEndian_length (words : List UInt32) :
    (words.flatMap Cpu.littleEndian).length = 4 * words.length := by
  induction words with
  | nil => rfl
  | cons w words ih =>
    rw [List.flatMap_cons, List.length_append, ih, List.length_cons]
    simp only [Cpu.littleEndian, List.length_cons, List.length_nil]
    omega

theorem pushFrame_done (locals : Nat) (ebp ret arg : UInt32) (rest : List UInt32)
    (region : StackRegion low high s) (inside : ebp.toNat ≤ high)
    (room : low + (locals + (4 * (arg :: rest).length + 8)) ≤ ebp.toNat) :
    ∃ frame s', pushFrame locals ebp ret (arg :: rest) s = .done (frame, s') ∧
      frame.toNat + (locals + (4 * (arg :: rest).length + 8)) = ebp.toNat ∧
      Within frame.toNat ebp.toNat s s' [] ∧ wordAt s'.mem frame.toNat = ebp ∧
      (frameOf s'.mem frame).eip = ret ∧ (frameOf s'.mem frame).arg1 = arg := by
  have below := ebp.toNat_lt
  have bound := region.bound
  have apart := region.apart
  have size : (UInt32.ofNat (locals + (4 * (arg :: rest).length + 8))).toNat =
      locals + (4 * (arg :: rest).length + 8) :=
    UInt32.toNat_ofNat_of_lt' (show _ < 2 ^ 32 by omega)
  have le : UInt32.ofNat (locals + (4 * (arg :: rest).length + 8)) ≤ ebp := by
    rw [UInt32.le_iff_toNat_le, size]
    omega
  have frame_at := UInt32.toNat_sub_of_le _ _ le
  rw [size] at frame_at
  generalize place : ebp - UInt32.ofNat (locals + (4 * (arg :: rest).length + 8)) = frame at frame_at
  have length := flatMap_littleEndian_length (ebp :: ret :: arg :: rest)
  have stored := storeBytes_mapped s.mem frame.toNat
    (fun i => ((ebp :: ret :: arg :: rest).flatMap Cpu.littleEndian).getD i 0)
    ((ebp :: ret :: arg :: rest).flatMap Cpu.littleEndian).length
  rw [← list_cells, length] at stored
  simp only [List.length_cons] at stored frame_at room
  have run := stored (by omega) (region.maps.narrow (by omega) (by omega))
  have pushed : pushFrame locals ebp ret (arg :: rest) s = .done (frame, { s with
      mem := s.mem.blit frame.toNat (4 * (rest.length + 1 + 1 + 1)) fun i =>
        ((ebp :: ret :: arg :: rest).flatMap Cpu.littleEndian).getD i 0 }) := by
    simp only [pushFrame, place, run, Outcome.done_bind, Outcome.pure_eq]
  have wordIs (k : Nat) (fits : k + 1 ≤ rest.length + 1 + 1 + 1) (w : UInt32)
      (bytes : (List.range 4).map (fun i =>
        ((ebp :: ret :: arg :: rest).flatMap Cpu.littleEndian).getD (4 * k + i) 0) =
          Cpu.littleEndian w) :
      wordAt (s.mem.blit frame.toNat (4 * (rest.length + 1 + 1 + 1)) fun i =>
        ((ebp :: ret :: arg :: rest).flatMap Cpu.littleEndian).getD i 0) (frame.toNat + 4 * k) =
          w := by
    rw [← word_littleEndian w, ← bytes, wordAt]
    congr 1
    apply List.map_congr_left
    intro i member
    have lt := List.mem_range.1 member
    rw [Nat.add_assoc frame.toNat, Memory.blit_inside _ _ _ _ _ (by omega)]
  have outside (a : Nat) (out : a < frame.toNat ∨ ebp.toNat ≤ a) :
      (s.mem.blit frame.toNat (4 * (rest.length + 1 + 1 + 1)) fun i =>
        ((ebp :: ret :: arg :: rest).flatMap Cpu.littleEndian).getD i 0).value a = s.mem.value a :=
    Memory.blit_outside _ _ _ _ _ (by omega)
  refine ⟨frame, _, pushed, by simp only [List.length_cons]; omega, ?_, wordIs 0 (by omega) ebp rfl,
    wordIs 1 (by omega) ret rfl, wordIs 2 (by omega) arg rfl⟩
  exact ⟨⟨rfl, fun _ => rfl, fun a out _ => outside a out⟩, region.onScreen, .nil s⟩

theorem Chain.inside {mem : Mem} {ebp : UInt32} {frames : List Frame} (chain : Chain mem ebp frames)
    (positive : 0 < ebp.toNat) (above : ∀ frame ∈ frames, frame.Above base high) :
    ebp.toNat + 28 ≤ high := by
  cases chain with
  | done => cases positive
  | frame nonzero stored rest => exact (above _ (by simp)).2

def Symbolized (tables : DebugTables) (eip : UInt32) : Prop :=
  ∃ rc, debuginfoEip tables eip = .done (rc, yields tables eip)

-- The calls that come after `test_backtrace(n)`, innermost first: where each returns to, and its
-- argument. The frame of `test_backtrace(n)` itself is the first of those that were there before.
def Calls.made (calls : Calls) (n : Nat) : List (UInt32 × UInt32) :=
  (calls.toTrace, 0) :: (List.range n).map fun i => (calls.toSelf, UInt32.ofNat i)

def descent : Nat → List UInt8
  | 0 => testText enteringLabel 0
  | n + 1 => testText enteringLabel (n + 1 : Nat) ++ descent n

def ascent : Nat → List UInt8
  | 0 => testText leavingLabel 0
  | n + 1 => ascent n ++ testText leavingLabel (n + 1 : Nat)

def backtraceText (tables : DebugTables) (frames : List Frame) : List UInt8 :=
  stackBacktrace.bytes ++ frames.flatMap (entryText tables)

theorem Chain.push {ebp frame : UInt32} {frames : List Frame} (chain : Chain s.mem ebp frames)
    (region : StackRegion low high s) (within : Within frame.toNat ebp.toNat s s₁ a)
    (low_le : low ≤ frame.toNat) (lt : frame.toNat < ebp.toNat)
    (saved : wordAt s₁.mem frame.toNat = ebp)
    (above : ∀ frame ∈ frames, frame.Above ebp.toNat high) :
    Chain s₁.mem frame (frameOf s₁.mem frame :: frames) ∧
      ∀ other ∈ frameOf s₁.mem frame :: frames, other.Above frame.toNat high := by
  have positive := region.positive
  have bound := region.bound
  have inside := chain.inside (by omega) above
  have nonzero : (frameOf s₁.mem frame).ebp ≠ 0 := by
    intro zero
    have first : frame = 0 := zero
    rw [first, UInt32.toNat_zero] at low_le
    omega
  have stored := frameOf_at s₁.mem frame
    ((region.within within).maps.narrow (by omega) (by omega)) (by omega)
  rw [saved] at stored
  have kept := chain.keep region within.toKeeps above (by omega) (.inr le_rfl)
  refine ⟨.frame nonzero stored kept, ?_⟩
  intro other member
  rcases List.mem_cons.1 member with rfl | rest
  next => exact ⟨le_rfl, show frame.toNat + 28 ≤ high by omega⟩
  next =>
    have place := above other rest
    unfold Frame.Above at place ⊢
    omega

theorem Frame.Above.apart {frame : Frame} (above : frame.Above base high)
    (region : StackRegion low high s) (le : low ≤ base) : frame.Apart s.crtBuf := by
  intro i lt
  have bound := region.bound
  have apart := region.apart
  unfold Frame.Above at above
  rw [wrap_of_lt _ (by omega)]
  omega

variable {tables : DebugTables} {calls : Calls}

structure Walkable (tables : DebugTables) (low high : Nat) (ebp : UInt32) (frames : List Frame)
    (s : Console) : Prop where
  region : StackRegion low high s
  chain : Chain s.mem ebp frames
  above : ∀ frame ∈ frames, frame.Above ebp.toNat high
  symbols : ∀ frame ∈ frames, Symbolized tables frame.eip

theorem Walkable.kept {ebp : UInt32} {frames : List Frame}
    (walkable : Walkable tables low high ebp frames s) (keeps : Keeps base top s s₁)
    (onScreen : s₁.crtPos < crtSize) (le : low ≤ ebp.toNat) (apart : high ≤ base ∨ top ≤ ebp.toNat) :
    Walkable tables low high ebp frames s₁ where
  region := walkable.region.kept keeps onScreen
  chain := walkable.chain.keep walkable.region keeps walkable.above le apart
  above := walkable.above
  symbols := walkable.symbols

theorem Walkable.announces {ebp : UInt32} {frames : List Frame}
    (walkable : Walkable tables low high ebp frames s) (le : low ≤ ebp.toNat)
    (label : List UInt8) (noNul : 0 ∉ label) (plain : 37 ∉ label) (x : Nat) :
    ∃ s', announce (testFormat label noNul) x s = .done s' ∧
      Within low ebp.toNat s s' (testText label x) ∧ Walkable tables low high ebp frames s' := by
  obtain ⟨s', ran, prints⟩ := announce_prints walkable.region label noNul plain x
  have within := prints low ebp.toNat
  exact ⟨s', ran, within, walkable.kept within.toKeeps within.onScreen le (.inr le_rfl)⟩

theorem Walkable.pushes {ebp : UInt32} {frames : List Frame}
    (walkable : Walkable tables low high ebp frames s) (locals : Nat) (ret arg : UInt32)
    (rest : List UInt32) (symbol : Symbolized tables ret)
    (room : low + (locals + (4 * (arg :: rest).length + 8)) ≤ ebp.toNat) :
    ∃ frame s', pushFrame locals ebp ret (arg :: rest) s = .done (frame, s') ∧
      frame.toNat + (locals + (4 * (arg :: rest).length + 8)) = ebp.toNat ∧
      Within low ebp.toNat s s' [] ∧
      ((frameOf s'.mem frame).eip, (frameOf s'.mem frame).arg1) = (ret, arg) ∧
      Walkable tables low high frame (frameOf s'.mem frame :: frames) s' := by
  have inside := walkable.chain.inside (by omega) walkable.above
  obtain ⟨frame, s', pushed, size, pushing, saved, eip, arg_eq⟩ :=
    pushFrame_done locals ebp ret arg rest walkable.region (by omega) room
  obtain ⟨chain, above⟩ := walkable.chain.push walkable.region pushing (by omega) (by omega) saved
    walkable.above
  refine ⟨frame, s', pushed, size, pushing.widen (by omega) le_rfl, by rw [eip, arg_eq],
    walkable.region.within pushing, chain, above, ?_⟩
  intro other member
  rcases List.mem_cons.1 member with rfl | older
  next => exact eip ▸ symbol
  next => exact walkable.symbols other older

theorem Walkable.traces {ebp : UInt32} {frames : List Frame}
    (walkable : Walkable tables low high ebp frames s) (small : tables.stabstr.length < 2 ^ 31)
    (le : low ≤ ebp.toNat) (fuel : Nat) (enough : frames.length < fuel) :
    ∃ s', monBacktrace tables fuel ebp s = .done (0, s') ∧
      ∀ base top, Within base top s s' (backtraceText tables frames) := by
  have region := walkable.region
  obtain ⟨s', traced, -, ⟨onScreen, p, shown⟩, sent, -⟩ := monBacktrace_plays small
    region.onScreen region.screen walkable.chain
    (fun other member => (walkable.above other member).apart region le) walkable.symbols fuel enough
  exact ⟨s', traced, fun base top =>
    ⟨⟨shown.adapter, shown.confined.mapped, fun a _ off => shown.confined.outside a off⟩, onScreen,
      sent⟩⟩

variable (small : tables.stabstr.length < 2 ^ 31) (self : Symbolized tables calls.toSelf)
  (trace : Symbolized tables calls.toTrace)

include small self trace

theorem testBacktrace_nests (n : Nat) {ebp : UInt32} {frames : List Frame}
    (walkable : Walkable tables low high ebp frames s)
    (room : low + (n * (calls.selfLocals + 12) + (calls.traceLocals + 20)) ≤ ebp.toNat) (fuel : Nat)
    (enough : n + 1 + frames.length < fuel) :
    ∃ s' inner, testBacktrace calls tables fuel n ebp s = .done s' ∧
      inner.map (fun frame => (frame.eip, frame.arg1)) = calls.made n ∧
      Within low ebp.toNat s s'
        (descent n ++ (backtraceText tables (inner ++ frames) ++ ascent n)) := by
  induction n generalizing s ebp frames with
  | zero =>
    obtain ⟨s₁, entered, entering, walkable₁⟩ :=
      walkable.announces (by omega) enteringLabel (by decide) (by decide) 0
    obtain ⟨frame, s₂, pushed, size, pushing, made, walkable₂⟩ :=
      walkable₁.pushes calls.traceLocals calls.toTrace 0 [0, 0] trace (by simp; omega)
    simp only [List.length_cons, List.length_nil] at size
    obtain ⟨s₃, traced, tracing⟩ :=
      walkable₂.traces small (by omega) fuel (by simp; omega)
    obtain ⟨s₄, left, leaving⟩ :=
      announce_prints (walkable₂.region.within (tracing low ebp.toNat)) leavingLabel (by decide)
        (by decide) (0 : Nat)
    refine ⟨s₄, [frameOf s₂.mem frame], ?_, by simp [Calls.made, made], ?_⟩
    · have last : ¬ (0 : Int) < (0 : Nat) := by omega
      rw [testBacktrace, entered, Outcome.done_bind, dif_neg last, pushed]
      simp only [Outcome.done_bind, traced]
      exact left
    · exact entering.append (pushing.append ((tracing _ _).append (leaving _ _)))
  | succ n ih =>
    rw [Nat.add_mul, Nat.one_mul] at room
    obtain ⟨s₁, entered, entering, walkable₁⟩ :=
      walkable.announces (by omega) enteringLabel (by decide) (by decide) (n + 1)
    obtain ⟨frame, s₂, pushed, size, pushing, arg, walkable₂⟩ :=
      walkable₁.pushes calls.selfLocals calls.toSelf (UInt32.ofNat n) [] self (by simp; omega)
    simp only [List.length_cons, List.length_nil] at size
    obtain ⟨s₃, inner, called, made, nested⟩ := ih walkable₂ (by omega) (by simp; omega)
    obtain ⟨s₄, left, leaving⟩ := announce_prints (walkable₂.region.within nested) leavingLabel
      (by decide) (by decide) (n + 1 : Nat)
    refine ⟨s₄, inner ++ [frameOf s₂.mem frame], ?_, ?_, ?_⟩
    · have more : (0 : Int) < (n + 1 : Nat) := by omega
      have fewer : ((n + 1 : Nat) : Int) - 1 = n := by omega
      have below := ebp.toNat_lt
      have times := Nat.le_mul_of_pos_right n (show 0 < calls.selfLocals + 12 by omega)
      have word : UInt32.ofInt n = UInt32.ofNat n := ofInt_natCast n (by omega)
      rw [testBacktrace, entered, Outcome.done_bind, dif_pos more, fewer, word, pushed]
      simp only [Outcome.done_bind, called]
      exact left
    · rw [List.map_append, made, List.map_singleton, arg]
      simp [Calls.made, List.range_succ]
    · have all := entering.append (pushing.append
        ((nested.widen le_rfl (by omega)).append (leaving _ _)))
      simpa [descent, ascent] using all

theorem test_backtrace_lists (n : Nat) {ebp : UInt32} {frames : List Frame}
    (region : StackRegion low high s) (chain : Chain s.mem ebp frames)
    (above : ∀ frame ∈ frames, frame.Above ebp.toNat high)
    (symbols : ∀ frame ∈ frames, Symbolized tables frame.eip)
    (room : low + (n * (calls.selfLocals + 12) + (calls.traceLocals + 20)) ≤ ebp.toNat) (fuel : Nat)
    (enough : n + 1 + frames.length < fuel) :
    ∃ s' inner, testBacktrace calls tables fuel n ebp s = .done s' ∧
      inner.map (fun frame => (frame.eip, frame.arg1)) = calls.made n ∧
      (∀ port, port = com1 ∨ port = lptData → transmitted port s' = transmitted port s ++
        (descent n ++ (backtraceText tables (inner ++ frames) ++ ascent n)).flatMap spread) ∧
      ∀ a, (a < low ∨ ebp.toNat ≤ a) → (a < s.crtBuf ∨ s.crtBuf + 4000 ≤ a) →
        s'.mem.value a = s.mem.value a := by
  obtain ⟨s', inner, ran, made, nested⟩ :=
    testBacktrace_nests small self trace n ⟨region, chain, above, symbols⟩ room fuel enough
  exact ⟨s', inner, ran, made, fun port device => transmitted_spread port device _ nested.sends,
    nested.outside⟩

omit small self trace

def shortCalls : Calls := ⟨24, 0xf0100005, 16, 0xf0100005⟩

theorem stacked_region : StackRegion 0x800 0x2000 stacked :=
  ⟨by decide, fun _ _ _ => rfl, by decide, .inl (by decide), fun _ _ _ => rfl, by decide⟩

theorem shortCalls_list :
    ∃ s' inner, testBacktrace shortCalls sampleTables 5 2 0x1000 stacked = .done s' ∧
      inner.map (fun frame => (frame.eip, frame.arg1)) =
        [(0xf0100005, 0), (0xf0100005, 0), (0xf0100005, 1)] ∧
      transmitted com1 s' = (descent 2 ++
        (backtraceText sampleTables (inner ++ [stackedFrame]) ++ ascent 2)).flatMap spread := by
  have self : Symbolized sampleTables shortCalls.toSelf := ⟨_, rfl⟩
  have trace : Symbolized sampleTables shortCalls.toTrace := ⟨_, rfl⟩
  have chain : Chain stacked.mem stackedFrame.ebp [stackedFrame] :=
    .frame (by decide) ⟨rfl, rfl, rfl, rfl, rfl, rfl, rfl⟩ .done
  have above : ∀ frame ∈ [stackedFrame], frame.Above stackedFrame.ebp.toNat 0x2000 := by
    simp only [List.mem_singleton, forall_eq]
    exact ⟨le_rfl, by decide⟩
  have symbols : ∀ frame ∈ [stackedFrame], Symbolized sampleTables frame.eip := by
    simp only [List.mem_singleton, forall_eq]
    exact self
  obtain ⟨s', inner, ran, made, sent, -⟩ := test_backtrace_lists (by decide) self trace 2
    stacked_region chain above symbols (by decide) 5 (by decide)
  exact ⟨s', inner, ran, made, sent com1 (.inl rfl)⟩

end JosLab.Monitor
