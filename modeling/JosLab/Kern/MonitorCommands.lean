import JosLab.Kern.ConsoleActs
import JosLab.Kern.DebugNames
import JosLab.Kern.Monitor
import JosLab.Kern.PrintfScreen
import JosLab.Lib.FormatPieces

set_option autoImplicit false

namespace JosLab

open Printfmt Kdebug

namespace Monitor

def helpText (command : Command) : List UInt8 :=
  command.name.bytes ++ ([32, 45, 32] ++ (command.desc.bytes ++ [10]))

def helpChars (command : Command) : List Int :=
  command.name.bytes.map charInt ++ (literally [32, 45, 32] ++ (command.desc.bytes.map charInt ++
    literally [10]))

theorem helpLine_prints (command : Command) :
    printed helpLine [.str (some (command.name.bytes ++ [0])),
      .str (some (command.desc.bytes ++ [0]))] = .done (helpChars command, []) := by
  have short : command.name.bytes.length < 2 ^ 31 ∧ command.desc.bytes.length < 2 ^ 31 := by
    cases command <;> decide
  rw [printed_iff]
  exact renders_string ⟨command.name.noNul, [], rfl⟩ short.1 (renders_text [32, 45, 32] (by decide)
    (renders_string ⟨command.desc.noNul, [], rfl⟩ short.2 (renders_last [10] (by decide))))

theorem monHelp_plays (s : Console) :
    monHelp s = Console.play (commands.map fun command => .text (helpChars command)) s >>=
      fun s => .done (0, s) := by
  have line (command : Command) (s : Console) := Console.vcprintf_emit (helpLine_prints command) s
  rw [Console.play, List.foldlM_map]
  simp only [monHelp, Console.cprintf, line, Console.act, Outcome.bind_assoc, Outcome.done_bind,
    Outcome.pure_eq, Outcome.bind_done]

structure Frame where
  ebp : UInt32
  eip : UInt32
  arg1 : UInt32
  arg2 : UInt32
  arg3 : UInt32
  arg4 : UInt32
  arg5 : UInt32

structure FrameAt (mem : Mem) (frame : Frame) (saved : UInt32) : Prop where
  saved : loadWord mem frame.ebp 4 = .done saved
  eip : loadWord mem (frame.ebp + 4) 4 = .done frame.eip
  arg1 : loadWord mem (frame.ebp + 8) 4 = .done frame.arg1
  arg2 : loadWord mem (frame.ebp + 12) 4 = .done frame.arg2
  arg3 : loadWord mem (frame.ebp + 16) 4 = .done frame.arg3
  arg4 : loadWord mem (frame.ebp + 20) 4 = .done frame.arg4
  arg5 : loadWord mem (frame.ebp + 24) 4 = .done frame.arg5

inductive Chain (mem : Mem) : UInt32 → List Frame → Prop where
  | done : Chain mem 0 []
  | frame {frame : Frame} {saved : UInt32} {frames : List Frame} (nonzero : frame.ebp ≠ 0)
      (stored : FrameAt mem frame saved) (rest : Chain mem saved frames) :
      Chain mem frame.ebp (frame :: frames)

def Frame.Apart (frame : Frame) (buf : Nat) : Prop :=
  ∀ i < 28, wrap (frame.ebp.toNat + i) < buf ∨ buf + 4000 ≤ wrap (frame.ebp.toNat + i)

theorem loadWord_apart {buf : Nat} {old new : Mem} (confined : Console.Confined buf old new)
    {frame : Frame} (apart : frame.Apart buf) (offset : UInt32) (inside : offset.toNat + 4 ≤ 28) :
    loadWord new (frame.ebp + offset) 4 = loadWord old (frame.ebp + offset) 4 := by
  have same : loadBytes new (frame.ebp + offset).toNat 4 =
      loadBytes old (frame.ebp + offset).toNat 4 := by
    refine loadBytes_congr _ 4 (UInt32.toNat_lt _) fun i lt => ⟨confined.mapped _, ?_⟩
    have place : wrap ((frame.ebp + offset).toNat + i) =
        wrap (frame.ebp.toNat + (offset.toNat + i)) := by
      rw [UInt32.toNat_add, wrap, wrap, Nat.mod_add_mod, Nat.add_assoc]
    rw [place]
    exact confined.outside _ (apart _ (by omega))
  rw [loadWord, loadWord, same]

theorem FrameAt.apart {buf : Nat} {old new : Mem} {frame : Frame} {saved : UInt32}
    (stored : FrameAt old frame saved) (confined : Console.Confined buf old new)
    (apart : frame.Apart buf) : FrameAt new frame saved := by
  have kept := loadWord_apart confined apart
  have here := kept 0 (by decide)
  rw [UInt32.add_zero] at here
  exact ⟨here.trans stored.saved, (kept 4 (by decide)).trans stored.eip,
    (kept 8 (by decide)).trans stored.arg1, (kept 12 (by decide)).trans stored.arg2,
    (kept 16 (by decide)).trans stored.arg3, (kept 20 (by decide)).trans stored.arg4,
    (kept 24 (by decide)).trans stored.arg5⟩

def yields (tables : DebugTables) (eip : UInt32) : Eipdebuginfo :=
  match debuginfoEip tables eip with
  | .done (_, info) => info
  | .fault _ | .spin => initialInfo eip

-- "  ebp 00000000  eip 00000000  args 00000000 00000000 00000000 00000000 00000000\n"
def frameText (frame : Frame) : List UInt8 :=
  [32, 32, 101, 98, 112, 32] ++ (hexText frame.ebp ++ ([32, 32, 101, 105, 112, 32] ++
    (hexText frame.eip ++ ([32, 32, 97, 114, 103, 115, 32] ++ (hexText frame.arg1 ++ ([32] ++
    (hexText frame.arg2 ++ ([32] ++ (hexText frame.arg3 ++ ([32] ++ (hexText frame.arg4 ++
    ([32] ++ (hexText frame.arg5 ++ [10])))))))))))))

def functionName (tables : DebugTables) (info : Eipdebuginfo) : List UInt8 :=
  (cstr (tables.chars info.eipFnName)).take info.eipFnNamelen.toNat

-- "        file:line: function+offset\n"
def symbolText (tables : DebugTables) (eip : UInt32) : List UInt8 :=
  let info := yields tables eip
  List.replicate 8 32 ++ (cstr (tables.chars info.eipFile) ++ ([58] ++
    (Numeric.unsigned.shown (.word (UInt32.ofInt info.eipLine)) ++ ([58, 32] ++
    (functionName tables info ++ ([43] ++
    (Numeric.decimal.shown (.word (eip - info.eipFnAddr)) ++ [10])))))))

def symbolChars (tables : DebugTables) (eip : UInt32) : List Int :=
  let info := yields tables eip
  literally (List.replicate 8 32) ++ ((cstr (tables.chars info.eipFile)).map charInt ++
    (literally [58] ++ (literally (Numeric.unsigned.shown (.word (UInt32.ofInt info.eipLine))) ++
    (literally [58, 32] ++ ((functionName tables info).map charInt ++ (literally [43] ++
    (literally (Numeric.decimal.shown (.word (eip - info.eipFnAddr))) ++ literally [10])))))))

theorem literally_append (a b : List UInt8) : literally (a ++ b) = literally a ++ literally b :=
  List.map_append

theorem frameLine_prints (frame : Frame) :
    printed frameLine [.word frame.ebp, .word frame.eip, .word frame.arg1, .word frame.arg2,
      .word frame.arg3, .word frame.arg4, .word frame.arg5] =
      .done (literally (frameText frame), []) := by
  rw [printed_iff]
  simp only [frameText, literally_append]
  exact renders_text [32, 32, 101, 98, 112, 32] (by decide) (renders_word _
    (renders_text [32, 32, 101, 105, 112, 32] (by decide) (renders_word _
    (renders_text [32, 32, 97, 114, 103, 115, 32] (by decide) (renders_word _
    (renders_text [32] (by decide) (renders_word _ (renders_text [32] (by decide) (renders_word _
    (renders_text [32] (by decide) (renders_word _ (renders_text [32] (by decide)
    (renders_word _ (renders_last [10] (by decide)))))))))))))))

theorem symbolLine_prints {tables : DebugTables} (small : tables.stabstr.length < 2 ^ 31)
    {eip : UInt32} {rc : Int} (symbol : debuginfoEip tables eip = .done (rc, yields tables eip)) :
    printed symbolLine [.str (some (tables.chars (yields tables eip).eipFile)),
      .word (UInt32.ofInt (yields tables eip).eipLine),
      .word (UInt32.ofInt (yields tables eip).eipFnNamelen),
      .str (some (tables.chars (yields tables eip).eipFnName)),
      .word (eip - (yields tables eip).eipFnAddr)] = .done (symbolChars tables eip, []) := by
  have named := debuginfoEip_named symbol
  have short (name : DebugName) : (cstr (tables.chars name)).length < 2 ^ 31 := by
    refine lt_of_le_of_lt (List.takeWhile_sublist _).length_le ?_
    cases name with
    | unknown => exact (by decide : unknownChars.length < 2 ^ 31)
    | stabstr offset =>
      rw [DebugTables.chars, List.length_drop]
      omega
  obtain ⟨n, namelen, le⟩ := named.namelen
  have int := short (yields tables eip).eipFnName
  have word : UInt32.ofInt (n : Int) = UInt32.ofNat n := by
    rw [UInt32.ofInt, Int.emod_eq_of_lt (by omega) (by omega), Int.toNat_natCast]
  rw [printed_iff]
  simp only [symbolChars, functionName, namelen, Int.toNat_natCast, word]
  exact renders_text (List.replicate 8 32) (by decide)
    (renders_string (cstr_spells named.file) (short _)
    (renders_text [58] (by decide) (renders_numeric .unsigned _
    (renders_text [58, 32] (by decide)
    (renders_front (cstr_spells named.function) n (by omega) le
    (renders_text [43] (by decide) (renders_numeric .decimal _
    (renders_last [10] (by decide)))))))))

theorem functionName_length {tables : DebugTables} {eip : UInt32} {rc : Int}
    (symbol : debuginfoEip tables eip = .done (rc, yields tables eip)) :
    ((functionName tables (yields tables eip)).length : Int) = (yields tables eip).eipFnNamelen := by
  obtain ⟨n, namelen, le⟩ := (debuginfoEip_named symbol).namelen
  rw [functionName, namelen, Int.toNat_natCast, List.length_take, min_eq_left le]

def frameActs (tables : DebugTables) (frame : Frame) : List Console.Act :=
  [.setBg blue, .setFg white, .text (literally (frameText frame)), .reset, .setFg yellow,
    .text (symbolChars tables frame.eip), .reset]

def entryText (tables : DebugTables) (frame : Frame) : List UInt8 :=
  frameText frame ++ symbolText tables frame.eip

theorem literally_low (bytes : List UInt8) :
    (literally bytes).map (fun c => (UInt32.ofInt c).toUInt8) = bytes := by
  simp [literally, Function.comp_def, Console.ofInt_byte]

theorem charInts_low (bytes : List UInt8) :
    (bytes.map charInt).map (fun c => (UInt32.ofInt c).toUInt8) = bytes := by
  simp [Function.comp_def, charInt_low]

theorem symbolChars_low (tables : DebugTables) (eip : UInt32) :
    (symbolChars tables eip).map (fun c => (UInt32.ofInt c).toUInt8) = symbolText tables eip := by
  simp only [symbolChars, symbolText, List.map_append, literally_low, charInts_low]

theorem frameActs_bytes (tables : DebugTables) (frame : Frame) :
    (frameActs tables frame).flatMap Console.Act.bytes = entryText tables frame := by
  simp [frameActs, Console.Act.bytes, entryText, literally_low, symbolChars_low]

theorem frameActs_colors (tables : DebugTables) (frame : Frame) (colors : UInt8 × UInt8) :
    (frameActs tables frame).foldl Console.Act.colors colors = (0, 0) := rfl

variable {tables : DebugTables} {origin s : Console}

theorem backtracePass_plays (small : tables.stabstr.length < 2 ^ 31) {frame : Frame}
    {saved : UInt32} (nonzero : frame.ebp ≠ 0) (stored : FrameAt s.mem frame saved) {rc : Int}
    (symbol : debuginfoEip tables frame.eip = .done (rc, yields tables frame.eip)) :
    backtracePass tables (frame.ebp, s) =
      Console.play (frameActs tables frame) s >>= fun s => .done (.again (saved, s)) := by
  have line := Console.vcprintf_emit (frameLine_prints frame)
  have name := Console.vcprintf_emit (symbolLine_prints small symbol)
  simp only [backtracePass, nonzero, if_false, stored.saved, stored.eip, stored.arg1, stored.arg2,
    stored.arg3, stored.arg4, stored.arg5, Outcome.done_bind, Console.cprintf, line, name, symbol,
    Outcome.bind_assoc, Outcome.pure_eq, Console.play, frameActs, List.foldlM_cons,
    List.foldlM_nil, Console.act]

theorem backtrace_plays (maps : origin.mem.Maps origin.crtBuf (origin.crtBuf + 4000))
    (small : tables.stabstr.length < 2 ^ 31) {ebp : UInt32} {frames : List Frame}
    (chain : Chain origin.mem ebp frames) (apart : ∀ frame ∈ frames, frame.Apart origin.crtBuf)
    (symbols : ∀ frame ∈ frames, ∃ rc, debuginfoEip tables frame.eip =
      .done (rc, yields tables frame.eip))
    (steady : Console.Steady origin s) (fuel : Nat) (enough : frames.length < fuel) :
    Loop.run (backtracePass tables) fuel (ebp, s) =
      Console.play (frames.flatMap (frameActs tables)) s := by
  induction chain generalizing s fuel with
  | done =>
    obtain ⟨fuel, rfl⟩ := Nat.exists_eq_add_of_lt enough
    exact Loop.run_leave _ rfl
  | @frame frame saved frames nonzero stored rest ih =>
    obtain ⟨fuel, rfl⟩ := Loop.one_more enough
    obtain ⟨rc, symbol⟩ := symbols frame (by simp)
    have here := stored.apart steady.confined (apart frame (by simp))
    obtain ⟨next, ran, next_steady, -⟩ := Console.play_steady maps (frameActs tables frame) steady
    rw [Loop.run_bind fuel _ (fun s => (saved, s)) (backtracePass_plays small nonzero here symbol),
      List.flatMap_cons, Console.play_append, ran]
    exact ih (fun frame member => apart frame (by simp [member]))
      (fun frame member => symbols frame (by simp [member])) next_steady fuel
      (by simpa using enough)

def backtraceActs (tables : DebugTables) (frames : List Frame) : List Console.Act :=
  .text (literally stackBacktrace.bytes) :: frames.flatMap (frameActs tables)

theorem backtraceActs_bytes (tables : DebugTables) (frames : List Frame) :
    (backtraceActs tables frames).flatMap Console.Act.bytes =
      stackBacktrace.bytes ++ frames.flatMap (entryText tables) := by
  have title : Console.Act.bytes (.text (literally stackBacktrace.bytes)) = stackBacktrace.bytes :=
    literally_low stackBacktrace.bytes
  rw [backtraceActs, List.flatMap_cons, title, List.flatMap_assoc]
  congr 2
  funext frame
  exact frameActs_bytes tables frame

theorem backtraceActs_colors (tables : DebugTables) (frames : List Frame) (colors : UInt8 × UInt8) :
    (backtraceActs tables frames).foldl Console.Act.colors colors =
      if frames = [] then colors else (0, 0) := by
  have entries (frames : List Frame) (colors : UInt8 × UInt8) :
      (frames.flatMap (frameActs tables)).foldl Console.Act.colors colors =
        if frames = [] then colors else (0, 0) := by
    induction frames generalizing colors with
    | nil => rfl
    | cons frame frames ih =>
      rw [List.flatMap_cons, List.foldl_append, frameActs_colors, ih]
      simp
  exact entries frames colors

theorem Chain.apart {buf : Nat} {old new : Mem} {ebp : UInt32} {frames : List Frame}
    (chain : Chain old ebp frames) (confined : Console.Confined buf old new)
    (apart : ∀ frame ∈ frames, frame.Apart buf) : Chain new ebp frames := by
  induction chain with
  | done => exact .done
  | @frame frame saved frames nonzero stored rest ih =>
    exact .frame nonzero (stored.apart confined (apart frame (by simp)))
      (ih fun frame member => apart frame (by simp [member]))

structure Listed (tables : DebugTables) (ebp : UInt32) (frames : List Frame) (s s' : Console) :
    Prop where
  sent : ∀ port, port = Console.com1 ∨ port = Console.lptData →
    Console.transmitted port s' = Console.transmitted port s ++
      (stackBacktrace.bytes ++ frames.flatMap (entryText tables)).flatMap Console.spread
  words : ∀ v, HexWord (hexText v) v
  symbols : ∀ frame ∈ frames, ∃ rc, debuginfoEip tables frame.eip =
    .done (rc, yields tables frame.eip)
  names : ∀ frame ∈ frames, ((functionName tables (yields tables frame.eip)).length : Int) =
    (yields tables frame.eip).eipFnNamelen
  stack : Chain s'.mem ebp frames
  outside : ∀ a, a < s.crtBuf ∨ s.crtBuf + 4000 ≤ a → s'.mem.value a = s.mem.value a
  colors : (s'.cgaFg, s'.cgaBg) = if frames = [] then (s.cgaFg, s.cgaBg) else (0, 0)

theorem yields_symbol (eip : UInt32) (kernel : ulim ≤ eip)
    (stays : ∀ i, debuginfoEip tables eip ≠ .fault (.stab i)) :
    ∃ rc, debuginfoEip tables eip = .done (rc, yields tables eip) := by
  obtain ⟨rc, info, returned⟩ := debuginfoEip_stays eip kernel stays
  exact ⟨rc, by rw [returned, yields, returned]⟩

theorem monBacktrace_plays (small : tables.stabstr.length < 2 ^ 31)
    (onScreen : s.crtPos < Console.crtSize) (maps : s.mem.Maps s.crtBuf (s.crtBuf + 4000))
    {ebp : UInt32} {frames : List Frame} (chain : Chain s.mem ebp frames)
    (apart : ∀ frame ∈ frames, frame.Apart s.crtBuf)
    (symbols : ∀ frame ∈ frames, ∃ rc, debuginfoEip tables frame.eip =
      .done (rc, yields tables frame.eip)) (fuel : Nat) (enough : frames.length < fuel) :
    ∃ s', monBacktrace tables fuel ebp s = .done (0, s') ∧
      Console.play (backtraceActs tables frames) s = .done s' ∧ Console.Steady s s' ∧
      s'.sent = s.sent ++ ((stackBacktrace.bytes ++ frames.flatMap (entryText tables)).flatMap
        Console.spread).flatMap Console.send ∧
      (s'.cgaFg, s'.cgaBg) = if frames = [] then (s.cgaFg, s.cgaBg) else (0, 0) := by
  have steady : Console.Steady s s := ⟨onScreen, _, Console.paper_shown s⟩
  obtain ⟨s', played, last, sent, colors⟩ := Console.play_steady maps (backtraceActs tables frames)
    steady
  obtain ⟨titled, title, next, -⟩ := Console.act_steady maps
    (.text (literally stackBacktrace.bytes)) steady
  have rest : Console.play (frames.flatMap (frameActs tables)) titled = .done s' := by
    rw [backtraceActs, Console.play, List.foldlM_cons, title] at played
    exact played
  have text : emit Console.cputchar (literally stackBacktrace.bytes) s = .done titled := title
  have header : Console.cprintf stackBacktrace [] s = .done (0, titled) := by
    have emitted := Console.vcprintf_emit (printed_text stackBacktrace (by decide) []) s
    rw [← literally, text, Outcome.done_bind] at emitted
    exact emitted
  have walk := backtrace_plays maps small chain apart symbols next fuel enough
  have ran : monBacktrace tables fuel ebp s = .done (0, s') := by
    simp only [monBacktrace, header, walk, rest, Outcome.done_bind, Outcome.pure_eq]
  rw [backtraceActs_bytes] at sent
  rw [backtraceActs_colors] at colors
  exact ⟨s', ran, played, last, sent, colors⟩

theorem monBacktrace_correct (tables : DebugTables) (small : tables.stabstr.length < 2 ^ 31)
    (s : Console) (onScreen : s.crtPos < Console.crtSize)
    (maps : s.mem.Maps s.crtBuf (s.crtBuf + 4000)) (ebp : UInt32) (frames : List Frame)
    (chain : Chain s.mem ebp frames) (apart : ∀ frame ∈ frames, frame.Apart s.crtBuf)
    (kernel : ∀ frame ∈ frames, ulim ≤ frame.eip)
    (stays : ∀ frame ∈ frames, ∀ i, debuginfoEip tables frame.eip ≠ .fault (.stab i))
    (fuel : Nat) (enough : frames.length < fuel) :
    ∃ s', monBacktrace tables fuel ebp s = .done (0, s') ∧
      Console.play (backtraceActs tables frames) s = .done s' ∧
      Listed tables ebp frames s s' := by
  have symbols (frame : Frame) (member : frame ∈ frames) := yields_symbol frame.eip
    (kernel frame member) (stays frame member)
  obtain ⟨s', ran, played, last, sent, colors⟩ :=
    monBacktrace_plays small onScreen maps chain apart symbols fuel enough
  refine ⟨s', ran, played, ?_⟩
  constructor
  case sent => exact fun port device => Console.transmitted_spread port device _ sent
  case words => exact hexText_word
  case symbols => exact symbols
  case names =>
    intro frame member
    obtain ⟨rc, symbol⟩ := symbols frame member
    exact functionName_length symbol
  case stack => exact chain.apart last.confined apart
  case outside => exact last.confined.outside
  case colors => exact colors

def stacked : Console where
  adapter := .cga
  crtPos := 0
  cgaBg := 0
  cgaFg := 4
  mem :=
    { mapped := fun _ => true
      value := fun a =>
        if a = 0x1004 then 5 else if a = 0x1006 then 0x10 else if a = 0x1007 then 0xf0 else 0 }
  ports := []

def stackedFrame : Frame := ⟨0x1000, 0xf0100005, 0, 0, 0, 0, 0⟩

theorem stacked_listed :
    ∃ s', monBacktrace sampleTables 2 0x1000 stacked = .done (0, s') ∧
      Console.play (backtraceActs sampleTables [stackedFrame]) stacked = .done s' ∧
      Listed sampleTables 0x1000 [stackedFrame] stacked s' := by
  have stored : FrameAt stacked.mem stackedFrame 0 := ⟨rfl, rfl, rfl, rfl, rfl, rfl, rfl⟩
  have chain : Chain stacked.mem stackedFrame.ebp [stackedFrame] :=
    .frame (by decide) stored .done
  have symbol : ∃ result, debuginfoEip sampleTables 0xf0100005 = .done result := ⟨_, rfl⟩
  refine monBacktrace_correct sampleTables (by decide) stacked (by decide) (fun _ _ _ => rfl)
    stackedFrame.ebp [stackedFrame] chain ?_ ?_ ?_ 2 (by decide)
  all_goals simp only [List.mem_singleton, forall_eq]
  · unfold Frame.Apart
    decide +kernel
  · decide
  · intro i fault
    obtain ⟨result, returned⟩ := symbol
    have fault : debuginfoEip sampleTables 0xf0100005 = .fault (.stab i) := fault
    rw [returned] at fault
    cases fault

theorem colors_kept :
    ∃ s', monBacktrace sampleTables 1 0 stacked = .done (0, s') ∧ (s'.cgaFg, s'.cgaBg) = (4, 0) := by
  have small : sampleTables.stabstr.length < 2 ^ 31 := by decide
  have chain : Chain stacked.mem 0 [] := .done
  obtain ⟨s', ran, -, -, -, colors⟩ := monBacktrace_plays small (by decide) (fun _ _ _ => rfl) chain
    (by simp) (by simp) 1 (by decide)
  exact ⟨s', ran, colors⟩

end Monitor

end JosLab
