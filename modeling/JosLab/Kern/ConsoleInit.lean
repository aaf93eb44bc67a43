import JosLab.Kern.ConsoleInput
import JosLab.Kern.ConsoleLine
import JosLab.Kern.SerialPort

set_option autoImplicit false

namespace JosLab

-- What answers at `CGA_BUF`: memory, or nothing, and then a write is lost and a read floats.
structure Video where
  cga : Bool
  float : UInt16

namespace Video

def load (video : Video) (mem : Mem) (cp : Nat) : Outcome Fault UInt16 := do
  let low ← mem.load .load cp
  let high ← mem.load .load (cp + 1)
  return if video.cga then low.toUInt16 ||| high.toUInt16 <<< 8 else video.float

def store (video : Video) (mem : Mem) (cp : Nat) (value : UInt16) : Outcome Fault Mem := do
  let written ← storeBytes mem cp [value.toUInt8, (value >>> 8).toUInt8]
  return if video.cga then written else mem

def found (video : Video) : Adapter :=
  if video.cga ∨ video.float = 0xA55A then .cga else .mono

end Video

def Crtc.data (d : Crtc) : UInt8 := d.register d.index

structure Com where
  fcr : UInt8
  lcr : UInt8
  mcr : UInt8
  ier : UInt8
  dll : UInt8
  dlm : UInt8
  tx : List UInt8

namespace Com

-- The divisor latch takes the place of the transmit and of the interrupt enable register.
def dlab (d : Com) : Bool := d.lcr &&& 0x80 ≠ 0

def out (d : Com) (write : Nat × UInt8) : Com :=
  if write.1 = 0x3F8 then
    if d.dlab then { d with dll := write.2 } else { d with tx := d.tx ++ [write.2] }
  else if write.1 = 0x3F8 + 1 then
    if d.dlab then { d with dlm := write.2 } else { d with ier := write.2 }
  else if write.1 = 0x3F8 + 2 then { d with fcr := write.2 }
  else if write.1 = 0x3F8 + 3 then { d with lcr := write.2 }
  else if write.1 = 0x3F8 + 4 then { d with mcr := write.2 }
  else d

-- The whole UART: each byte for the transmit register finds the transmitter behind it, which takes
-- its own time, and was waited for.
def transmit (whole : Com × Uart) (write : Nat × UInt8) : Com × Uart :=
  let (d, u) := whole
  (d.out write, if write.1 = 0x3F8 ∧ ¬ d.dlab then u.serialPutc write.2 else u)

end Com

namespace Console

open Printfmt

def com (s : Console) (power : Com) : Com := s.ports.foldl Com.out power

def uart (s : Console) (power : Com) (u : Uart) : Uart := (s.ports.foldl Com.transmit (power, u)).2

def probe (video : Video) (s : Console) : Outcome Fault Console := do
  let cp := Adapter.cga.crtBuf
  let was ← video.load s.mem cp
  let mem ← video.store s.mem cp 0xA55A
  let now ← video.load mem cp
  if now ≠ 0xA55A then return { s with mem, adapter := .mono }
  else
    let mem ← video.store mem cp was
    return { s with mem, adapter := .cga }

def extractCursor (power : Crtc) (s : Console) : Console :=
  let port := s.adapter.addr6845
  let s := s.outb port 14
  let high := (s.crtc power).data
  let s := s.outb port 15
  let low := (s.crtc power).data
  { s with crtPos := high.toUInt16 <<< 8 ||| low.toUInt16 }

def cgaInit (video : Video) (power : Crtc) (s : Console) : Outcome Fault Console := do
  return extractCursor power (← probe video s)

-- "Serial port does not exist!\n"
def noSerial : CString :=
  ⟨[83, 101, 114, 105, 97, 108, 32, 112, 111, 114, 116, 32, 100, 111, 101, 115, 32, 110, 111, 116,
    32, 101, 120, 105, 115, 116, 33, 10], by decide⟩

variable {δ : Type} (inb : Nat → δ → UInt8 × δ)

def serialInit (m : Machine δ) : Machine δ :=
  let console := m.console.outb (com1 + 2) 0
  -- Set speed; requires DLAB latch
  let console := console.outb (com1 + 3) 0x80
  let console := console.outb com1 (UInt8.ofNat (115200 / 9600))
  let console := console.outb (com1 + 1) 0
  let console := console.outb (com1 + 3) (0x03 &&& ~~~0x80)
  let console := console.outb (com1 + 4) 0
  let console := console.outb (com1 + 1) 0x01
  let m := { m with console }
  let (lsr, m) := Keyboard.inPort inb (com1 + 5) m
  let m := { m with serialExists := lsr ≠ 0xFF }
  let (_, m) := Keyboard.inPort inb (com1 + 2) m
  let (_, m) := Keyboard.inPort inb com1 m
  m

-- `kbd_init`, between the two, does nothing.
def consInit (video : Video) (power : Crtc) (m : Machine δ) : Outcome Fault (Machine δ) := do
  let console ← cgaInit video power m.console
  let m := serialInit inb { m with console }
  if m.serialExists then return m
  else
    let (_, console) ← cprintf noSerial [] m.console
    return { m with console }

theorem position_toNat (high low : UInt8) :
    (high.toUInt16 <<< 8 ||| low.toUInt16).toNat = high.toNat * 256 + low.toNat := by
  have high_lt := high.toNat_lt
  have low_lt := low.toNat_lt
  have amount : (8 : UInt16).toNat % 16 = 8 := rfl
  have shifted : (high.toUInt16 <<< 8).toNat = high.toNat <<< 8 := by
    rw [UInt16.toNat_shiftLeft, amount, UInt8.toNat_toUInt16, Nat.shiftLeft_eq]
    omega
  rw [UInt16.toNat_or, shifted, UInt8.toNat_toUInt16, ← Nat.shiftLeft_add_eq_or_of_lt low_lt,
    Nat.shiftLeft_eq]

theorem halves_toUInt8 (high low : UInt8) :
    (low.toUInt16 ||| high.toUInt16 <<< 8).toUInt8 = low ∧
      ((low.toUInt16 ||| high.toUInt16 <<< 8) >>> 8).toUInt8 = high := by
  have value := position_toNat high low
  have high_lt := high.toNat_lt
  have low_lt := low.toNat_lt
  have amount : (8 : UInt16).toNat % 16 = 8 := rfl
  rw [UInt16.or_comm]
  constructor
  next =>
    apply UInt8.toNat_inj.1
    rw [UInt16.toNat_toUInt8, value]
    omega
  next =>
    apply UInt8.toNat_inj.1
    rw [UInt16.toNat_toUInt8, UInt16.toNat_shiftRight, amount, value, Nat.shiftRight_eq_div_pow]
    omega

section Probe

variable (video : Video) {mem : Mem} {cp : Nat} (maps : mem.Maps cp (cp + 2))
  (bound : cp + 2 ≤ 2 ^ 32)

include maps

theorem load_cell : video.load mem cp = .done (if video.cga then
    (mem.value cp).toUInt16 ||| (mem.value (cp + 1)).toUInt16 <<< 8 else video.float) := by
  have low := Memory.load_mapped Fault.load mem cp (maps cp le_rfl (by omega))
  have high := Memory.load_mapped Fault.load mem (cp + 1) (maps (cp + 1) (by omega) (by omega))
  simp only [Video.load, low, high, Outcome.done_bind, Outcome.pure_eq]

theorem load_pattern (present : video.cga = true) :
    video.load (mem.blit cp 2 (cellBytes ⟨(0xA55A : UInt16) >>> 8 |>.toUInt8,
      (0xA55A : UInt16).toUInt8⟩)) cp = .done 0xA55A := by
  have low := Memory.blit_inside mem cp 2 0 (cellBytes ⟨(0xA55A : UInt16) >>> 8 |>.toUInt8,
    (0xA55A : UInt16).toUInt8⟩) (by omega)
  have high := Memory.blit_inside mem cp 2 1 (cellBytes ⟨(0xA55A : UInt16) >>> 8 |>.toUInt8,
    (0xA55A : UInt16).toUInt8⟩) (by omega)
  rw [Nat.add_zero] at low
  rw [load_cell video ((Memory.blit_maps ..).2 maps), if_pos present, low, high]
  rfl

include bound

theorem store_cell (value : UInt16) : video.store mem cp value = .done (if video.cga then
    mem.blit cp 2 (cellBytes ⟨(value >>> 8).toUInt8, value.toUInt8⟩) else mem) := by
  have stored := storeBytes_mapped mem cp (cellBytes ⟨(value >>> 8).toUInt8, value.toUInt8⟩) 2 bound
    maps
  have bytes : (List.range 2).map (cellBytes ⟨(value >>> 8).toUInt8, value.toUInt8⟩) =
      [value.toUInt8, (value >>> 8).toUInt8] := rfl
  rw [bytes] at stored
  simp only [Video.store, stored, Outcome.done_bind, Outcome.pure_eq]

end Probe

theorem restored (mem : Mem) (cp : Nat) (cell : Nat → UInt8) :
    (mem.blit cp 2 cell).blit cp 2 (cellBytes ⟨mem.value (cp + 1), mem.value cp⟩) = mem := by
  ext a
  · rfl
  by_cases inside : cp ≤ a ∧ a < cp + 2
  next =>
    obtain ⟨i, rfl⟩ := Nat.exists_eq_add_of_le inside.1
    have lt : i < 2 := by omega
    rw [Memory.blit_inside _ _ _ _ _ lt]
    interval_cases i <;> rfl
  next => rw [Memory.blit_outside _ _ _ _ _ (by omega), Memory.blit_outside _ _ _ _ _ (by omega)]

theorem probe_eq {video : Video} {s : Console}
    (maps : s.mem.Maps Adapter.cga.crtBuf (Adapter.cga.crtBuf + 2)) :
    probe video s = .done { s with adapter := video.found } := by
  have bound : Adapter.cga.crtBuf + 2 ≤ 2 ^ 32 := by decide
  have was := load_cell video maps
  have stored := store_cell video maps bound 0xA55A
  cases present : video.cga with
  | true =>
    have now := load_pattern video maps present
    have written := (Memory.blit_maps s.mem Adapter.cga.crtBuf 2 _ _ (cellBytes
      ⟨(0xA55A : UInt16) >>> 8 |>.toUInt8, (0xA55A : UInt16).toUInt8⟩)).2 maps
    have again := store_cell video written bound ((s.mem.value Adapter.cga.crtBuf).toUInt16 |||
        (s.mem.value (Adapter.cga.crtBuf + 1)).toUInt16 <<< 8)
    obtain ⟨low, high⟩ := halves_toUInt8 (s.mem.value (Adapter.cga.crtBuf + 1))
      (s.mem.value Adapter.cga.crtBuf)
    rw [if_pos present] at was stored again
    rw [low, high, restored] at again
    have found : video.found = .cga := if_pos (.inl present)
    simp only [probe, was, stored, now, again, Outcome.done_bind, found]
    rfl
  | false =>
    have absent : ¬ video.cga = true := by simp [present]
    rw [if_neg absent] at was stored
    simp only [probe, was, stored, Outcome.done_bind]
    by_cases pattern : video.float = 0xA55A
    next =>
      have again := store_cell video maps bound video.float
      have found : video.found = .cga := if_pos (.inr pattern)
      rw [if_neg absent] at again
      rw [if_neg (by simp [pattern]), again, found]
      rfl
    next =>
      have found : video.found = .mono := if_neg (by simp [present, pattern])
      rw [if_pos pattern, found]
      rfl

theorem extractCursor_eq (power : Crtc) (s : Console) :
    extractCursor power s = { s with
      crtPos := UInt16.ofNat (s.crtc power).cursor
      ports := s.ports ++ [(s.adapter.addr6845, 14), (s.adapter.addr6845, 15)] } := by
  have position (high low : UInt8) :
      high.toUInt16 <<< 8 ||| low.toUInt16 = UInt16.ofNat (high.toNat * 256 + low.toNat) := by
    rw [← position_toNat, UInt16.ofNat_toNat]
  simp only [extractCursor, outb, crtc, Crtc.data, Crtc.cursor, position, List.foldl_append,
    List.foldl_cons, List.foldl_nil, Crtc.out, if_true, List.append_assoc, List.cons_append,
    List.nil_append]

theorem cgaInit_eq (video : Video) (power : Crtc) {s : Console}
    (maps : s.mem.Maps Adapter.cga.crtBuf (Adapter.cga.crtBuf + 2)) :
    cgaInit video power s = .done (extractCursor power { s with adapter := video.found }) := by
  rw [cgaInit, probe_eq maps]
  rfl

def InStep (power : Crtc) (s : Console) : Prop := (s.crtc power).cursor = s.crtPos.toNat

theorem extractCursor_crtPos (power : Crtc) (s : Console) :
    (extractCursor power s).crtPos.toNat = (s.crtc power).cursor := by
  have high := ((s.crtc power).register 14).toNat_lt
  have low := ((s.crtc power).register 15).toNat_lt
  have small : (s.crtc power).cursor < 2 ^ 16 := by
    unfold Crtc.cursor
    omega
  rw [extractCursor_eq, UInt16.toNat_ofNat_of_lt' small]

theorem extractCursor_inStep (power : Crtc) (s : Console) : InStep power (extractCursor power s) := by
  rw [InStep, extractCursor_crtPos, extractCursor_eq]
  simp [crtc, Crtc.cursor, Crtc.out]

section Printing

variable {origin s : Console} {power : Crtc}
  (maps : origin.mem.Maps origin.crtBuf (origin.crtBuf + 4000))

include maps

theorem emit_inStep (w : List Int) (steady : Steady origin s) (inStep : InStep power s) :
    ∃ s', emit cputchar w s = .done s' ∧ Steady origin s' ∧ InStep power s' := by
  induction w generalizing s with
  | nil => exact ⟨s, rfl, steady, inStep⟩
  | cons c w ih =>
    obtain ⟨inside, p, shown⟩ := steady
    obtain ⟨next, ran, inside', cursor, shown'⟩ := cputchar_strikes c shown inside maps
    obtain ⟨last, rest, last_steady, last_inStep⟩ := ih ⟨inside', _, shown'⟩ (cursor power)
    exact ⟨last, by rw [emit, List.foldlM_cons, ran]; exact rest, last_steady, last_inStep⟩

theorem play_inStep (acts : List Act) (steady : Steady origin s) (inStep : InStep power s) :
    ∃ s', play acts s = .done s' ∧ Steady origin s' ∧ InStep power s' := by
  induction acts generalizing s with
  | nil => exact ⟨s, rfl, steady, inStep⟩
  | cons act acts ih =>
    have next : ∃ s', s.act act = .done s' ∧ Steady origin s' ∧ InStep power s' := by
      cases act with
      | text w => exact emit_inStep maps w steady inStep
      | setBg bg =>
        obtain ⟨s', ran, kept, -⟩ := act_steady maps (.setBg bg) steady
        cases ran
        exact ⟨_, rfl, kept, inStep⟩
      | setFg fg =>
        obtain ⟨s', ran, kept, -⟩ := act_steady maps (.setFg fg) steady
        cases ran
        exact ⟨_, rfl, kept, inStep⟩
      | reset =>
        obtain ⟨s', ran, kept, -⟩ := act_steady maps .reset steady
        cases ran
        exact ⟨_, rfl, kept, inStep⟩
    obtain ⟨s₁, ran, kept, inStep₁⟩ := next
    obtain ⟨s₂, rest, kept₂, inStep₂⟩ := ih kept inStep₁
    exact ⟨s₂, by rw [play, List.foldlM_cons, ran]; exact rest, kept₂, inStep₂⟩

end Printing

theorem cga_init_resumes (video : Video) (power : Crtc) {s : Console}
    (cell : s.mem.Maps Adapter.cga.crtBuf (Adapter.cga.crtBuf + 2))
    (maps : s.mem.Maps video.found.crtBuf (video.found.crtBuf + 4000))
    (onScreen : ({ s with adapter := video.found }.crtc power).cursor < 2000) (acts : List Act) :
    ∃ s₁ s₂, cgaInit video power s = .done s₁ ∧ s₁.mem = s.mem ∧ play acts s₁ = .done s₂ ∧
      cgaInit video power s₂ = .done { s₂ with
        ports := s₂.ports ++ [(video.found.addr6845, 14), (video.found.addr6845, 15)] } := by
  have started := cgaInit_eq video power cell
  have inStep := extractCursor_inStep power { s with adapter := video.found }
  have steady : Steady (extractCursor power { s with adapter := video.found })
      (extractCursor power { s with adapter := video.found }) := by
    refine ⟨?_, _, paper_shown _⟩
    rw [UInt16.lt_iff_toNat_lt, extractCursor_crtPos]
    exact onScreen
  obtain ⟨s₂, played, ⟨-, p, shown⟩, inStep₂⟩ := play_inStep maps acts steady inStep
  have mapped : s₂.mem.Maps Adapter.cga.crtBuf (Adapter.cga.crtBuf + 2) := by
    intro a ge lt
    rw [shown.confined.mapped]
    exact cell a ge lt
  have adapter : s₂.adapter = video.found := shown.adapter
  refine ⟨_, s₂, started, rfl, played, ?_⟩
  rw [cgaInit_eq video power mapped, ← adapter, extractCursor_eq, inStep₂, UInt16.ofNat_toNat]

def powerOn : Console where
  adapter := .mono
  crtPos := 0
  cgaBg := 0
  cgaFg := 0
  mem := { mapped := fun _ => true, value := fun _ => 0 }
  ports := []

def secondRow : Crtc := ⟨0, fun r => if r = 15 then 80 else 0⟩

theorem powerOn_resumes :
    ∃ s₁ s₂, cgaInit ⟨true, 0⟩ secondRow powerOn = .done s₁ ∧ s₁.mem = powerOn.mem ∧
      play [.setFg 4, .text [106, 111, 115, 10]] s₁ = .done s₂ ∧
      cgaInit ⟨true, 0⟩ secondRow s₂ =
        .done { s₂ with ports := s₂.ports ++ [(0x3D4, 14), (0x3D4, 15)] } :=
  cga_init_resumes ⟨true, 0⟩ secondRow (fun _ _ _ => rfl) (fun _ _ _ => rfl) (by decide) _

def configured (tx : List UInt8) : Com where
  fcr := 0
  lcr := 3
  mcr := 0
  ier := 1
  dll := 12
  dlm := 0
  tx := tx

theorem serialInit_com {δ : Type} (inb : Nat → δ → UInt8 × δ) (m : Machine δ) (power : Com) :
    (serialInit inb m).console.com power = configured (m.console.com power).tx := by
  have wlen8 : (0x03 &&& ~~~0x80 : UInt8) = 3 := by decide
  have closed : (3 : UInt8) &&& 0x80 = 0 := by decide
  simp [serialInit, Keyboard.inPort, outb, com, Com.out, Com.dlab, com1, configured, wlen8, closed]

theorem com_sent (s : Console) (power : Com) : s.com power = s.sent.foldl Com.out power := by
  rw [com, sent, List.foldl_filter]
  congr 1
  funext d write
  by_cases screen : toScreen write = true
  next =>
    have elsewhere : write.1 ≠ 0x3F8 ∧ write.1 ≠ 0x3F8 + 1 ∧ write.1 ≠ 0x3F8 + 2 ∧
        write.1 ≠ 0x3F8 + 3 ∧ write.1 ≠ 0x3F8 + 4 := by
      simp [toScreen] at screen
      omega
    simp [screen, Com.out, elsewhere]
  next => simp [screen]

theorem send_com (bytes tx : List UInt8) :
    (bytes.flatMap send).foldl Com.out (configured tx) = configured (tx ++ bytes) := by
  induction bytes generalizing tx with
  | nil => simp
  | cons byte rest ih =>
    have first : (send byte).foldl Com.out (configured tx) = configured (tx ++ [byte]) := by
      have closed : (3 : UInt8) &&& 0x80 = 0 := by decide
      simp [send, Com.out, Com.dlab, configured, closed]
    rw [List.flatMap_cons, List.foldl_append, first, ih]
    simp

theorem com_sends {s s' : Console} {bytes tx : List UInt8} {power : Com}
    (sends : Monitor.Sends s s' bytes) (here : s.com power = configured tx) :
    s'.com power = configured (tx ++ bytes.flatMap spread) := by
  rw [com_sent] at here ⊢
  rw [sends, List.foldl_append, here, send_com]

theorem extractCursor_com (crtc : Crtc) (s : Console) (power : Com) :
    (extractCursor crtc s).com power = s.com power := by
  rw [extractCursor_eq]
  cases s.adapter <;> simp [com, Com.out, Adapter.addr6845]

section ConsInit

variable {δ : Type} (inb : Nat → δ → UInt8 × δ) (video : Video) (crtc : Crtc) (m : Machine δ)
  {buf : Nat}

def lineStatus (device : δ) : UInt8 := (inb (com1 + 5) device).1

def absentText (device : δ) : List UInt8 :=
  if lineStatus inb device ≠ 0xFF then [] else noSerial.bytes

def onAdapter (video : Video) (s : Console) : Console := { s with adapter := video.found }

def initialized (video : Video) (crtc : Crtc) (m : Machine δ) : Machine δ :=
  serialInit inb { m with console := extractCursor crtc (onAdapter video m.console) }

theorem initialized_com (video : Video) (crtc : Crtc) (m : Machine δ) (power : Com) :
    (initialized inb video crtc m).console.com power = configured (m.console.com power).tx := by
  rw [initialized, serialInit_com, extractCursor_com]
  rfl

theorem consInit_printed
    (cell : m.console.mem.Maps Adapter.cga.crtBuf (Adapter.cga.crtBuf + 2))
    (placed : Monitor.Placed (onAdapter video m.console) buf)
    (onScreen : ((onAdapter video m.console).crtc crtc).cursor < 2000) :
    ∃ m', consInit inb video crtc m = .done m' ∧
      m'.serialExists = decide (lineStatus inb m.device ≠ 0xFF) ∧ m'.shift = m.shift ∧
      m'.device = (initialized inb video crtc m).device ∧
      Monitor.Fit (onAdapter video m.console) buf m'.console ∧
      ∀ power, m'.console.com power =
        configured ((m.console.com power).tx ++ absentText inb m.device) := by
  have started : consInit inb video crtc m = (if (initialized inb video crtc m).serialExists then
      .done (initialized inb video crtc m) else do
        let (_, console) ← cprintf noSerial [] (initialized inb video crtc m).console
        return { initialized inb video crtc m with console }) := by
    rw [consInit, cgaInit_eq video crtc cell]
    rfl
  have inside : (extractCursor crtc (onAdapter video m.console)).crtPos < crtSize := by
    rw [UInt16.lt_iff_toNat_lt, extractCursor_crtPos]
    exact onScreen
  have fit : Monitor.Fit (onAdapter video m.console) buf (initialized inb video crtc m).console :=
    ⟨rfl, inside, fun _ => rfl, fun _ _ _ => rfl⟩
  by_cases attached : lineStatus inb m.device ≠ 0xFF
  next =>
    have exists_ : (initialized inb video crtc m).serialExists = true := decide_eq_true attached
    rw [if_pos exists_] at started
    refine ⟨_, started, rfl, rfl, rfl, fit, fun power => ?_⟩
    rw [initialized_com, absentText, if_pos attached, List.append_nil]
  next =>
    have none : ¬ (initialized inb video crtc m).serialExists = true :=
      fun exists_ => attached (of_decide_eq_true exists_)
    obtain ⟨s', ran, printed⟩ := Monitor.cprintf_plain placed fit (f := noSerial) (by decide) []
    rw [if_neg none, ran] at started
    refine ⟨_, started, rfl, rfl, rfl, printed.fit, fun power => ?_⟩
    have plain : noSerial.bytes.flatMap spread = noSerial.bytes :=
      (flatMap_spread noSerial.bytes).2 (by decide)
    have spoken := com_sends printed.sends (initialized_com inb video crtc m power)
    rw [plain] at spoken
    rw [spoken, absentText, if_neg attached]

end ConsInit

end Console

end JosLab
