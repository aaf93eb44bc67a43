import JosLab.Kern.Keyboard
import JosLab.Kern.PrintfCount
import JosLab.Lib.StringField
import JosLab.Shared.Latch

set_option autoImplicit false

namespace JosLab.Keyboard

structure Key where
  extended : Bool
  code : UInt8
  -- 0x60 is no key: its break code would be E0 itself.
  plain : code < 0x80 ∧ code ≠ 0x60
  deriving DecidableEq

def Key.escape (key : Key) : List UInt8 := if key.extended then [0xE0] else []

def Key.data (key : Key) : UInt8 := if key.extended then key.code ||| 0x80 else key.code

def scancodes : Latch.Event Key → List UInt8
  | .press key => key.escape ++ [key.code]
  | .release key => key.escape ++ [key.code ||| 0x80]

inductive Modifier where
  | shift
  | ctl
  | alt
  deriving DecidableEq, Repr

def Modifier.bit : Modifier → UInt8
  | .shift => shiftBit
  | .ctl => Keyboard.ctl
  | .alt => Keyboard.alt

def Modifier.keys : Modifier → List Key
  | .shift => [⟨false, 0x2A, by decide⟩, ⟨false, 0x36, by decide⟩]
  | .ctl => [⟨false, 0x1D, by decide⟩, ⟨true, 0x1D, by decide⟩]
  | .alt => [⟨false, 0x38, by decide⟩, ⟨true, 0x38, by decide⟩]

def controller (byte : UInt8) (port : Nat) (_ : Unit) : UInt8 × Unit :=
  (if port = 0x60 then byte else 0x01, ())

def feed (bytes : List UInt8) (m : Machine Unit) : Outcome Fault (Machine Unit) :=
  bytes.foldlM (fun m byte => do return (← kbdProcData (controller byte) m).2) m

def has (shift : UInt32) (i : Nat) : Bool := shift.toBitVec.getLsbD i

theorem and_shiftLeft (shift : UInt32) (i : Nat) (lt : i < 32) (bit : UInt32)
    (single : bit.toBitVec = BitVec.twoPow 32 i) : shift &&& bit ≠ 0 ↔ has shift i = true := by
  have masked : (shift &&& bit).toBitVec = if has shift i then BitVec.twoPow 32 i else 0#32 := by
    rw [UInt32.toBitVec_and, single, BitVec.and_twoPow]
    rfl
  have some : BitVec.twoPow 32 i ≠ 0#32 := by
    intro none
    have bit := congrArg (fun x => x.getLsbD i) none
    simp [lt] at bit
  rw [ne_eq, ← UInt32.toBitVec_inj, masked]
  cases has shift i <;> simp [some]

def escIndex : Nat := 6

def Modifier.index : Modifier → Nat
  | .shift => 0
  | .ctl => 1
  | .alt => 2

theorem e0esc_has (shift : UInt32) : shift &&& e0esc.toUInt32 ≠ 0 ↔ has shift escIndex = true :=
  and_shiftLeft shift escIndex (by decide) _ (by decide)

theorem Modifier.bit_has (shift : UInt32) (modifier : Modifier) :
    shift &&& modifier.bit.toUInt32 ≠ 0 ↔ has shift modifier.index = true := by
  apply and_shiftLeft
  · cases modifier <;> decide
  · cases modifier <;> decide

theorem shiftcode_has (key : Key) (modifier : Modifier) :
    has (shiftcode key.data).toUInt32 modifier.index = decide (key ∈ modifier.keys) := by
  obtain ⟨extended, code, plain, _⟩ := key
  have table : ∀ code : UInt8, code < 0x80 →
      (has (shiftcode code).toUInt32 modifier.index =
        modifier.keys.any fun other => !other.extended && other.code = code) ∧
      has (shiftcode (code ||| 0x80)).toUInt32 modifier.index =
        modifier.keys.any fun other => other.extended && other.code = code := by
    cases modifier <;> decide +kernel
  obtain ⟨single, escaped⟩ := table code plain
  cases extended
  next =>
    refine single.trans ?_
    cases modifier <;> simp [Modifier.keys, eq_comm]
  next =>
    refine escaped.trans ?_
    cases modifier <;> simp [Modifier.keys, eq_comm]

theorem codes_other (data : UInt8) :
    (∀ modifier : Modifier, has (togglecode data).toUInt32 modifier.index = false) ∧
      has (togglecode data).toUInt32 escIndex = false ∧
      has (shiftcode data).toUInt32 escIndex = false := by
  have table : ∀ data : UInt8,
      (∀ modifier ∈ [Modifier.shift, .ctl, .alt],
        has (togglecode data).toUInt32 modifier.index = false) ∧
      has (togglecode data).toUInt32 escIndex = false ∧
      has (shiftcode data).toUInt32 escIndex = false := by decide +kernel
  obtain ⟨toggles, rest⟩ := table data
  exact ⟨fun modifier => toggles modifier (by cases modifier <;> decide), rest⟩

structure Ready (m : Machine Unit) : Prop where
  inside : m.console.crtPos < Console.crtSize
  maps : m.console.mem.Maps m.console.crtBuf (m.console.crtBuf + 4000)

theorem finish_ready {m : Machine Unit} (ready : Ready m) (c : Int) :
    ∃ m', finish c m = .done (c, m') ∧ m'.shift = m.shift ∧ Ready m' := by
  unfold finish
  split
  next =>
    obtain ⟨s, ran, inside, shown⟩ := Console.emit_cputchar
      (rebooting.bytes.map fun ch => (ch.toNat : Int)) (Console.paper_shown m.console) ready.inside
      ready.maps
    have text := Printfmt.printed_text rebooting (by decide) []
    have called : Console.cprintf rebooting [] m.console = .done (0, s) := by
      simp [Console.cprintf, Console.vcprintf_emit text, ran]
    refine ⟨{ m with console := s.outb 0x92 0x3 }, ?_, rfl, ⟨inside, ?_⟩⟩
    · rw [called]
      rfl
    · exact shown.maps ready.maps
  next => exact ⟨m, rfl, rfl, ready⟩

theorem escape_cleared (shift code : UInt32) (calm : has shift escIndex = false) :
    shift &&& ~~~(code ||| e0esc.toUInt32) = shift &&& ~~~code ∧
      (shift ||| e0esc.toUInt32) &&& ~~~(code ||| e0esc.toUInt32) = shift &&& ~~~code := by
  have single : e0esc.toUInt32.toBitVec = BitVec.twoPow 32 escIndex := by decide
  have bits (i : Nat) (here : e0esc.toUInt32.toBitVec.getLsbD i = true) :
      shift.toBitVec.getLsbD i = false := by
    rw [single, BitVec.getLsbD_twoPow] at here
    simp at here
    rw [← here.2]
    exact calm
  constructor
  all_goals
    apply UInt32.toBitVec_inj.1
    ext i lt
    have bit := bits i
    simp only [BitVec.getLsbD_eq_getElem lt] at bit
    simp only [UInt32.toBitVec_and, UInt32.toBitVec_or, UInt32.toBitVec_not, BitVec.getElem_and,
      BitVec.getElem_or, BitVec.getElem_not]
    revert bit
    cases shift.toBitVec[i] <;> cases e0esc.toUInt32.toBitVec[i] <;> simp

@[simp] theorem has_or (x y : UInt32) (i : Nat) : has (x ||| y) i = (has x i || has y i) := by
  simp [has]

@[simp] theorem has_xor (x y : UInt32) (i : Nat) : has (x ^^^ y) i = (has x i ^^ has y i) := by
  simp [has]

theorem has_clear (x y : UInt32) (i : Nat) (lt : i < 32) :
    has (x &&& ~~~y) i = (has x i && !has y i) := by
  simp [has, lt]

theorem feed_cons (byte : UInt8) (rest : List UInt8) (m : Machine Unit) :
    feed (byte :: rest) m = kbdProcData (controller byte) m >>= fun result =>
      feed rest result.2 := by
  simp [feed, Outcome.bind_assoc]

theorem feed_append (first second : List UInt8) (m : Machine Unit) :
    feed (first ++ second) m = feed first m >>= feed second := by
  induction first generalizing m with
  | nil => rfl
  | cons byte rest ih => simp only [List.cons_append, feed_cons, ih, Outcome.bind_assoc]

theorem kbdProcData_sent (byte : UInt8) (m : Machine Unit) :
    kbdProcData (controller byte) m =
      if byte = 0xE0 then .done (0, { m with shift := m.shift ||| e0esc.toUInt32 })
      else if byte &&& 0x80 ≠ 0 then
        let data := if m.shift &&& e0esc.toUInt32 ≠ 0 then byte else byte &&& 0x7F
        .done (0, { m with shift := m.shift &&& ~~~(shiftcode data ||| e0esc).toUInt32 })
      else if m.shift &&& e0esc.toUInt32 ≠ 0 then
        press (byte ||| 0x80) { m with shift := m.shift &&& ~~~e0esc.toUInt32 }
      else press byte m := by
  have waiting : ¬ (0x01 : UInt8) &&& 0x01 = 0 := by decide
  have keyboard : ¬ (0x01 : UInt8) &&& 0x20 ≠ 0 := by decide
  have status : controller byte 0x64 m.device = (0x01, m.device) := rfl
  have data : controller byte 0x60 m.device = (byte, m.device) := rfl
  simp only [kbdProcData, inPort, status, data, waiting, keyboard, if_false, Outcome.pure_eq]

theorem Key.codes (key : Key) :
    key.code ≠ 0xE0 ∧ key.code &&& 0x80 = 0 ∧ key.code ||| 0x80 ≠ 0xE0 ∧
      (key.code ||| 0x80) &&& 0x80 ≠ 0 ∧ (key.code ||| 0x80) &&& 0x7F = key.code := by
  have all : ∀ code : UInt8, code < 0x80 → code ≠ 0x60 →
      code ≠ 0xE0 ∧ code &&& 0x80 = 0 ∧ code ||| 0x80 ≠ 0xE0 ∧
        (code ||| 0x80) &&& 0x80 ≠ 0 ∧ (code ||| 0x80) &&& 0x7F = code := by decide +kernel
  exact all key.code key.plain.1 key.plain.2

theorem press_ready {m : Machine Unit} (ready : Ready m) (data : UInt8) :
    ∃ c m', press data m = .done (c, m') ∧ Ready m' ∧
      m'.shift = (m.shift ||| (shiftcode data).toUInt32) ^^^ (togglecode data).toUInt32 := by
  let shift := (m.shift ||| (shiftcode data).toUInt32) ^^^ (togglecode data).toUInt32
  have struck : Ready { m with shift } := ⟨ready.inside, ready.maps⟩
  obtain ⟨m', ran, same, ready'⟩ := finish_ready struck (capsLock shift (charcode shift data).toNat)
  exact ⟨_, m', ran, ready', same⟩

theorem escaped (shift : UInt32) : (shift ||| e0esc.toUInt32) &&& e0esc.toUInt32 ≠ 0 := by
  have set : has e0esc.toUInt32 escIndex = true := by decide
  rw [e0esc_has, has_or, set, Bool.or_true]

theorem unescaped (shift : UInt32) (calm : has shift escIndex = false) :
    shift &&& e0esc.toUInt32 = 0 := by
  have clear : ¬ shift &&& e0esc.toUInt32 ≠ 0 := by simp [e0esc_has, calm]
  exact not_not.mp clear

theorem feed_press {m : Machine Unit} (ready : Ready m) (calm : has m.shift escIndex = false)
    (key : Key) :
    ∃ m', feed (scancodes (.press key)) m = .done m' ∧ Ready m' ∧
      m'.shift = (m.shift ||| (shiftcode key.data).toUInt32) ^^^ (togglecode key.data).toUInt32 := by
  obtain ⟨not_escape, down, -⟩ := key.codes
  by_cases extended : key.extended = true
  next =>
    have cleared : (m.shift ||| e0esc.toUInt32) &&& ~~~e0esc.toUInt32 = m.shift := by
      simpa using (escape_cleared m.shift 0 calm).2
    obtain ⟨c, m', ran, ready', shift⟩ := press_ready ready (key.code ||| 0x80)
    refine ⟨m', ?_, ready', ?_⟩
    · simp [feed, scancodes, Key.escape, extended, kbdProcData_sent, not_escape, down, escaped,
        cleared, ran]
    · simpa [Key.data, extended] using shift
  next =>
    have unescaped := unescaped m.shift calm
    obtain ⟨c, m', ran, ready', shift⟩ := press_ready ready key.code
    refine ⟨m', ?_, ready', ?_⟩
    · simp [feed, scancodes, Key.escape, extended, kbdProcData_sent, not_escape, down,
        unescaped, ran]
    · simpa [Key.data, extended] using shift

theorem feed_release {m : Machine Unit} (ready : Ready m) (calm : has m.shift escIndex = false)
    (key : Key) :
    ∃ m', feed (scancodes (.release key)) m = .done m' ∧ Ready m' ∧
      m'.shift = m.shift &&& ~~~(shiftcode key.data).toUInt32 := by
  obtain ⟨-, -, not_escape, up, code⟩ := key.codes
  obtain ⟨plain, extended_clears⟩ := escape_cleared m.shift (shiftcode key.data).toUInt32 calm
  by_cases extended : key.extended = true
  next =>
    refine ⟨{ m with shift := m.shift &&& ~~~(shiftcode key.data).toUInt32 }, ?_,
      ⟨ready.inside, ready.maps⟩, rfl⟩
    have data : key.data = key.code ||| 0x80 := if_pos extended
    rw [data] at extended_clears ⊢
    simp [feed, scancodes, Key.escape, extended, kbdProcData_sent, not_escape, up, escaped,
      extended_clears]
  next =>
    have unescaped := unescaped m.shift calm
    refine ⟨{ m with shift := m.shift &&& ~~~(shiftcode key.data).toUInt32 }, ?_,
      ⟨ready.inside, ready.maps⟩, rfl⟩
    have data : key.data = key.code := if_neg extended
    rw [data] at plain ⊢
    simp [feed, scancodes, Key.escape, extended, kbdProcData_sent, not_escape, up, code, unescaped,
      plain]

structure Tracks (events : List (Latch.Event Key)) (m : Machine Unit) : Prop where
  ready : Ready m
  calm : has m.shift escIndex = false
  bits : ∀ modifier : Modifier, has m.shift modifier.index = Latch.latched modifier.keys events

variable {events : List (Latch.Event Key)} {m : Machine Unit}

theorem Tracks.step (tracks : Tracks events m) (event : Latch.Event Key) :
    ∃ m', feed (scancodes event) m = .done m' ∧ Tracks (events ++ [event]) m' := by
  cases event with
  | press key =>
    obtain ⟨m', ran, ready, shift⟩ := feed_press tracks.ready tracks.calm key
    obtain ⟨toggles, toggles_esc, shifts_esc⟩ := codes_other key.data
    refine ⟨m', ran, ready, ?_, fun modifier => ?_⟩
    · simp [shift, tracks.calm, toggles_esc, shifts_esc]
    · rw [Latch.latched_snoc, shift, has_xor, has_or, toggles, shiftcode_has, tracks.bits]
      by_cases member : key ∈ modifier.keys <;>
        simp [Latch.latch, Latch.Event.key, Latch.Event.down, member]
  | release key =>
    obtain ⟨m', ran, ready, shift⟩ := feed_release tracks.ready tracks.calm key
    refine ⟨m', ran, ready, ?_, fun modifier => ?_⟩
    · rw [shift, has_clear _ _ _ (by decide), tracks.calm, Bool.false_and]
    · have inside : modifier.index < 32 := by cases modifier <;> decide
      rw [Latch.latched_snoc, shift, has_clear _ _ _ inside, shiftcode_has, tracks.bits]
      by_cases member : key ∈ modifier.keys <;>
        simp [Latch.latch, Latch.Event.key, Latch.Event.down, member]

theorem Tracks.run (m : Machine Unit) (ready : Ready m) (initial : m.shift = 0)
    (events : List (Latch.Event Key)) :
    ∃ m', feed (events.flatMap scancodes) m = .done m' ∧ Tracks events m' := by
  induction events using List.reverseRecOn with
  | nil => exact ⟨m, rfl, ready, by simp [initial, has], by simp [initial, has, Latch.latched]⟩
  | append_singleton events event ih =>
    obtain ⟨before, ran, tracks⟩ := ih
    obtain ⟨after, last, tracks'⟩ := tracks.step event
    exact ⟨after, by simp [feed_append, ran, last], tracks'⟩

def Tracked (modifier : Modifier) (events : List (Latch.Event Key)) (shift : UInt32) : Prop :=
  shift &&& modifier.bit.toUInt32 ≠ 0 ↔ ∃ key ∈ modifier.keys, Latch.held events key = true

theorem modifiers_tracked (m : Machine Unit) (ready : Ready m) (initial : m.shift = 0)
    (events : List (Latch.Event Key)) :
    ∃ m', feed (events.flatMap scancodes) m = .done m' ∧ ∀ modifier : Modifier,
      Tracked modifier events m'.shift ↔ Latch.Settled modifier.keys events := by
  obtain ⟨m', ran, tracks⟩ := Tracks.run m ready initial events
  refine ⟨m', ran, fun modifier => ?_⟩
  rw [Tracked, Modifier.bit_has, tracks.bits]
  exact Latch.latched_exact modifier.keys events

def overlapping : List (Latch.Event Key) :=
  [.press ⟨false, 0x1D, by decide⟩, .press ⟨true, 0x1D, by decide⟩,
    .release ⟨false, 0x1D, by decide⟩]

def poweredOn : Machine Unit where
  device := ()
  serialExists := false
  shift := 0
  console := Console.lastCell

theorem poweredOn_ready : Ready poweredOn := ⟨by decide, Console.lastCell_maps⟩

theorem overlapping_tracked :
    ∃ m', feed (overlapping.flatMap scancodes) poweredOn = .done m' ∧ ∀ modifier : Modifier,
      Tracked modifier overlapping m'.shift ↔ Latch.Settled modifier.keys overlapping :=
  modifiers_tracked poweredOn poweredOn_ready rfl overlapping

-- The bytes 1D E0 1D 9D leave CTL clear, with the right control key held.
theorem overlapping_lost :
    overlapping.flatMap scancodes = [0x1D, 0xE0, 0x1D, 0x9D] ∧
      ∃ m', feed (overlapping.flatMap scancodes) poweredOn = .done m' ∧
        m'.shift &&& Keyboard.ctl.toUInt32 = 0 ∧
        Latch.held overlapping ⟨true, 0x1D, by decide⟩ = true ∧
        ¬ Tracked .ctl overlapping m'.shift := by
  obtain ⟨m', ran, tracks⟩ := Tracks.run poweredOn poweredOn_ready rfl overlapping
  have held : Latch.held overlapping ⟨true, 0x1D, by decide⟩ = true := by decide
  have bit := tracks.bits .ctl
  have clear : ¬ m'.shift &&& Keyboard.ctl.toUInt32 ≠ 0 := by
    rw [show Keyboard.ctl = Modifier.ctl.bit from rfl, Modifier.bit_has, bit]
    decide
  refine ⟨by decide, m', ran, not_not.1 clear, held, fun tracked => ?_⟩
  exact clear (tracked.2 ⟨_, by decide, held⟩)

end JosLab.Keyboard
