import JosLab.Kern.ConsoleActs
import JosLab.Shared.Handshake

set_option autoImplicit false

namespace JosLab

-- A byte is held for as many polls as the port likes, and then goes out on the line.
structure Uart where
  line : List UInt8
  holding : Option UInt8
  busy : Nat
  delays : Nat → Nat
  bytes : Nat

namespace Uart

def comLsrTxrdy : UInt8 := 0x20

def lsr (u : Uart) : UInt8 × Uart :=
  match u.holding, u.busy with
  | none, _ => (comLsrTxrdy, u)
  | some byte, 0 => (comLsrTxrdy, { u with line := u.line ++ [byte], holding := none })
  | some _, busy + 1 => (0, { u with busy })

def txrdy (u : Uart) : Bool × Uart :=
  let (lsr, u) := u.lsr
  (decide (lsr &&& comLsrTxrdy ≠ 0), u)

-- outb(COM1+COM_TX, data): what is still held is written over.
def tx (data : UInt8) (u : Uart) : Uart :=
  { u with holding := some data, busy := u.delays u.bytes, bytes := u.bytes + 1 }

-- for (i = 0; !(inb(COM1+COM_LSR) & COM_LSR_TXRDY) && i < 12800; i++) delay();
def wait (u : Uart) : Uart := (Handshake.waitUpTo txrdy id 12800 u).2

def serialPutc (c : UInt8) (u : Uart) : Uart := u.wait.tx c

def output (u : Uart) : List UInt8 := u.line ++ u.holding.toList

def settled (u : Uart) : Bool := decide (u.holding = none ∨ u.busy ≤ 12800)

theorem txrdy_after (u : Uart) (byte : UInt8) (held : u.holding = some byte) :
    Handshake.ReadyAfter txrdy id u.busy u
      { u with line := u.line ++ [byte], holding := none, busy := 0 } := by
  obtain ⟨line, holding, busy, delays, bytes⟩ := u
  simp only at held
  subst held
  induction busy with
  | zero => exact .now rfl
  | succ busy ih => exact .later rfl ih

theorem waitUpTo_late (bound : Nat) (u : Uart) (byte : UInt8) (held : u.holding = some byte)
    (late : bound < u.busy) :
    (Handshake.waitUpTo txrdy id bound u).2 = { u with busy := u.busy - (bound + 1) } := by
  obtain ⟨line, holding, busy, delays, bytes⟩ := u
  simp only at held late
  subst held
  induction bound generalizing busy with
  | zero =>
    obtain ⟨busy, rfl⟩ := Loop.one_more late
    rfl
  | succ bound ih =>
    obtain ⟨busy, rfl⟩ := Loop.one_more late
    have rest := ih busy (by omega)
    have size : busy + 1 - (bound + 1 + 1) = busy - (bound + 1) := by omega
    rw [size, ← rest]
    rfl

theorem wait_idle (u : Uart) (idle : u.holding = none) : u.wait = u := by
  obtain ⟨line, holding, busy, delays, bytes⟩ := u
  simp only at idle
  subst idle
  rfl

theorem serialPutc_eq (c : UInt8) (u : Uart) :
    u.serialPutc c =
      { line := if u.settled then u.output else u.line
        holding := some c
        busy := u.delays u.bytes
        delays := u.delays
        bytes := u.bytes + 1 } := by
  cases held : u.holding with
  | none => simp [serialPutc, wait_idle u held, settled, held, output, tx]
  | some byte =>
    by_cases late : 12800 < u.busy
    next =>
      have waited := waitUpTo_late 12800 u byte held late
      have lost : ¬ u.busy ≤ 12800 := by omega
      simp [serialPutc, wait, waited, settled, held, lost, tx]
    next =>
      have waited := (txrdy_after u byte held).waitUpTo 12800 (by omega)
      have kept : u.busy ≤ 12800 := by omega
      simp [serialPutc, wait, waited, settled, held, kept, output, tx]

theorem serialPutc_output (c : UInt8) (u : Uart) :
    (u.serialPutc c).output = (if u.settled then u.output else u.line) ++ [c] := by
  rw [serialPutc_eq]
  rfl

theorem unsettled_shorter {u : Uart} (unsettled : u.settled = false) :
    u.line.length + 1 = u.output.length := by
  cases held : u.holding with
  | none => simp [settled, held] at unsettled
  | some byte => simp [output, held]

def serialPuts (bytes : List UInt8) (u : Uart) : Uart := bytes.foldl (fun u c => u.serialPutc c) u

theorem serialPuts_length (bytes : List UInt8) (u : Uart) :
    (u.serialPuts bytes).output.length ≤ u.output.length + bytes.length := by
  induction bytes generalizing u with
  | nil => exact le_rfl
  | cons c rest ih =>
    have later := ih (u.serialPutc c)
    have here : (u.serialPutc c).output.length ≤ u.output.length + 1 := by
      rw [serialPutc_output, List.length_append, List.length_singleton]
      cases settled : u.settled with
      | true => simp
      | false =>
        have shorter := unsettled_shorter settled
        simp only [Bool.false_eq_true, if_false]
        omega
    rw [List.length_cons]
    exact later.trans (by omega)

theorem serialPuts_iff (bytes : List UInt8) (u : Uart) :
    (u.serialPuts bytes).output = u.output ++ bytes ↔
      (bytes ≠ [] → u.settled = true) ∧
        ∀ i, i + 1 < bytes.length → u.delays (u.bytes + i) ≤ 12800 := by
  induction bytes generalizing u with
  | nil => simp [serialPuts]
  | cons c rest ih =>
    have first : u.serialPuts (c :: rest) = (u.serialPutc c).serialPuts rest := rfl
    cases settled : u.settled with
    | false =>
      have shorter := unsettled_shorter settled
      have later := serialPuts_length rest (u.serialPutc c)
      rw [serialPutc_output, settled, List.length_append, List.length_singleton] at later
      simp only [Bool.false_eq_true, if_false] at later
      simp only [ne_eq, reduceCtorEq, not_false_eq_true, Bool.false_eq_true, imp_false,
        not_true_eq_false, false_and, iff_false]
      intro same
      rw [first] at same
      have length := congrArg List.length same
      rw [List.length_append, List.length_cons] at length
      omega
    | true =>
      have next := ih (u.serialPutc c)
      have delays : (u.serialPutc c).delays = u.delays := by rw [serialPutc_eq]
      have count : (u.serialPutc c).bytes = u.bytes + 1 := by rw [serialPutc_eq]
      have settles : (u.serialPutc c).settled = true ↔ u.delays u.bytes ≤ 12800 := by
        rw [serialPutc_eq]
        simp [Uart.settled]
      rw [serialPutc_output, settled, if_pos rfl, List.append_assoc, List.singleton_append,
        settles, delays, count] at next
      rw [first, next]
      constructor
      next =>
        rintro ⟨here, later⟩
        refine ⟨fun _ => rfl, fun i lt => ?_⟩
        rw [List.length_cons] at lt
        cases i with
        | zero => exact here (List.ne_nil_of_length_pos (by omega))
        | succ i =>
          have after := later i (by omega)
          rwa [Nat.add_assoc, Nat.add_comm 1] at after
      next =>
        rintro ⟨-, all⟩
        refine ⟨fun some => ?_, fun i lt => ?_⟩
        · have positive := List.length_pos_iff.2 some
          exact all 0 (by rw [List.length_cons]; omega)
        · have after := all (i + 1) (by rw [List.length_cons]; omega)
          rwa [Nat.add_assoc, Nat.add_comm 1]

end Uart

namespace Console

theorem serial_lossless (s : Console) (onScreen : s.crtPos < crtSize)
    (maps : s.mem.Maps s.crtBuf (s.crtBuf + 4000)) (acts : List Act) (u : Uart)
    (idle : u.holding = none) :
    ∃ s' sent, play acts s = .done s' ∧ transmitted com1 s' = transmitted com1 s ++ sent ∧
      sent = (acts.flatMap Act.bytes).flatMap spread ∧
      ((u.serialPuts sent).output = u.line ++ sent ↔
        ∀ i, i + 1 < sent.length → u.delays (u.bytes + i) ≤ 12800) := by
  have steady : Steady s s := ⟨onScreen, _, paper_shown s⟩
  obtain ⟨s', played, -, sends, -⟩ := play_steady maps acts steady
  refine ⟨s', _, played, transmitted_spread com1 (.inl rfl) _ sends, rfl, ?_⟩
  have line : u.output = u.line := by simp [Uart.output, idle]
  have settled : u.settled = true := by simp [Uart.settled, idle]
  rw [← line, Uart.serialPuts_iff, settled]
  simp

def slowUart : Uart where
  line := []
  holding := none
  busy := 0
  delays n := if n = 1 then 12801 else 12800
  bytes := 0

theorem slowUart_loses :
    ∃ s', play [.text [65, 66, 67]] lastCell = .done s' ∧
      (slowUart.serialPuts (transmitted com1 s')).output ≠ [65, 66, 67] := by
  obtain ⟨s', sent, played, transmitted, same, lossless⟩ := serial_lossless lastCell (by decide)
    lastCell_maps [.text [65, 66, 67]] slowUart rfl
  have bytes : sent = [65, 66, 67] := same.trans (by decide)
  subst bytes
  refine ⟨s', played, fun whole => ?_⟩
  have empty : Console.transmitted com1 lastCell = [] := rfl
  rw [transmitted, empty, List.nil_append] at whole
  exact absurd (lossless.1 whole 1 (by decide)) (by decide)

end Console

end JosLab
