import JosLab.Kern.InputOverflow
import JosLab.Kern.Modifiers

set_option autoImplicit false

namespace JosLab

structure Sent where
  auxiliary : Bool
  byte : UInt8
  deriving DecidableEq, Repr

-- The data port takes the first byte out; the status tells that there is one, and whose it is.
def i8042 (port : Nat) (fifo : List Sent) : UInt8 × List Sent :=
  match fifo with
  | [] => (0, [])
  | head :: rest =>
      if port = 0x60 then (head.byte, rest)
      else if port = 0x64 then (if head.auxiliary then 0x21 else 0x01, fifo)
      else (0, fifo)

namespace Keyboard

def attach {δ : Type} (device : δ) (m : Machine Unit) : Machine δ :=
  { device, serialExists := m.serialExists, shift := m.shift, console := m.console }

section Attach

variable {δ : Type} (device : δ)

def attached (result : Int × Machine Unit) : Outcome Fault (Int × Machine δ) :=
  .done (result.1, attach device result.2)

theorem finish_attach (c : Int) (m : Machine Unit) :
    finish c (attach device m) = finish c m >>= attached device := by
  have shift : (attach device m).shift = m.shift := rfl
  unfold finish
  rw [shift]
  by_cases reboot : ~~~m.shift &&& (ctl ||| alt).toUInt32 = 0 ∧ c = keyDel.toNat
  next =>
    rw [if_pos reboot, if_pos reboot, Outcome.bind_assoc]
    rfl
  next =>
    rw [if_neg reboot, if_neg reboot]
    rfl

theorem press_attach (data : UInt8) (m : Machine Unit) :
    press data (attach device m) = press data m >>= attached device := by
  simp only [press, ← finish_attach, attach]

end Attach

theorem kbdProcData_keyboard (byte : UInt8) (rest : List Sent) (m : Machine Unit) :
    kbdProcData i8042 (attach (⟨false, byte⟩ :: rest) m) =
      kbdProcData (controller byte) m >>= attached rest := by
  rw [kbdProcData_sent]
  have status : i8042 0x64 (⟨false, byte⟩ :: rest) = (0x01, ⟨false, byte⟩ :: rest) := rfl
  have data : i8042 0x60 (⟨false, byte⟩ :: rest) = (byte, rest) := rfl
  have waiting : ¬ (0x01 : UInt8) &&& 0x01 = 0 := by decide
  have keyboard : ¬ (0x01 : UInt8) &&& 0x20 ≠ 0 := by decide
  simp only [kbdProcData, inPort, attach, status, data, waiting, keyboard, if_false,
    Outcome.pure_eq]
  by_cases escape : byte = 0xE0
  next =>
    rw [if_pos escape, if_pos escape]
    rfl
  by_cases up : byte &&& 0x80 ≠ 0
  next =>
    rw [if_neg escape, if_neg escape, if_pos up, if_pos up]
    rfl
  by_cases escaped : m.shift &&& e0esc.toUInt32 ≠ 0
  next =>
    simp only [if_neg escape, if_neg up, if_pos escaped]
    exact press_attach rest (byte ||| 0x80) { m with shift := m.shift &&& ~~~e0esc.toUInt32 }
  next =>
    simp only [if_neg escape, if_neg up, if_neg escaped]
    exact press_attach rest byte m

theorem kbdProcData_none (fifo : List Sent) (m : Machine Unit)
    (none : ∀ head ∈ fifo.head?, head.auxiliary = true) :
    kbdProcData i8042 (attach fifo m) = .done (-1, attach fifo m) := by
  cases fifo with
  | nil => simp [kbdProcData, inPort, attach, i8042]
  | cons head rest =>
    have mouse := none head rfl
    have ignored : ¬ (0x21 : UInt8) &&& 0x20 = 0 := by decide
    simp [kbdProcData, inPort, attach, i8042, mouse, ignored]

def decoded : List UInt8 → Machine Unit → Outcome Fault (List UInt8 × Machine Unit)
  | [], m => return ([], m)
  | byte :: rest, m => do
      let (c, m) ← kbdProcData (controller byte) m
      let (chars, m) ← decoded rest m
      return (if c = 0 then chars else UInt8.ofInt c :: chars, m)

theorem kbdProcData_sent_nonneg {byte : UInt8} {m m' : Machine Unit} {c : Int}
    (called : kbdProcData (controller byte) m = .done (c, m')) : c ≠ -1 := by
  rw [kbdProcData_sent] at called
  split_ifs at called
  next =>
    cases called
    decide
  next =>
    cases called
    decide
  next =>
    cases called
    decide
  next =>
    have range := press_byte called
    omega
  next =>
    have range := press_byte called
    omega

theorem kbdProcData_sent_ready {m : Machine Unit} (ready : Ready m) (byte : UInt8) :
    ∃ c m', kbdProcData (controller byte) m = .done (c, m') ∧ Ready m' := by
  rw [kbdProcData_sent]
  split_ifs
  next => exact ⟨_, _, rfl, ready.inside, ready.maps⟩
  next => exact ⟨_, _, rfl, ready.inside, ready.maps⟩
  next => exact ⟨_, _, rfl, ready.inside, ready.maps⟩
  next =>
    have calm : Ready { m with shift := m.shift &&& ~~~e0esc.toUInt32 } := ⟨ready.inside, ready.maps⟩
    obtain ⟨c, m', ran, ready', -⟩ := press_ready calm (byte ||| 0x80)
    exact ⟨c, m', ran, ready'⟩
  next =>
    obtain ⟨c, m', ran, ready', -⟩ := press_ready ready byte
    exact ⟨c, m', ran, ready'⟩

theorem decoded_ready {m : Machine Unit} (ready : Ready m) (bytes : List UInt8) :
    ∃ chars m', decoded bytes m = .done (chars, m') := by
  induction bytes generalizing m with
  | nil => exact ⟨[], m, rfl⟩
  | cons byte rest ih =>
    obtain ⟨c, m₁, ran, ready₁⟩ := kbdProcData_sent_ready ready byte
    obtain ⟨chars, m', ran_rest⟩ := ih ready₁
    exact ⟨_, m', by simp [decoded, ran, ran_rest]; rfl⟩

end Keyboard

namespace Kernel

open Keyboard

def fromKeyboard (sent : Sent) : Bool := !sent.auxiliary

def bytesOf (fifo : List Sent) : List UInt8 := fifo.map Sent.byte

-- The burst ends at the first byte of the mouse's, which nobody takes out.
theorem burst_i8042 (fuel : Nat) (fifo : List Sent) (m : Machine Unit) (enough : fifo.length < fuel) :
    burst (kbdProcData i8042) fuel (attach fifo m) =
      decoded (bytesOf (fifo.takeWhile fromKeyboard)) m >>= fun result =>
        .done (result.1, attach (fifo.dropWhile fromKeyboard) result.2) := by
  induction fifo generalizing fuel m with
  | nil =>
    obtain ⟨fuel, rfl⟩ := Loop.one_more enough
    have none := kbdProcData_none [] m (by simp)
    simp [burst, none, bytesOf, decoded]
  | cons head rest ih =>
    obtain ⟨fuel, rfl⟩ := Loop.one_more enough
    obtain ⟨auxiliary, byte⟩ := head
    cases auxiliary with
    | true =>
      have none := kbdProcData_none (⟨true, byte⟩ :: rest) m (by simp)
      simp [burst, none, bytesOf, decoded, fromKeyboard]
    | false =>
      have less : rest.length < fuel := by simpa using enough
      rw [burst, kbdProcData_keyboard, Outcome.bind_assoc]
      simp only [fromKeyboard, bytesOf, Bool.not_false, List.takeWhile_cons, List.dropWhile_cons,
        if_true, List.map_cons, decoded, Outcome.bind_assoc]
      cases called : kbdProcData (controller byte) m with
      | fault error => rfl
      | spin => rfl
      | done result =>
        obtain ⟨c, m'⟩ := result
        have counts := kbdProcData_sent_nonneg called
        have later := ih fuel m' less
        simp only [attached, Outcome.done_bind, if_neg counts, later, Outcome.bind_assoc]
        rfl

theorem kbdIntr_i8042 {m : Machine Unit} (ready : Ready m) (fuel : Nat) (fifo : List Sent)
    (enough : fifo.length < fuel) (cons : Cons) (ring : RingBuffer UInt8 512)
    (shows : cons.Shows ring) :
    ∃ chars m', decoded (bytesOf (fifo.takeWhile fromKeyboard)) m = .done (chars, m') ∧
      kbdIntr i8042 fuel ⟨attach fifo m, cons⟩ =
        .done ⟨attach (fifo.dropWhile fromKeyboard) m', chars.foldl Cons.put cons⟩ := by
  obtain ⟨chars, m', ran⟩ := decoded_ready ready (bytesOf (fifo.takeWhile fromKeyboard))
  refine ⟨chars, m', ran, ?_⟩
  have polled := consIntr_burst (kbdProcData i8042) fuel ⟨attach fifo m, cons⟩ ring shows
  rw [burst_i8042 fuel fifo m enough, ran] at polled
  exact polled

end Kernel

def Cons.contents (cons : Cons) : List UInt8 :=
  (List.range cons.readable).map fun i => cons.buf.value ((cons.rpos.toNat + i) % 512)

theorem Cons.Shows.contents {cons : Cons} {ring : RingBuffer UInt8 512} (shows : cons.Shows ring) :
    cons.contents = ring.contents := by
  simp only [Cons.contents, RingBuffer.contents, shows.readable, shows.rpos, shows.value]

namespace Kernel

open Keyboard

def MouseIgnored (fuel : Nat) (fifo : List Sent) (m : Machine Unit) (cons : Cons) : Prop :=
  ∃ chars m' cons', decoded (bytesOf (fifo.filter fromKeyboard)) m = .done (chars, m') ∧
    kbdIntr i8042 fuel ⟨attach fifo m, cons⟩ = .done ⟨attach [] m', cons'⟩ ∧
    (cons.readable + chars.length < 512 → cons'.contents = cons.contents ++ chars)

theorem mouseIgnored_iff (fuel : Nat) (fifo : List Sent) (enough : fifo.length < fuel)
    (m : Machine Unit) (ready : Ready m) (cons : Cons) (ring : RingBuffer UInt8 512)
    (shows : cons.Shows ring) :
    MouseIgnored fuel fifo m cons ↔ ∀ sent ∈ fifo, sent.auxiliary = false := by
  obtain ⟨chars, m', ran, polled⟩ := kbdIntr_i8042 ready fuel fifo enough cons ring shows
  constructor
  next =>
    rintro ⟨_, _, _, _, emptied, _⟩ sent member
    rw [polled] at emptied
    injection emptied with same
    have left : fifo.dropWhile fromKeyboard = [] :=
      congrArg (fun s : Kernel (Machine (List Sent)) => s.machine.device) same
    have keyboard := List.dropWhile_eq_nil_iff.1 left sent member
    simpa [fromKeyboard] using keyboard
  next =>
    intro keyboard
    have all : ∀ sent ∈ fifo, fromKeyboard sent = true := fun sent member => by
      simp [fromKeyboard, keyboard sent member]
    have taken : fifo.takeWhile fromKeyboard = fifo := List.takeWhile_eq_self_iff.2 all
    have left : fifo.dropWhile fromKeyboard = [] := List.dropWhile_eq_nil_iff.2 all
    rw [taken] at ran
    rw [left] at polled
    refine ⟨chars, m', _, ?_, polled, fun room => ?_⟩
    next => rwa [List.filter_eq_self.2 all]
    next =>
      rw [shows.readable] at room
      rw [(shows.puts chars).contents, shows.contents, RingBuffer.pushes_contents ring chars room]

theorem mouseIgnored_letter :
    MouseIgnored 2 [⟨false, 0x1E⟩] poweredOn Cons.zero ↔
      ∀ sent ∈ [⟨false, 0x1E⟩], Sent.auxiliary sent = false :=
  mouseIgnored_iff 2 [⟨false, 0x1E⟩] (by decide) poweredOn poweredOn_ready Cons.zero Cons.emptyRing
    Cons.zero_shows

theorem mouse_blocks : ¬ MouseIgnored 3 [⟨true, 0x08⟩, ⟨false, 0x1E⟩] poweredOn Cons.zero := by
  obtain ⟨chars, m', _, polled⟩ := kbdIntr_i8042 poweredOn_ready 3 [⟨true, 0x08⟩, ⟨false, 0x1E⟩]
    (by decide) Cons.zero Cons.emptyRing Cons.zero_shows
  rintro ⟨_, _, _, _, emptied, _⟩
  rw [polled] at emptied
  cases emptied

end Kernel

end JosLab
