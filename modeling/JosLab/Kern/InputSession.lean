import JosLab.Kern.InputOrder
import JosLab.Kern.KernelCommands
import JosLab.Kern.Typing

set_option autoImplicit false

namespace JosLab

structure Arrivals where
  serial : List UInt8
  keys : List UInt8

namespace Arrivals

def none : Arrivals := ⟨[], []⟩

def chars (shift : UInt32) (now : Arrivals) : List UInt8 :=
  now.serial ++ (Keyboard.taps shift now.keys).1

def after (shift : UInt32) (now : Arrivals) : UInt32 := (Keyboard.taps shift now.keys).2

end Arrivals

abbrev Schedule := List Arrivals

namespace Schedule

def inb (port : Nat) (d : Schedule) : UInt8 × Schedule :=
  match d with
  | [] => (0, [])
  | now :: later =>
      if port = 0x3F8 + 5 then (if now.serial = [] then 0 else 1, d)
      else if port = 0x3F8 then
        match now.serial with
        | [] => (0, d)
        | byte :: rest => (byte, { now with serial := rest } :: later)
      -- the keyboard is polled last
      else if port = 0x64 then if now.keys = [] then (0, later) else (1, d)
      else if port = 0x60 then
        match now.keys with
        | [] => (0, d)
        | byte :: rest => (byte, { now with keys := rest } :: later)
      else (0, d)

def chars : UInt32 → Schedule → List UInt8
  | _, [] => []
  | shift, now :: later => now.chars shift ++ chars (now.after shift) later

def Paced : Nat → UInt32 → Schedule → Prop
  | _, _, [] => True
  | waiting, shift, now :: later =>
      waiting + (now.chars shift).length ≤ 511 ∧
        Paced (waiting + (now.chars shift).length - 1) (now.after shift) later

def Unalted (shift : UInt32) (d : Schedule) : Prop :=
  Keyboard.has shift 2 = false ∧ ∀ now ∈ d, ∀ byte ∈ now.keys, byte &&& 0x7F ≠ 0x38

def Enough (fuel : Nat) (d : Schedule) : Prop :=
  d.length + 1 < fuel ∧ ∀ now ∈ d, now.serial.length + 1 < fuel ∧ now.keys.length + 1 < fuel

theorem Enough.tail {fuel : Nat} {d : Schedule} (enough : Enough fuel d) : Enough fuel d.tail := by
  obtain ⟨polls, each⟩ := enough
  have shorter : d.tail.length = d.length - 1 := List.length_tail
  exact ⟨by omega, fun now member => each now (List.mem_of_mem_tail member)⟩

end Schedule

namespace Keyboard

theorem tap_unalted {shift : UInt32} {byte : UInt8} (free : has shift 2 = false)
    (other : byte &&& 0x7F ≠ 0x38) : has (tap shift byte).2 2 = false := by
  have table : ∀ byte : UInt8, byte &&& 0x7F ≠ 0x38 →
      has (shiftcode byte).toUInt32 2 = false ∧
      has (shiftcode (byte ||| 0x80)).toUInt32 2 = false := by decide +kernel
  obtain ⟨plain, extended⟩ := table byte other
  have struck_free (data : UInt8) (shift : UInt32) (free : has shift 2 = false)
      (code : has (shiftcode data).toUInt32 2 = false) : has (struck data shift).2 2 = false := by
    have toggle : has (togglecode data).toUInt32 2 = false := (codes_other data).1 .alt
    simp [struck, free, code, toggle]
  have escape : has e0esc.toUInt32 2 = false := by decide
  unfold tap
  split
  next => simp [free, escape]
  split
  next =>
    rw [has_clear _ _ _ (by decide), free]
    rfl
  split
  next =>
    apply struck_free _ _ _ extended
    rw [has_clear _ _ _ (by decide), free]
    rfl
  next => exact struck_free _ _ free plain

theorem finish_unalted {δ : Type} {m : Machine δ} (free : has m.shift 2 = false) (c : Int) :
    finish c m = .done (c, m) := by
  have other : ¬ (~~~m.shift &&& (ctl ||| alt).toUInt32 = 0 ∧ c = keyDel.toNat) := by
    rintro ⟨both, -⟩
    have bit := congrArg (fun shift => has shift 2) both
    have mask : has (ctl ||| alt).toUInt32 2 = true := by decide
    have zero : has 0 2 = false := by decide
    have split : has (~~~m.shift &&& (ctl ||| alt).toUInt32) 2 =
        (!has m.shift 2 && has (ctl ||| alt).toUInt32 2) := by
      simp [has]
    simp only [split, free, mask, zero] at bit
    cases bit
  rw [finish, if_neg other]
  rfl

theorem tap_nonneg (shift : UInt32) (byte : UInt8) : (tap shift byte).1 ≠ -1 := by
  have letter (data : UInt8) (shift : UInt32) : (struck data shift).1 ≠ -1 := by
    have range := capsLock_byte (struck data shift).2 (charcode (struck data shift).2 data)
    change 0 ≤ (struck data shift).1 ∧ (struck data shift).1 ≤ 255 at range
    omega
  have none : (0 : Int) ≠ -1 := by decide
  unfold tap
  split
  next => exact none
  split
  next => exact none
  split
  next => exact letter _ _
  next => exact letter _ _

end Keyboard

namespace Kernel

open Schedule Keyboard

variable {m : Machine Schedule} {now : Arrivals} {later : Schedule}

theorem serialProcData_byte {byte : UInt8} {rest : List UInt8}
    (device : m.device = now :: later) (waiting : now.serial = byte :: rest) :
    serialProcData inb m =
      .done (byte.toNat, { m with device := { now with serial := rest } :: later }) := by
  simp [serialProcData, inPort, inb, device, waiting]

theorem serialProcData_none (silent : ∀ now ∈ m.device.head?, now.serial = []) :
    serialProcData inb m = .done (-1, m) := by
  obtain ⟨device, serialExists, shift, console⟩ := m
  cases device with
  | nil => simp [serialProcData, inPort, inb]
  | cons now later =>
    have empty := silent now rfl
    simp [serialProcData, inPort, inb, empty]

theorem kbdProcData_byte {byte : UInt8} {rest : List UInt8} (device : m.device = now :: later)
    (waiting : now.keys = byte :: rest) (free : has m.shift 2 = false)
    (other : byte &&& 0x7F ≠ 0x38) :
    kbdProcData inb m = .done ((tap m.shift byte).1,
      { m with
        device := { now with keys := rest } :: later
        shift := (tap m.shift byte).2 }) := by
  have status : inb 0x64 m.device = (0x01, m.device) := by simp [inb, device, waiting]
  have data : inb 0x60 m.device = (byte, { now with keys := rest } :: later) := by
    simp [inb, device, waiting]
  have keyboard : (0x01 : UInt8) &&& 0x20 = 0 := by decide
  have freed : has (tap m.shift byte).2 2 = false := tap_unalted free other
  rw [kbdProcData_tap inb m status (by decide) keyboard data]
  generalize tap m.shift byte = tapped at freed
  exact finish_unalted freed _

theorem kbdProcData_none (silent : ∀ now ∈ m.device.head?, now.keys = []) :
    kbdProcData inb m = .done (-1, { m with device := m.device.tail }) := by
  obtain ⟨device, serialExists, shift, console⟩ := m
  cases device with
  | nil => simp [kbdProcData, inPort, inb]
  | cons now later =>
    have empty := silent now rfl
    simp [kbdProcData, inPort, inb, empty]

theorem burst_stops {μ : Type} {proc : μ → Outcome Fault (Int × μ)} {machine machine' : μ}
    (fuel : Nat) (finished : proc machine = .done (-1, machine')) :
    burst proc (fuel + 1) machine = .done ([], machine') := by
  simp [burst, finished]

theorem burst_serial (bytes : List UInt8) (clean : 0 ∉ bytes) (device : m.device = now :: later)
    (waiting : now.serial = bytes) (fuel : Nat) (enough : bytes.length < fuel) :
    burst (serialProcData inb) fuel m =
      .done (bytes, { m with device := { now with serial := [] } :: later }) := by
  induction bytes generalizing m now fuel with
  | nil =>
    obtain ⟨fuel, rfl⟩ := Loop.one_more enough
    have same : { m with device := { now with serial := [] } :: later } = m := by
      rw [← waiting, ← device]
    rw [same]
    apply burst_stops fuel
    apply serialProcData_none
    rw [device]
    rintro _ ⟨⟩
    exact waiting
  | cons byte bytes ih =>
    rw [List.length_cons] at enough
    obtain ⟨fuel, rfl⟩ := Loop.one_more enough
    simp only [List.mem_cons, not_or] at clean
    have range := byte.toNat_lt
    have nonzero : byte.toNat ≠ 0 := fun zero => clean.1 (UInt8.toNat_inj.1 zero.symm)
    have more : (byte.toNat : Int) ≠ -1 := by omega
    have rest := ih (m := { m with device := { now with serial := bytes } :: later }) clean.2 rfl rfl
      fuel (by omega)
    simp [burst, serialProcData_byte device waiting, nonzero, more, rest, toNat_ofInt]

theorem burst_keys (bytes : List UInt8) (free : has m.shift 2 = false)
    (others : ∀ byte ∈ bytes, byte &&& 0x7F ≠ 0x38) (device : m.device = now :: later)
    (waiting : now.keys = bytes) (fuel : Nat) (enough : bytes.length < fuel) :
    burst (kbdProcData inb) fuel m = .done ((taps m.shift bytes).1,
      { m with
        device := later
        shift := (taps m.shift bytes).2 }) := by
  induction bytes generalizing m now fuel with
  | nil =>
    obtain ⟨fuel, rfl⟩ := Loop.one_more enough
    have silent : ∀ now ∈ m.device.head?, now.keys = [] := by
      rw [device]
      rintro _ ⟨⟩
      exact waiting
    have finished := kbdProcData_none silent
    rw [device] at finished
    exact burst_stops fuel finished
  | cons byte bytes ih =>
    rw [List.length_cons] at enough
    obtain ⟨fuel, rfl⟩ := Loop.one_more enough
    have other := others byte (by simp)
    have rest := ih
      (m := { m with
        device := { now with keys := bytes } :: later
        shift := (tap m.shift byte).2 })
      (tap_unalted free other) (fun other member => others other (by simp [member])) rfl rfl fuel
      (by omega)
    simp only [burst, kbdProcData_byte device waiting free other, Outcome.done_bind,
      if_neg (tap_nonneg m.shift byte), rest, taps]
    rfl

end Kernel

namespace Inputs

open Schedule Kernel Keyboard

structure Receives (inputs : Inputs Schedule) (pending : List UInt8) (d : Schedule) : Prop where
  ring : ∃ ring, inputs.cons.Shows ring ∧ ring.Waits pending
  device : inputs.device = d
  attached : inputs.serialExists = true
  clean : 0 ∉ pending ++ chars inputs.shift d
  paced : Paced pending.length inputs.shift d
  unalted : Unalted inputs.shift d

def next (d : Schedule) : Arrivals := d.headD .none

theorem next_chars (shift : UInt32) (d : Schedule) :
    (next d).chars shift ++ chars ((next d).after shift) d.tail = chars shift d := by
  cases d <;> rfl

theorem next_keys {shift : UInt32} {d : Schedule} (unalted : Unalted shift d) :
    ∀ byte ∈ (next d).keys, byte &&& 0x7F ≠ 0x38 := by
  cases d with
  | nil => simp [next, Arrivals.none]
  | cons now later => exact unalted.2 now (by simp)

theorem taps_unalted {shift : UInt32} (free : has shift 2 = false) (bytes : List UInt8)
    (others : ∀ byte ∈ bytes, byte &&& 0x7F ≠ 0x38) : has (taps shift bytes).2 2 = false := by
  induction bytes generalizing shift with
  | nil => exact free
  | cons byte rest ih =>
    exact ih (tap_unalted free (others byte (by simp)))
      fun other member => others other (by simp [member])

variable {inputs : Inputs Schedule} {pending : List UInt8} {d : Schedule}

def polled (inputs : Inputs Schedule) : Inputs Schedule :=
  { inputs with
    device := inputs.device.tail
    shift := (next inputs.device).after inputs.shift
    cons := ((next inputs.device).chars inputs.shift).foldl Cons.put inputs.cons }

theorem burst_both (receives : Receives inputs pending d) (fuel : Nat)
    (enough : (next d).serial.length < fuel ∧ (next d).keys.length < fuel) (s : Console) :
    ∃ machine, burst (serialProcData inb) fuel (inputs.kernel s).machine =
        .done ((next d).serial, machine) ∧
      burst (kbdProcData inb) fuel machine = .done ((taps inputs.shift (next d).keys).1,
        (inputs.polled.kernel s).machine) := by
  have keys := next_keys receives.unalted
  have free := receives.unalted.1
  have clean := receives.clean
  rw [← next_chars, Arrivals.chars] at clean
  have serial_clean : 0 ∉ (next d).serial := fun member => clean (by simp [member])
  obtain ⟨device, serialExists, shift, cons⟩ := inputs
  obtain rfl : device = d := receives.device
  cases device with
  | nil =>
    obtain ⟨fuel, rfl⟩ := Loop.one_more enough.1
    refine ⟨_, burst_stops fuel (serialProcData_none (by rintro _ ⟨⟩)), ?_⟩
    exact burst_stops fuel (kbdProcData_none (by rintro _ ⟨⟩))
  | cons now later =>
    have emptied : ({ now with serial := [] } : Arrivals).keys = now.keys := rfl
    exact ⟨_, burst_serial now.serial serial_clean rfl rfl fuel enough.1,
      burst_keys now.keys free keys rfl emptied fuel enough.2⟩

theorem Receives.room (receives : Receives inputs pending d) :
    pending.length + ((next d).chars inputs.shift).length ≤ 511 ∧
      Paced (pending.length + ((next d).chars inputs.shift).length - 1)
        ((next d).after inputs.shift) d.tail := by
  obtain ⟨⟨ring, shows, read, keeps⟩, -, -, -, paced, -⟩ := receives
  cases d with
  | nil =>
    have near := keeps.1.near
    rw [List.length_append] at near
    have silent : (next []).chars inputs.shift = [] := rfl
    rw [silent]
    exact ⟨by simp only [List.length_nil]; omega, trivial⟩
  | cons now later => exact paced

theorem Receives.polled (receives : Receives inputs pending d) :
    ∃ ring, inputs.polled.cons.Shows ring ∧
      ring.Waits (pending ++ (next d).chars inputs.shift) := by
  have room := receives.room.1
  obtain ⟨⟨ring, shows, waits⟩, device, -⟩ := receives
  subst device
  exact ⟨_, shows.puts _, waits.pushes _ (by omega)⟩

theorem Receives.later (receives : Receives inputs pending d) :
    0 ∉ (pending ++ (next d).chars inputs.shift) ++ chars inputs.polled.shift d.tail ∧
      Unalted inputs.polled.shift d.tail := by
  have clean := receives.clean
  have keys := next_keys receives.unalted
  have unalted := receives.unalted
  rw [← next_chars, ← List.append_assoc] at clean
  obtain rfl := receives.device
  exact ⟨clean, taps_unalted unalted.1 _ keys,
    fun now member => unalted.2 now (List.mem_of_mem_tail member)⟩

theorem Receives.polls (receives : Receives inputs pending d) (fuel : Nat)
    (enough : (next d).serial.length < fuel ∧ (next d).keys.length < fuel) (s : Console) :
    consGetc inb fuel (inputs.kernel s) = grab (inputs.polled.kernel s) := by
  obtain ⟨ring, shows, -⟩ := receives.ring
  obtain ⟨machine, serial, keys⟩ := burst_both receives fuel enough s
  have attached : (inputs.kernel s).machine.serialExists = true := receives.attached
  have first : serialIntr inb fuel (inputs.kernel s) =
      .done ⟨machine, (next d).serial.foldl Cons.put inputs.cons⟩ := by
    rw [serialIntr, if_pos attached, consIntr_burst _ _ _ ring shows, serial]
    rfl
  have second : kbdIntr inb fuel ⟨machine, (next d).serial.foldl Cons.put inputs.cons⟩ =
      .done (inputs.polled.kernel s) := by
    rw [kbdIntr, consIntr_burst _ _ _ _ (shows.puts (next d).serial), keys, Outcome.done_bind,
      ← List.foldl_append, ← receives.device]
    rfl
  rw [consGetc, first, Outcome.done_bind, second, Outcome.done_bind]

end Inputs

namespace Monitor

open Console Printfmt Readline

def attached (shift : UInt32) (d : Schedule) : Inputs Schedule where
  device := d
  serialExists := true
  shift
  cons := Cons.zero

end Monitor

end JosLab
