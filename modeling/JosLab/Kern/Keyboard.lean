import JosLab.Kern.Printf

set_option autoImplicit false

namespace JosLab

structure Machine (δ : Type) where
  device : δ
  serialExists : Bool
  shift : UInt32
  console : Console

namespace Keyboard

def keyHome : UInt8 := 0xE0
def keyEnd : UInt8 := 0xE1
def keyUp : UInt8 := 0xE2
def keyDn : UInt8 := 0xE3
def keyLf : UInt8 := 0xE4
def keyRt : UInt8 := 0xE5
def keyPgup : UInt8 := 0xE6
def keyPgdn : UInt8 := 0xE7
def keyIns : UInt8 := 0xE8
def keyDel : UInt8 := 0xE9

def no : UInt8 := 0

def shiftBit : UInt8 := 0x01
def ctl : UInt8 := 0x02
def alt : UInt8 := 0x04
def capslock : UInt8 := 0x08
def numlock : UInt8 := 0x10
def scrolllock : UInt8 := 0x20
def e0esc : UInt8 := 0x40

-- A `uint8_t[256]`: its first rows, some others by index, and 0 everywhere else.
def table (rows : List (List UInt8)) (designated : List (UInt8 × UInt8)) (i : UInt8) : UInt8 :=
  (designated.lookup i).getD (rows.flatten.getD i.toNat 0)

def shiftcode : UInt8 → UInt8 :=
  table [] [(0x1D, ctl), (0x2A, shiftBit), (0x36, shiftBit), (0x38, alt), (0x9D, ctl), (0xB8, alt)]

def togglecode : UInt8 → UInt8 :=
  table [] [(0x3A, capslock), (0x45, numlock), (0x46, scrolllock)]

instance charKey : Coe Char UInt8 := ⟨fun key => UInt8.ofNat key.toNat⟩

def keypad : List (UInt8 × UInt8) :=
  [(0xC7, keyHome), (0x9C, '\n'), (0xB5, '/'), (0xC8, keyUp), (0xC9, keyPgup), (0xCB, keyLf),
    (0xCD, keyRt), (0xCF, keyEnd), (0xD0, keyDn), (0xD1, keyPgdn), (0xD2, keyIns), (0xD3, keyDel)]

def normalmap : UInt8 → UInt8 :=
  table [
    [no, '\x1b', '1', '2', '3', '4', '5', '6'],
    ['7', '8', '9', '0', '-', '=', '\x08', '\x09'],
    ['q', 'w', 'e', 'r', 't', 'y', 'u', 'i'],
    ['o', 'p', '[', ']', '\x0a', no, 'a', 's'],
    ['d', 'f', 'g', 'h', 'j', 'k', 'l', ';'],
    ['\x27', '\x60', no, '\x5c', 'z', 'x', 'c', 'v'],
    ['b', 'n', 'm', ',', '.', '/', no, '*'],
    [no, ' ', no, no, no, no, no, no],
    [no, no, no, no, no, no, no, '7'],
    ['8', '9', '-', '4', '5', '6', '+', '1'],
    ['2', '3', '0', '.', no, no, no, no]] keypad

def shiftmap : UInt8 → UInt8 :=
  table [
    [no, '\x1b', '!', '@', '#', '$', '%', '^'],
    ['&', '*', '(', ')', '_', '+', '\x08', '\x09'],
    ['Q', 'W', 'E', 'R', 'T', 'Y', 'U', 'I'],
    ['O', 'P', '\x7b', '\x7d', '\x0a', no, 'A', 'S'],
    ['D', 'F', 'G', 'H', 'J', 'K', 'L', ':'],
    ['\x22', '~', no, '|', 'Z', 'X', 'C', 'V'],
    ['B', 'N', 'M', '<', '>', '?', no, '*'],
    [no, ' ', no, no, no, no, no, no],
    [no, no, no, no, no, no, no, '7'],
    ['8', '9', '-', '4', '5', '6', '+', '1'],
    ['2', '3', '0', '.', no, no, no, no]] keypad

def C (x : Char) : UInt8 := UInt8.ofNat x.toNat - UInt8.ofNat '@'.toNat

def ctlmap : UInt8 → UInt8 :=
  table [
    [no, no, no, no, no, no, no, no],
    [no, no, no, no, no, no, no, no],
    [C 'Q', C 'W', C 'E', C 'R', C 'T', C 'Y', C 'U', C 'I'],
    [C 'O', C 'P', no, no, '\r', no, C 'A', C 'S'],
    [C 'D', C 'F', C 'G', C 'H', C 'J', C 'K', C 'L', no],
    [no, no, no, C '\x5c', C 'Z', C 'X', C 'C', C 'V'],
    [C 'B', C 'N', C 'M', no, no, C '/', no, no]]
    [(0x97, keyHome), (0xB5, C '/'), (0xC8, keyUp), (0xC9, keyPgup), (0xCB, keyLf),
      (0xCD, keyRt), (0xCF, keyEnd), (0xD0, keyDn), (0xD1, keyPgdn), (0xD2, keyIns),
      (0xD3, keyDel)]

def charcode (shift : UInt32) : UInt8 → UInt8 :=
  if shift &&& (ctl ||| shiftBit).toUInt32 = 0 then normalmap
  else if shift &&& (ctl ||| shiftBit).toUInt32 = 1 then shiftmap
  else ctlmap

-- "Rebooting!\n"
def rebooting : Printfmt.CString :=
  ⟨[82, 101, 98, 111, 111, 116, 105, 110, 103, 33, 10], by decide⟩

section Ports

variable {δ : Type} (inb : Nat → δ → UInt8 × δ)

def inPort (port : Nat) (m : Machine δ) : UInt8 × Machine δ :=
  let (value, device) := inb port m.device
  (value, { m with device })

def capsLock (shift : UInt32) (c : Int) : Int :=
  if shift &&& capslock.toUInt32 ≠ 0 then
    if 97 ≤ c ∧ c ≤ 122 then c + (65 - 97)
    else if 65 ≤ c ∧ c ≤ 90 then c + (97 - 65)
    else c
  else c

def finish (c : Int) (m : Machine δ) : Outcome Fault (Int × Machine δ) := do
  if ~~~m.shift &&& (ctl ||| alt).toUInt32 = 0 ∧ c = keyDel.toNat then
    let (_, console) ← Console.cprintf rebooting [] m.console
    return (c, { m with console := console.outb 0x92 0x3 })
  else return (c, m)

def press (data : UInt8) (m : Machine δ) : Outcome Fault (Int × Machine δ) :=
  let shift := (m.shift ||| (shiftcode data).toUInt32) ^^^ (togglecode data).toUInt32
  finish (capsLock shift (charcode shift data).toNat) { m with shift }

def kbdProcData (m : Machine δ) : Outcome Fault (Int × Machine δ) := do
  let (stat, m) := inPort inb 0x64 m
  if stat &&& 0x01 = 0 then return (-1, m)
  -- Ignore data from mouse.
  else if stat &&& 0x20 ≠ 0 then return (-1, m)
  else
    let (data, m) := inPort inb 0x60 m
    if data = 0xE0 then
      return (0, { m with shift := m.shift ||| e0esc.toUInt32 })
    else if data &&& 0x80 ≠ 0 then
      let data := if m.shift &&& e0esc.toUInt32 ≠ 0 then data else data &&& 0x7F
      return (0, { m with shift := m.shift &&& ~~~(shiftcode data ||| e0esc).toUInt32 })
    else if m.shift &&& e0esc.toUInt32 ≠ 0 then
      -- Last character was an E0 escape; or with 0x80
      press (data ||| 0x80) { m with shift := m.shift &&& ~~~e0esc.toUInt32 }
    else press data m

theorem finish_value {c c' : Int} {m m' : Machine δ} (called : finish c m = .done (c', m')) :
    c' = c := by
  unfold finish at called
  split at called
  next =>
    obtain ⟨printed, -, same⟩ := (Outcome.bind_eq_done _ _ _).1 called
    cases same
    rfl
  next =>
    cases called
    rfl

theorem capsLock_byte (shift : UInt32) (code : UInt8) :
    0 ≤ capsLock shift code.toNat ∧ capsLock shift code.toNat ≤ 255 := by
  have below := code.toNat_lt
  simp only [capsLock]
  split_ifs <;> omega

theorem press_byte {data : UInt8} {c : Int} {m m' : Machine δ}
    (called : press data m = .done (c, m')) : 0 ≤ c ∧ c ≤ 255 := by
  rw [finish_value called]
  exact capsLock_byte _ _

theorem kbdProcData_byte {c : Int} {m m' : Machine δ}
    (called : kbdProcData inb m = .done (c, m')) : -1 ≤ c ∧ c ≤ 255 := by
  unfold kbdProcData at called
  by_cases none : (inPort inb 0x64 m).1 &&& 0x01 = 0
  next =>
    simp only [none, if_true] at called
    cases called
    decide
  by_cases mouse : (inPort inb 0x64 m).1 &&& 0x20 = 0
  next =>
    simp only [none, mouse, if_false, ne_eq, not_true_eq_false] at called
    split at called
    next =>
      cases called
      decide
    split at called
    next =>
      cases called
      decide
    split at called
    next =>
      have range := press_byte called
      omega
    next =>
      have range := press_byte called
      omega
  next =>
    simp only [none, mouse, if_false, ne_eq, not_false_eq_true, if_true] at called
    cases called
    decide

end Ports

end Keyboard

end JosLab
