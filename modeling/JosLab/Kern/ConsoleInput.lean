import JosLab.Kern.Keyboard
import JosLab.Shared.Loop

set_option autoImplicit false

namespace JosLab

def consbufsize : UInt32 := 512

structure Cons where
  buf : Memory Nat UInt8
  rpos : UInt32
  wpos : UInt32

def Cons.zero : Cons where
  buf := ⟨fun i => decide (i < consbufsize.toNat), fun _ => 0⟩
  rpos := 0
  wpos := 0

structure Kernel (μ : Type) where
  machine : μ
  cons : Cons

namespace Kernel

section Buffer

variable {μ : Type} (proc : μ → Outcome Fault (Int × μ))

def consIntrPass (s : Kernel μ) : Outcome Fault (Pass (Kernel μ) (Kernel μ)) := do
  let { machine, cons } := s
  let (c, machine) ← proc machine
  if c = -1 then return .leave { machine, cons }
  else if c = 0 then return .again { machine, cons }
  else
    let buf ← cons.buf.store .index cons.wpos.toNat (UInt8.ofInt c)
    let wpos := cons.wpos + 1
    let wpos := if wpos = consbufsize then 0 else wpos
    return .again { machine, cons := { cons with buf, wpos } }

-- The device decides how long this goes on.
def consIntr (fuel : Nat) (s : Kernel μ) : Outcome Fault (Kernel μ) :=
  Loop.run (consIntrPass proc) fuel s

end Buffer

variable {δ : Type} (inb : Nat → δ → UInt8 × δ)

def serialProcData (m : Machine δ) : Outcome Fault (Int × Machine δ) := do
  let (lsr, m) := Keyboard.inPort inb (0x3F8 + 5) m
  if lsr &&& 0x01 = 0 then return (-1, m)
  else
    let (rx, m) := Keyboard.inPort inb (0x3F8 + 0) m
    return (rx.toNat, m)

def serialIntr (fuel : Nat) (s : Kernel (Machine δ)) : Outcome Fault (Kernel (Machine δ)) :=
  if s.machine.serialExists then consIntr (serialProcData inb) fuel s else return s

def kbdIntr (fuel : Nat) (s : Kernel (Machine δ)) : Outcome Fault (Kernel (Machine δ)) :=
  consIntr (Keyboard.kbdProcData inb) fuel s

def grab {μ : Type} (s : Kernel μ) : Outcome Fault (Int × Kernel μ) := do
  let { machine, cons } := s
  if cons.rpos ≠ cons.wpos then
    let c ← cons.buf.load .index cons.rpos.toNat
    let rpos := cons.rpos + 1
    let rpos := if rpos = consbufsize then 0 else rpos
    return (c.toNat, { machine, cons := { cons with rpos } })
  else return (0, s)

def consGetc (fuel : Nat) (s : Kernel (Machine δ)) : Outcome Fault (Int × Kernel (Machine δ)) := do
  let s ← serialIntr inb fuel s
  let s ← kbdIntr inb fuel s
  grab s

end Kernel

end JosLab
