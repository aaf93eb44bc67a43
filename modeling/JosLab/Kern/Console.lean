import JosLab.Lib.Strings

set_option autoImplicit false

namespace JosLab

inductive Adapter where
  | mono
  | cga
  deriving DecidableEq, Repr

def Adapter.addr6845 : Adapter → Nat
  | .mono => 0x3B4
  | .cga => 0x3D4

def kernbase : Nat := 0xF0000000

def Adapter.crtBuf : Adapter → Nat
  | .mono => kernbase + 0xB0000
  | .cga => kernbase + 0xB8000

-- The screen's variables, memory, and every `outb` so far.
structure Console where
  adapter : Adapter
  crtPos : UInt16
  cgaBg : UInt8
  cgaFg : UInt8
  mem : Mem
  ports : List (Nat × UInt8)

structure Crtc where
  index : UInt8
  register : UInt8 → UInt8

def Crtc.out (base : Nat) (d : Crtc) (write : Nat × UInt8) : Crtc :=
  if write.1 = base then { d with index := write.2 }
  else if write.1 = base + 1 then
    { d with register := Function.update d.register d.index write.2 }
  else d

def Crtc.cursor (d : Crtc) : Nat := (d.register 14).toNat * 256 + (d.register 15).toNat

namespace Console

def crtc (s : Console) (power : Crtc) : Crtc :=
  s.ports.foldl (Crtc.out s.adapter.addr6845) power

abbrev crtBuf (s : Console) : Nat := s.adapter.crtBuf

def crtCols : UInt16 := 80

def crtSize : UInt16 := 25 * crtCols

def outb (port : Nat) (data : UInt8) (s : Console) : Console :=
  { s with ports := s.ports ++ [(port, data)] }

-- The bounded wait for the transmitter comes before the byte and changes nothing here.
def serialPutc (c : UInt32) (s : Console) : Console := s.outb 0x3F8 c.toUInt8

def lptPutc (c : UInt32) (s : Console) : Console :=
  ((s.outb 0x378 c.toUInt8).outb 0x37A (0x08 ||| 0x04 ||| 0x01)).outb 0x37A 0x08

def cgaSetBg (bg : UInt8) (s : Console) : Console := { s with cgaBg := bg }

def cgaSetFg (fg : UInt8) (s : Console) : Console := { s with cgaFg := fg }

def cgaReset (s : Console) : Console := { s with cgaFg := 0, cgaBg := 0 }

-- `crt_buf[i] = value`, low byte first
def storeCell (i : Nat) (value : UInt16) (s : Console) : Outcome Fault Console := do
  let mem ← storeBytes s.mem (s.crtBuf + 2 * i) [value.toUInt8, (value >>> 8).toUInt8]
  return { s with mem }

def attr (s : Console) : UInt32 :=
  if s.cgaBg = 0 ∧ s.cgaFg = 0 then (0x7 : UInt32) <<< 8 ||| (0x0 : UInt32) <<< 12
  else s.cgaFg.toUInt32 <<< 8 ||| s.cgaBg.toUInt32 <<< 12

def putKey (consPutc : UInt32 → Console → Outcome Fault Console) (c : UInt32) (s : Console) :
    Outcome Fault Console :=
  if c &&& 0xff = 8 then
    if 0 < s.crtPos then
      let s := { s with crtPos := s.crtPos - 1 }
      s.storeCell s.crtPos.toNat ((c &&& ~~~0xff) ||| 32).toUInt16
    else return s
  else if c &&& 0xff = 10 then
    let s := { s with crtPos := s.crtPos + crtCols }
    return { s with crtPos := s.crtPos - s.crtPos % crtCols }
  else if c &&& 0xff = 13 then
    return { s with crtPos := s.crtPos - s.crtPos % crtCols }
  else if c &&& 0xff = 9 then do
    let s ← consPutc 32 s
    let s ← consPutc 32 s
    let s ← consPutc 32 s
    let s ← consPutc 32 s
    consPutc 32 s
  else do
    let s ← s.storeCell s.crtPos.toNat c.toUInt16
    return { s with crtPos := s.crtPos + 1 }

def blankCells : Nat → Nat → Console → Outcome Fault Console
  | 0, _, s => return s
  | count + 1, i, s => do
      let s ← s.storeCell i (0x0700 ||| 32)
      blankCells count (i + 1) s

def scroll (s : Console) : Outcome Fault Console :=
  if crtSize ≤ s.crtPos then do
    let mem ← memmove s.mem s.crtBuf (s.crtBuf + 2 * crtCols.toNat) ((crtSize - crtCols).toNat * 2)
    let s ← blankCells crtCols.toNat (crtSize - crtCols).toNat { s with mem }
    return { s with crtPos := s.crtPos - crtCols }
  else return s

def moveCursor (s : Console) : Console :=
  let port := s.adapter.addr6845
  (((s.outb port 14).outb (port + 1) (s.crtPos >>> 8).toUInt8).outb port 15).outb (port + 1)
    s.crtPos.toUInt8

def cgaPutc (consPutc : UInt32 → Console → Outcome Fault Console) (c : UInt32) (s : Console) :
    Outcome Fault Console := do
  let s ← putKey consPutc (c ||| s.attr) s
  let s ← s.scroll
  return s.moveCursor

-- `cons_putc` and `cga_putc` call each other; `depth` bounds how deep.
def consPutc : Nat → UInt32 → Console → Outcome Fault Console
  | 0, _, _ => .spin
  | depth + 1, c, s => cgaPutc (consPutc depth) c (lptPutc c (serialPutc c s))

-- A tab prints spaces, and a space prints nothing else: two calls deep is all there is.
def cputchar (c : Int) (s : Console) : Outcome Fault Console := consPutc 2 (UInt32.ofInt c) s

end Console

end JosLab
