import JosLab.Inc.Elf
import JosLab.Shared.Loop

set_option autoImplicit false

namespace JosLab.Boot

structure Ide where
  register : Nat → UInt8
  pending : List UInt8

def Ide.sector (d : Ide) : Nat :=
  (d.register 0x1F3).toNat + 2 ^ 8 * (d.register 0x1F4).toNat +
    2 ^ 16 * (d.register 0x1F5).toNat + 2 ^ 24 * (d.register 0x1F6 &&& 0x0F).toNat

structure Machine where
  mem : Mem
  ide : Ide

section Disk

-- Byte by byte; the boot loader itself is in the first 512.
variable (disk : Nat → UInt8)

def outb (port : Nat) (data : UInt8) (d : Ide) : Ide :=
  if port = 0x1F7 then
    if data = 0x20 then
      { d with
        pending := (List.range (512 * (d.register 0x1F2).toNat)).map fun i =>
          disk (512 * d.sector + i) }
    else d
  else { d with register := Function.update d.register port data }

def insl : Nat → Nat → Machine → Outcome Fault Machine
  | _, 0, s => return s
  | addr, cnt + 1, s => do
      let mem ← storeBytes s.mem addr (s.ide.pending.take 4)
      insl (wrap (addr + 4)) cnt
        { mem, ide := { s.ide with pending := s.ide.pending.drop 4 } }

-- `waitdisk` polls the status port until the disk is ready, and changes nothing here.
def readsect (dst offset : UInt32) (s : Machine) : Outcome Fault Machine :=
  let d := outb disk 0x1F2 1 s.ide
  let d := outb disk 0x1F3 offset.toUInt8 d
  let d := outb disk 0x1F4 (offset >>> 8).toUInt8 d
  let d := outb disk 0x1F5 (offset >>> 16).toUInt8 d
  let d := outb disk 0x1F6 ((offset >>> 24) ||| 0xE0).toUInt8 d
  let d := outb disk 0x1F7 0x20 d
  insl dst.toNat (512 / 4) { s with ide := d }

-- while (pa < end_pa) over the state (pa, offset, machine)
def readsegPass (endPa : UInt32) (state : UInt32 × UInt32 × Machine) :
    Outcome Fault (Pass (UInt32 × UInt32 × Machine) Machine) := do
  let (pa, offset, s) := state
  if pa < endPa then
    let s ← readsect disk pa offset s
    return .again (pa + 512, offset + 1, s)
  else return .leave s

-- Passes that suffice for a loop that ends at all.
def readsegFuel (count : UInt32) : Nat := count.toNat / 512 + 3

def readseg (pa count offset : UInt32) (s : Machine) : Outcome Fault Machine :=
  let endPa := pa + count
  let pa := pa &&& ~~~(512 - 1)
  -- translate from bytes to sectors, and kernel starts at sector 1
  let offset := offset / 512 + 1
  Loop.run (readsegPass disk endPa) (readsegFuel count) (pa, offset, s)

def elfhdr : UInt32 := 0x10000

def readElf (mem : Mem) : Outcome Fault Elf := do
  return {
    eMagic := ← loadWord mem elfhdr 4
    eEntry := ← loadWord mem (elfhdr + 24) 4
    ePhoff := ← loadWord mem (elfhdr + 28) 4
    ePhnum := ← loadWord mem (elfhdr + 44) 2 }

def readProghdr (mem : Mem) (ph : UInt32) : Outcome Fault Proghdr := do
  return {
    pOffset := ← loadWord mem (ph + 4) 4
    pPa := ← loadWord mem (ph + 12) 4
    pFilesz := ← loadWord mem (ph + 16) 4
    pMemsz := ← loadWord mem (ph + 20) 4 }

def segmentPass (eph : UInt32) (state : UInt32 × Machine) :
    Outcome Fault (Pass (UInt32 × Machine) Machine) := do
  let (ph, s) := state
  if ph < eph then
    let header ← readProghdr s.mem ph
    let s ← readseg disk header.pPa header.pMemsz header.pOffset s
    return .again (ph + 32, s)
  else return .leave s

inductive Booted where
  | entry (address : UInt32) (s : Machine)
  | bad (s : Machine)

def bootmain (s : Machine) : Outcome Fault Booted := do
  let s ← readseg disk elfhdr (512 * 8) 0 s
  let elf ← readElf s.mem
  if elf.eMagic ≠ elfMagic then return .bad s
  else
    let ph := elfhdr + elf.ePhoff
    let eph := ph + 32 * elf.ePhnum
    let s ← Loop.run (segmentPass disk eph) (elf.ePhnum.toNat + 1) (ph, s)
    return .entry (← readElf s.mem).eEntry s

end Disk

end JosLab.Boot
