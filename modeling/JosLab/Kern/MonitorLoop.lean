import JosLab.Inc.Mmu
import JosLab.Inc.Types
import JosLab.Kern.ConsoleInput
import JosLab.Kern.Monitor
import JosLab.Lib.Readline

set_option autoImplicit false

namespace JosLab

namespace Kernel

variable {δ : Type} (inb : Nat → δ → UInt8 × δ)

-- while ((c = cons_getc()) == 0) /* do nothing */;
def getcharPass (fuel : Nat) (s : Kernel (Machine δ)) :
    Outcome Fault (Pass (Kernel (Machine δ)) (Int × Kernel (Machine δ))) := do
  let (c, s) ← consGetc inb fuel s
  if c = 0 then return .again s else return .leave (c, s)

def getchar (fuel : Nat) (s : Kernel (Machine δ)) : Outcome Fault (Int × Kernel (Machine δ)) :=
  Loop.run (getcharPass inb fuel) fuel s

end Kernel

namespace Monitor

open Printfmt Readline

structure Symbols where
  start : UInt32
  entry : UInt32
  etext : UInt32
  edata : UInt32
  end_ : UInt32

-- "Special kernel symbols:\n"
def specialSymbols : CString :=
  ⟨[83, 112, 101, 99, 105, 97, 108, 32, 107, 101, 114, 110, 101, 108, 32, 115, 121, 109, 98, 111,
    108, 115, 58, 10], by decide⟩

-- "  _start                  %08x (phys)\n"
def startLine : CString :=
  ⟨[32, 32, 95, 115, 116, 97, 114, 116, 32, 32, 32, 32, 32, 32, 32, 32, 32, 32, 32, 32, 32, 32, 32,
    32, 32, 32, 37, 48, 56, 120, 32, 40, 112, 104, 121, 115, 41, 10], by decide⟩

def entryLabel : List UInt8 := [32, 32, 101, 110, 116, 114, 121, 32, 32]

def etextLabel : List UInt8 := [32, 32, 101, 116, 101, 120, 116, 32, 32]

def edataLabel : List UInt8 := [32, 32, 101, 100, 97, 116, 97, 32, 32]

def endLabel : List UInt8 := [32, 32, 101, 110, 100, 32, 32, 32, 32]

def virt : List UInt8 := [32, 40, 118, 105, 114, 116, 41, 32, 32]

def phys : List UInt8 := [32, 40, 112, 104, 121, 115, 41, 10]

def wordDirective : List UInt8 := [37, 48, 56, 120]

-- label "%08x (virt)  %08x (phys)\n"
def symbolFormat (label : List UInt8) (noNul : 0 ∉ label) : CString :=
  ⟨label ++ (wordDirective ++ (virt ++ (wordDirective ++ phys))), by
    simp [noNul, wordDirective, virt, phys]⟩

-- "Kernel executable memory footprint: %dKB\n"
def footprintLine : CString :=
  ⟨[75, 101, 114, 110, 101, 108, 32, 101, 120, 101, 99, 117, 116, 97, 98, 108, 101, 32, 109, 101,
    109, 111, 114, 121, 32, 102, 111, 111, 116, 112, 114, 105, 110, 116, 58, 32, 37, 100, 75, 66,
    10], by decide⟩

-- ROUNDUP(end - entry, 1024) / 1024, of type ptrdiff_t
def Symbols.footprint (link : Symbols) : Int :=
  (int32 (roundUp (link.end_ - link.entry) 1024).toNat).tdiv 1024

def monKerninfo (link : Symbols) (s : Console) : Outcome Fault (Int × Console) := do
  let (_, s) ← Console.cprintf specialSymbols [] s
  let (_, s) ← Console.cprintf startLine [.word link.start] s
  let (_, s) ← Console.cprintf (symbolFormat entryLabel (by decide))
    [.word link.entry, .word (link.entry - Mmu.kernbaseWord)] s
  let (_, s) ← Console.cprintf (symbolFormat etextLabel (by decide))
    [.word link.etext, .word (link.etext - Mmu.kernbaseWord)] s
  let (_, s) ← Console.cprintf (symbolFormat edataLabel (by decide))
    [.word link.edata, .word (link.edata - Mmu.kernbaseWord)] s
  let (_, s) ← Console.cprintf (symbolFormat endLabel (by decide))
    [.word link.end_, .word (link.end_ - Mmu.kernbaseWord)] s
  let (_, s) ← Console.cprintf footprintLine [.word (UInt32.ofInt link.footprint)] s
  return (0, s)

def func (link : Symbols) (tables : Kdebug.DebugTables) (fuel : Nat) (ebp : UInt32) :
    Command → Nat → Argv → Nat → Console → Outcome Fault (Int × Console)
  | .help, _, _, _, s => monHelp s
  | .kerninfo, _, _, _, s => monKerninfo link s
  | .backtrace, _, _, _, s => monBacktrace tables fuel ebp s

structure Typing where
  i : Nat
  console : Console

def readlineKeyAt (buf : Nat) (c : Int) (s : Typing) :
    Outcome Fault (Pass Typing (Option Nat × Console)) := do
  let { i, console } := s
  let echoing := iscons 0
  if c < 0 then
    let (_, console) ← Console.cprintf readError [.word (UInt32.ofInt c)] console
    return .leave (none, console)
  else if (c = 8 ∨ c = 0x7f) ∧ 0 < i then
    let console ← echo echoing 8 console
    return .again { i := i - 1, console }
  else if 32 ≤ c ∧ i < buflen - 1 then
    let console ← echo echoing c console
    let mem ← console.mem.store .store (buf + i) (UInt8.ofInt c)
    return .again { i := i + 1, console := { console with mem } }
  else if c = 10 ∨ c = 13 then
    let console ← echo echoing 10 console
    let mem ← console.mem.store .store (buf + i) 0
    return .leave (some buf, { console with mem })
  else return .again s

section Source

-- Where the keys come from: `getchar`, which may itself print.
variable {κ : Type} (getchar : κ → Console → Outcome Fault (Int × κ × Console)) (buf : Nat)

def readPass (state : κ × Typing) :
    Outcome Fault (Pass (κ × Typing) (Option Nat × κ × Console)) := do
  let (source, s) := state
  let (c, source, console) ← getchar source s.console
  match ← readlineKeyAt buf c { s with console } with
  | .again s => return .again (source, s)
  | .leave (line, console) => return .leave (line, source, console)

def readline (fuel : Nat) (prompt : Option Chars) (source : κ) (console : Console) :
    Outcome Fault (Option Nat × κ × Console) := do
  let console ← showPrompt prompt console
  Loop.run (readPass getchar buf) fuel (source, { i := 0, console })

-- "Welcome to the JOS kernel monitor!\n"
def welcome : CString :=
  ⟨[87, 101, 108, 99, 111, 109, 101, 32, 116, 111, 32, 116, 104, 101, 32, 74, 79, 83, 32, 107, 101,
    114, 110, 101, 108, 32, 109, 111, 110, 105, 116, 111, 114, 33, 10], by decide⟩

-- "Type 'help' for a list of commands.\n"
def typeHelp : CString :=
  ⟨[84, 121, 112, 101, 32, 39, 104, 101, 108, 112, 39, 32, 102, 111, 114, 32, 97, 32, 108, 105,
    115, 116, 32, 111, 102, 32, 99, 111, 109, 109, 97, 110, 100, 115, 46, 10], by decide⟩

-- "K> "
def prompt : CString := ⟨[75, 62, 32], by decide⟩

variable (func : Command → Nat → Argv → Nat → Console → Outcome Fault (Int × Console))

-- What the stack holds where `runcmd` is going to have its `argv`.
variable (junk : κ → Console → Nat → Nat)

def monitorPass (fuel tf : Nat) (state : κ × Console) :
    Outcome Fault (Pass (κ × Console) (κ × Console)) := do
  let (source, s) := state
  let (line, source, s) ← readline getchar buf fuel (some (prompt.bytes ++ [0])) source s
  match line with
  | some line =>
      let (result, s) ← runcmd func (junk source s) line (buf + buflen) tf s
      if result < 0 then return .leave (source, s) else return .again (source, s)
  | none => return .again (source, s)

def monitor (fuel lines tf : Nat) (source : κ) (s : Console) : Outcome Fault (κ × Console) := do
  let (_, s) ← Console.cprintf welcome [] s
  let (_, s) ← Console.cprintf typeHelp [] s
  Loop.run (monitorPass getchar buf func junk fuel tf) lines (source, s)

end Source

end Monitor

structure Inputs (δ : Type) where
  device : δ
  serialExists : Bool
  shift : UInt32
  cons : Cons

namespace Inputs

variable {δ : Type} (inb : Nat → δ → UInt8 × δ)

def kernel (inputs : Inputs δ) (console : Console) : Kernel (Machine δ) :=
  let { device, serialExists, shift, cons } := inputs
  { machine := { device, serialExists, shift, console }, cons }

def ofKernel (k : Kernel (Machine δ)) : Inputs δ :=
  let { device, serialExists, shift, .. } := k.machine
  { device, serialExists, shift, cons := k.cons }

def getchar (fuel : Nat) (inputs : Inputs δ) (console : Console) :
    Outcome Fault (Int × Inputs δ × Console) := do
  let (c, k) ← Kernel.getchar inb fuel (inputs.kernel console)
  return (c, ofKernel k, k.machine.console)

end Inputs

end JosLab
