import JosLab.Kern.Printf
import JosLab.Shared.InputLoop

set_option autoImplicit false

namespace JosLab.Readline

open Printfmt

def buflen : Nat := 1024

-- `static char buf[BUFLEN]`, left as the last line left it
abbrev Buf := Memory Nat UInt8

structure Editor where
  i : Nat
  buf : Buf
  console : Console

def iscons (_fdnum : Int) : Bool := true

-- "read error: %e\n"
def readError : CString :=
  ⟨[114, 101, 97, 100, 32, 101, 114, 114, 111, 114, 58, 32, 37, 101, 10], by decide⟩

def echo (echoing : Bool) (c : Int) (console : Console) : Outcome Fault Console :=
  if echoing then Console.cputchar c console else return console

def readlineKey (c : Int) (s : Editor) : Outcome Fault (Pass Editor (Option Buf × Console)) := do
  let { i, buf, console } := s
  let echoing := iscons 0
  if c < 0 then
    let (_, console) ← Console.cprintf readError [.word (UInt32.ofInt c)] console
    return .leave (none, console)
  else if (c = 8 ∨ c = 0x7f) ∧ 0 < i then
    let console ← echo echoing 8 console
    return .again { i := i - 1, buf, console }
  else if 32 ≤ c ∧ i < buflen - 1 then
    let console ← echo echoing c console
    let buf ← buf.store .index i (UInt8.ofInt c)
    return .again { i := i + 1, buf, console }
  else if c = 10 ∨ c = 13 then
    let console ← echo echoing 10 console
    let buf ← buf.store .index i 0
    return .leave (some buf, console)
  else return .again s

def showPrompt (prompt : Option Chars) (console : Console) : Outcome Fault Console :=
  match prompt with
  | some prompt => do
      let (_, console) ← Console.cprintf stringFormat [.str (some prompt)] console
      return console
  | none => return console

-- `keys` are the results that `getchar` is going to return.
def readline (prompt : Option Chars) (keys : List Int) (buf : Buf) (console : Console) :
    Outcome Fault (Option Buf × Console) := do
  let console ← showPrompt prompt console
  Loop.run (InputLoop.pass readlineKey) (keys.length + 1) (keys, { i := 0, buf, console })

end JosLab.Readline
