import JosLab.Inc.Elf
import JosLab.Kern.Kdebug
import JosLab.Kern.Printf

set_option autoImplicit false

namespace JosLab

open Printfmt Kdebug

namespace Monitor

inductive Command where
  | help
  | kerninfo
  | backtrace
  deriving DecidableEq, Repr

def Command.name : Command → CString
  | .help => ⟨[104, 101, 108, 112], by decide⟩
  | .kerninfo => ⟨[107, 101, 114, 110, 105, 110, 102, 111], by decide⟩
  | .backtrace => ⟨[98, 97, 99, 107, 116, 114, 97, 99, 101], by decide⟩

theorem noNul_nil : (0 : UInt8) ∉ [] := List.not_mem_nil

def Command.desc : Command → CString
  -- "Display this list of commands"
  | .help => ⟨[68, 105, 115, 112, 108, 97, 121, 32, 116, 104, 105, 115, 32, 108, 105, 115, 116,
      32, 111, 102, 32, 99, 111, 109, 109, 97, 110, 100, 115], by decide⟩
  -- "Display information about the kernel"
  | .kerninfo => ⟨[68, 105, 115, 112, 108, 97, 121, 32, 105, 110, 102, 111, 114, 109, 97, 116,
      105, 111, 110, 32, 97, 98, 111, 117, 116, 32, 116, 104, 101, 32, 107, 101, 114, 110, 101,
      108], by decide⟩
  | .backtrace => ⟨[], noNul_nil⟩

def commands : List Command := [.help, .kerninfo, .backtrace]

-- "%s - %s\n"
def helpLine : CString := ⟨[37, 115, 32, 45, 32, 37, 115, 10], by decide⟩

def monHelp (s : Console) : Outcome Fault (Int × Console) := do
  let s ← commands.foldlM (fun s command => do
    let (_, s) ← Console.cprintf helpLine
      [.str (some (command.name.bytes ++ [0])), .str (some (command.desc.bytes ++ [0]))] s
    return s) s
  return (0, s)

def blue : UInt8 := 0x1

def yellow : UInt8 := 0xe

def white : UInt8 := 0xf

-- "Stack backtrace:\n"
def stackBacktrace : CString :=
  ⟨[83, 116, 97, 99, 107, 32, 98, 97, 99, 107, 116, 114, 97, 99, 101, 58, 10], by decide⟩

-- "  ebp %08x  eip %08x  args %08x %08x %08x %08x %08x\n"
def frameLine : CString :=
  ⟨[32, 32, 101, 98, 112, 32, 37, 48, 56, 120, 32, 32, 101, 105, 112, 32, 37, 48, 56, 120, 32, 32,
    97, 114, 103, 115, 32, 37, 48, 56, 120, 32, 37, 48, 56, 120, 32, 37, 48, 56, 120, 32, 37, 48,
    56, 120, 32, 37, 48, 56, 120, 10], by decide⟩

-- "        %s:%u: %.*s+%d\n"
def symbolLine : CString :=
  ⟨[32, 32, 32, 32, 32, 32, 32, 32, 37, 115, 58, 37, 117, 58, 32, 37, 46, 42, 115, 43, 37, 100, 10], by decide⟩

-- for (; ebp != init_ebp; ebp = saved_ebp)
def backtracePass (tables : DebugTables) (state : UInt32 × Console) :
    Outcome Fault (Pass (UInt32 × Console) Console) := do
  let (ebp, s) := state
  if ebp = 0 then return .leave s
  else
    let savedEbp ← loadWord s.mem ebp 4
    let retAddr ← loadWord s.mem (ebp + 4) 4
    let arg1 ← loadWord s.mem (ebp + 8) 4
    let arg2 ← loadWord s.mem (ebp + 12) 4
    let arg3 ← loadWord s.mem (ebp + 16) 4
    let arg4 ← loadWord s.mem (ebp + 20) 4
    let arg5 ← loadWord s.mem (ebp + 24) 4
    let s := (s.cgaSetBg blue).cgaSetFg white
    let (_, s) ← Console.cprintf frameLine [.word ebp, .word retAddr, .word arg1, .word arg2,
      .word arg3, .word arg4, .word arg5] s
    let s := s.cgaReset
    let (_, info) ← debuginfoEip tables retAddr
    let s := s.cgaSetFg yellow
    let (_, s) ← Console.cprintf symbolLine [.str (some (tables.chars info.eipFile)),
      .word (UInt32.ofInt info.eipLine), .word (UInt32.ofInt info.eipFnNamelen),
      .str (some (tables.chars info.eipFnName)), .word (retAddr - info.eipFnAddr)] s
    return .again (savedEbp, s.cgaReset)

-- `ebp` is what `read_ebp` returns; `fuel` bounds the walk.
def monBacktrace (tables : DebugTables) (fuel : Nat) (ebp : UInt32) (s : Console) :
    Outcome Fault (Int × Console) := do
  let (_, s) ← Console.cprintf stackBacktrace [] s
  let s ← Loop.run (backtracePass tables) fuel (ebp, s)
  return (0, s)

-- "\t\r\n "
def whitespace : Chars := [9, 13, 10, 32, 0]

def maxargs : Nat := 16

-- "Too many arguments (max %d)\n"
def tooManyArguments : CString :=
  ⟨[84, 111, 111, 32, 109, 97, 110, 121, 32, 97, 114, 103, 117, 109, 101, 110, 116, 115, 32, 40,
    109, 97, 120, 32, 37, 100, 41, 10], by decide⟩

-- "Unknown command '%s'\n"
def unknownCommand : CString :=
  ⟨[85, 110, 107, 110, 111, 119, 110, 32, 99, 111, 109, 109, 97, 110, 100, 32, 39, 37, 115, 39,
    10], by decide⟩

abbrev Argv := Memory Nat Nat

-- while (*buf && strchr(WHITESPACE, *buf)) *buf++ = 0;
def gobblePass (state : Nat × Mem) : Outcome Fault (Pass (Nat × Mem) (Nat × Mem)) := do
  let (buf, mem) := state
  let c ← mem.load .load buf
  if c = 0 then return .leave (buf, mem)
  else
    match ← strchr whitespace c with
    | some _ => return .again (wrap (buf + 1), ← mem.store .store buf 0)
    | none => return .leave (buf, mem)

-- while (*buf && !strchr(WHITESPACE, *buf)) buf++;
def scanPass (mem : Mem) (buf : Nat) : Outcome Fault (Pass Nat Nat) := do
  let c ← mem.load .load buf
  if c = 0 then return .leave buf
  else
    match ← strchr whitespace c with
    | some _ => return .leave buf
    | none => return .again (wrap (buf + 1))

structure Parser where
  argc : Nat
  argv : Argv
  buf : Nat
  mem : Mem

inductive Parsed where
  | line (argc : Nat) (argv : Argv) (mem : Mem)
  | tooMany (mem : Mem)

def parsePass (fuel : Nat) (state : Parser) : Outcome Fault (Pass Parser Parsed) := do
  let { argc, argv, buf, mem } := state
  let (buf, mem) ← Loop.run gobblePass fuel (buf, mem)
  if (← mem.load .load buf) = 0 then return .leave (.line argc argv mem)
  else if argc = maxargs - 1 then return .leave (.tooMany mem)
  else
    let argv ← argv.store .index argc buf
    let buf ← Loop.run (scanPass mem) fuel buf
    return .again { argc := argc + 1, argv, buf, mem }

section Commands

variable (func : Command → Nat → Argv → Nat → Console → Outcome Fault (Int × Console))

def invoke (argc : Nat) (argv : Argv) (limit tf : Nat) (s : Console) :
    List Command → Outcome Fault (Int × Console)
  | [] => do
      let argv0 ← argv.load .index 0
      let (_, s) ← Console.cprintf unknownCommand [.str (some (charsAt s.mem argv0 limit))] s
      return (0, s)
  | command :: rest => do
      let argv0 ← argv.load .index 0
      if (← strcmp (charsAt s.mem argv0 limit) (command.name.bytes ++ [0])) = 0 then
        func command argc argv tf s
      else invoke argc argv limit tf s rest

-- `buf` points into an object that ends at `limit`; `junk` is what the stack holds at `argv`.
def runcmd (junk : Nat → Nat) (buf limit tf : Nat) (s : Console) :
    Outcome Fault (Int × Console) := do
  let argv : Argv := { mapped := fun i => decide (i < maxargs), value := junk }
  let argv ← argv.store .index 0 0
  let fuel := limit - buf + 1
  match ← Loop.run (parsePass fuel) fuel { argc := 0, argv, buf, mem := s.mem } with
  | .tooMany mem =>
      let (_, s) ← Console.cprintf tooManyArguments [.word maxargs.toUInt32] { s with mem }
      return (0, s)
  | .line argc argv mem =>
      let s := { s with mem }
      let argv ← argv.store .index argc 0
      if argc = 0 then return (0, s) else invoke func argc argv limit tf s commands

end Commands

end Monitor

end JosLab
