import JosLab.Kern.EntryPgdir
import JosLab.Shared.Bytewise

set_option autoImplicit false

namespace JosLab.Entry

open Mmu

inductive Instruction where
  | movwMem (imm : UInt16) (address : UInt32)
  | movlEax (imm : UInt32)
  | eaxToCr3
  | cr0ToEax
  | orlEax (imm : UInt32)
  | eaxToCr0
  | jmpEax
  | movlEbp (imm : UInt32)
  | movlEsp (imm : UInt32)
  | call (rel : UInt32)
  | jmp (rel : Int8)
  deriving DecidableEq, Repr

def Instruction.encode : Instruction → List UInt8
  | .movwMem imm address =>
      0x66 :: 0xC7 :: 0x05 ::
        (Cpu.littleEndian address ++ [imm.toUInt8, (imm >>> 8).toUInt8])
  | .movlEax imm => 0xB8 :: Cpu.littleEndian imm
  | .eaxToCr3 => [0x0F, 0x22, 0xD8]
  | .cr0ToEax => [0x0F, 0x20, 0xC0]
  | .orlEax imm => 0x0D :: Cpu.littleEndian imm
  | .eaxToCr0 => [0x0F, 0x22, 0xC0]
  | .jmpEax => [0xFF, 0xE0]
  | .movlEbp imm => 0xBD :: Cpu.littleEndian imm
  | .movlEsp imm => 0xBC :: Cpu.littleEndian imm
  | .call rel => 0xE8 :: Cpu.littleEndian rel
  | .jmp rel => [0xEB, rel.toUInt8]

structure Machine where
  eax : UInt32
  ebp : UInt32
  esp : UInt32
  eip : UInt32
  cr : ControlRegisters
  mem : Mem

namespace Machine

def read (m : Machine) (la : UInt32) : Outcome Trap UInt8 := do
  let pa ← translate m.mem m.cr la false
  (m.mem.load .load pa.toNat).withFault .memory

def write (cr : ControlRegisters) (la : UInt32) (byte : UInt8) (mem : Mem) : Outcome Trap Mem := do
  let pa ← translate mem cr la true
  (mem.store .store pa.toNat byte).withFault .memory

def load (m : Machine) (la : UInt32) (count : Nat) : Outcome Trap (List UInt8) :=
  Bytewise.load m.read la count

def store (bytes : List UInt8) (la : UInt32) (m : Machine) : Outcome Trap Machine := do
  return { m with mem := ← Bytewise.store (write m.cr) bytes la m.mem }

def fetch (m : Machine) : Outcome Trap (Instruction × UInt32) := do
  let opcode ← m.load m.eip 1
  if opcode = [0x66] then
    let rest ← m.load (m.eip + 1) 8
    if rest.take 2 = [0xC7, 0x05] then
      let imm := (rest.getD 6 0).toUInt16 ||| (rest.getD 7 0).toUInt16 <<< 8
      return (.movwMem imm (word ((rest.drop 2).take 4)), m.eip + 9)
    else .fault (.undefined m.eip)
  else if opcode = [0xB8] then return (.movlEax (word (← m.load (m.eip + 1) 4)), m.eip + 5)
  else if opcode = [0x0D] then return (.orlEax (word (← m.load (m.eip + 1) 4)), m.eip + 5)
  else if opcode = [0xBD] then return (.movlEbp (word (← m.load (m.eip + 1) 4)), m.eip + 5)
  else if opcode = [0xBC] then return (.movlEsp (word (← m.load (m.eip + 1) 4)), m.eip + 5)
  else if opcode = [0xE8] then return (.call (word (← m.load (m.eip + 1) 4)), m.eip + 5)
  else if opcode = [0x0F] then
    let rest ← m.load (m.eip + 1) 2
    if rest = [0x22, 0xD8] then return (.eaxToCr3, m.eip + 3)
    else if rest = [0x20, 0xC0] then return (.cr0ToEax, m.eip + 3)
    else if rest = [0x22, 0xC0] then return (.eaxToCr0, m.eip + 3)
    else .fault (.undefined m.eip)
  else if opcode = [0xFF] then
    if (← m.load (m.eip + 1) 1) = [0xE0] then return (.jmpEax, m.eip + 2)
    else .fault (.undefined m.eip)
  else if opcode = [0xEB] then
    return (.jmp ((← m.load (m.eip + 1) 1).getD 0 0).toInt8, m.eip + 2)
  else .fault (.undefined m.eip)

def execute (m : Machine) (next : UInt32) : Instruction → Outcome Trap Machine
  | .movwMem imm address => do
      return { ← store [imm.toUInt8, (imm >>> 8).toUInt8] address m with eip := next }
  | .movlEax imm => return { m with eax := imm, eip := next }
  | .eaxToCr3 => return { m with cr := { m.cr with cr3 := m.eax }, eip := next }
  | .cr0ToEax => return { m with eax := m.cr.cr0, eip := next }
  | .orlEax imm => return { m with eax := m.eax ||| imm, eip := next }
  | .eaxToCr0 => return { m with cr := { m.cr with cr0 := m.eax }, eip := next }
  | .jmpEax => return { m with eip := m.eax }
  | .movlEbp imm => return { m with ebp := imm, eip := next }
  | .movlEsp imm => return { m with esp := imm, eip := next }
  | .call rel => do
      let m ← store (Cpu.littleEndian next) (m.esp - 4) m
      return { m with esp := m.esp - 4, eip := next + rel }
  | .jmp rel => return { m with eip := next + rel.toInt32.toUInt32 }

def step (m : Machine) : Outcome Trap Machine := do
  let (instruction, next) ← m.fetch
  m.execute next instruction

def run : Nat → Machine → Outcome Trap Machine
  | 0, m => return m
  | count + 1, m => do run count (← m.step)

end Machine

structure Link where
  entry : UInt32
  entryPgdir : UInt32
  entryPgtable : UInt32
  bootstacktop : UInt32
  i386Init : UInt32
  pgdir_aligned : entryPgdir.toNat % 4096 = 0
  pgtable_aligned : entryPgtable.toNat % 4096 = 0
  entry_in : 0xF0100000 ≤ entry.toNat ∧ entry.toNat + 52 ≤ 0xF0400000
  pgdir_in : 0xF0100000 ≤ entryPgdir.toNat ∧ entryPgdir.toNat + 4096 ≤ 0xF0400000
  pgtable_in : 0xF0100000 ≤ entryPgtable.toNat ∧ entryPgtable.toNat + 4096 ≤ 0xF0400000
  stack_in : 0xF0100000 + 0x8000 ≤ bootstacktop.toNat ∧ bootstacktop.toNat ≤ 0xF0400000
  entry_apart : bootstacktop.toNat ≤ entry.toNat ∨ entry.toNat + 52 ≤ bootstacktop.toNat - 0x8000
  pgdir_apart : bootstacktop.toNat ≤ entryPgdir.toNat ∨
    entryPgdir.toNat + 4096 ≤ bootstacktop.toNat - 0x8000
  pgtable_apart : bootstacktop.toNat ≤ entryPgtable.toNat ∨
    entryPgtable.toNat + 4096 ≤ bootstacktop.toNat - 0x8000

namespace Link

variable (link : Link)

def reloc (x : UInt32) : UInt32 := x - kernbaseWord

def relocated : UInt32 := link.entry + 35
def spin : UInt32 := link.entry + 50

def entryCode : List Instruction :=
  [ .movwMem 0x1234 0x472,                    -- warm boot
    .movlEax (reloc link.entryPgdir), .eaxToCr3,
    -- Turn on paging.
    .cr0ToEax, .orlEax (cr0PE ||| cr0PG ||| cr0WP), .eaxToCr0,
    .movlEax link.relocated, .jmpEax,
    -- relocated:
    .movlEbp 0x0,                             -- nuke frame pointer
    .movlEsp link.bootstacktop,
    .call (link.i386Init - link.spin),
    -- spin:
    .jmp (-2) ]

def codeBytes : List UInt8 := link.entryCode.flatMap Instruction.encode

end Link

namespace Machine

theorem read_mapped {m : Machine} {la pa : UInt32}
    (reached : translate m.mem m.cr la false = .done pa) (mapped : m.mem.mapped pa.toNat = true) :
    m.read la = .done (m.mem.value pa.toNat) := by
  simp only [read, reached, Outcome.done_bind, Memory.load_mapped _ _ _ mapped, Outcome.withFault]

theorem write_mapped {cr : ControlRegisters} {la pa : UInt32} {mem : Mem}
    (reached : translate mem cr la true = .done pa) (mapped : mem.mapped pa.toNat = true)
    (byte : UInt8) : write cr la byte mem = .done (mem.set pa.toNat byte) := by
  simp only [write, reached, Outcome.done_bind, Memory.store_mapped _ _ _ _ mapped,
    Outcome.withFault]

theorem store_done {m : Machine} {bytes : List UInt8} {la : UInt32} {mem : Mem}
    (stored : Bytewise.store (write m.cr) bytes la m.mem = .done mem) :
    store bytes la m = .done { m with mem } := by
  rw [store, stored]
  rfl

theorem half_littleEndian (imm : UInt16) :
    imm.toUInt8.toUInt16 ||| (imm >>> 8).toUInt8.toUInt16 <<< 8 = imm := by
  have below := imm.toNat_lt
  have amount : (8 : UInt16).toNat % 16 = 8 := rfl
  have low : imm.toUInt8.toUInt16.toNat = imm.toNat % 2 ^ 8 := by simp
  have high : ((imm >>> 8).toUInt8.toUInt16 <<< 8).toNat = (imm.toNat / 2 ^ 8) <<< 8 := by
    rw [UInt16.toNat_shiftLeft, amount, UInt8.toNat_toUInt16, UInt16.toNat_toUInt8,
      UInt16.toNat_shiftRight, amount, Nat.shiftRight_eq_div_pow, Nat.shiftLeft_eq, Nat.shiftLeft_eq]
    omega
  apply UInt16.toNat_inj.1
  rw [UInt16.toNat_or, low, high, Nat.or_comm, ← Nat.shiftLeft_add_eq_or_of_lt (by omega),
    Nat.shiftLeft_eq]
  omega

theorem littleEndian_length (w : UInt32) : (Cpu.littleEndian w).length = 4 := rfl

section Encoded

variable {m : Machine} {i : Instruction} (loaded : m.load m.eip i.encode.length = .done i.encode)

include loaded

theorem opcode_loaded {opcode : UInt8} {rest : List UInt8} (encoded : i.encode = opcode :: rest) :
    m.load m.eip 1 = .done [opcode] ∧ m.load (m.eip + 1) rest.length = .done rest := by
  rw [encoded] at loaded
  have both : m.load m.eip ([opcode] ++ rest).length = .done ([opcode] ++ rest) := loaded
  exact Bytewise.load_append both

theorem immediate_loaded {opcode : UInt8} {imm : UInt32}
    (encoded : i.encode = opcode :: Cpu.littleEndian imm) :
    m.load m.eip 1 = .done [opcode] ∧ m.load (m.eip + 1) 4 = .done (Cpu.littleEndian imm) :=
  opcode_loaded loaded encoded

theorem fetch_encode : m.fetch = .done (i, m.eip + UInt32.ofNat i.encode.length) := by
  cases i with
  | movwMem imm address =>
    obtain ⟨opcode, rest⟩ := opcode_loaded loaded rfl
    have size : (0xC7 :: 0x05 ::
        (Cpu.littleEndian address ++ [imm.toUInt8, (imm >>> 8).toUInt8]) : List UInt8).length = 8 :=
      rfl
    have field : word (((0xC7 :: 0x05 :: (Cpu.littleEndian address ++
        [imm.toUInt8, (imm >>> 8).toUInt8]) : List UInt8).drop 2).take 4) = address :=
      word_littleEndian address
    rw [size] at rest
    simp only [fetch, opcode, rest, Outcome.done_bind, if_true, field]
    simpa [Cpu.littleEndian, Instruction.encode] using half_littleEndian imm
  | movlEax imm =>
    obtain ⟨opcode, rest⟩ := immediate_loaded loaded rfl
    simp [fetch, opcode, rest, word_littleEndian, Instruction.encode, littleEndian_length]
  | orlEax imm =>
    obtain ⟨opcode, rest⟩ := immediate_loaded loaded rfl
    simp [fetch, opcode, rest, word_littleEndian, Instruction.encode, littleEndian_length]
  | movlEbp imm =>
    obtain ⟨opcode, rest⟩ := immediate_loaded loaded rfl
    simp [fetch, opcode, rest, word_littleEndian, Instruction.encode, littleEndian_length]
  | movlEsp imm =>
    obtain ⟨opcode, rest⟩ := immediate_loaded loaded rfl
    simp [fetch, opcode, rest, word_littleEndian, Instruction.encode, littleEndian_length]
  | call rel =>
    obtain ⟨opcode, rest⟩ := immediate_loaded loaded rfl
    simp [fetch, opcode, rest, word_littleEndian, Instruction.encode, littleEndian_length]
  | eaxToCr3 =>
    obtain ⟨opcode, rest⟩ := opcode_loaded loaded rfl
    simp only [List.length_cons, List.length_nil, Nat.zero_add] at rest
    simp [fetch, opcode, rest, Instruction.encode]
  | cr0ToEax =>
    obtain ⟨opcode, rest⟩ := opcode_loaded loaded rfl
    simp only [List.length_cons, List.length_nil, Nat.zero_add] at rest
    simp [fetch, opcode, rest, Instruction.encode]
  | eaxToCr0 =>
    obtain ⟨opcode, rest⟩ := opcode_loaded loaded rfl
    simp only [List.length_cons, List.length_nil, Nat.zero_add] at rest
    simp [fetch, opcode, rest, Instruction.encode]
  | jmpEax =>
    obtain ⟨opcode, rest⟩ := opcode_loaded loaded rfl
    simp only [List.length_cons, List.length_nil, Nat.zero_add] at rest
    simp [fetch, opcode, rest, Instruction.encode]
  | jmp rel =>
    obtain ⟨opcode, rest⟩ := opcode_loaded loaded rfl
    simp only [List.length_cons, List.length_nil, Nat.zero_add] at rest
    simp [fetch, opcode, rest, Instruction.encode]

end Encoded

end Machine

namespace Link

variable (link : Link)

def offset (n : Nat) : Nat := ((link.entryCode.take n).flatMap Instruction.encode).length

structure Holds (mem : Mem) : Prop where
  maps : mem.Maps 0 (2 ^ 32)
  code : ∀ i byte, link.codeBytes[i]? = some byte →
    mem.value ((reloc link.entry).toNat + i) = byte
  tables : EntryTables link.entryPgdir link.entryPgtable mem

-- This physical address is outside the two page tables, where the processor sets bits by itself.
def Untabled (a : Nat) : Prop :=
  (a < (reloc link.entryPgdir).toNat ∨ (reloc link.entryPgdir).toNat + 4096 ≤ a) ∧
    (a < (reloc link.entryPgtable).toNat ∨ (reloc link.entryPgtable).toNat + 4096 ≤ a)

def Clear (a : Nat) : Prop :=
  (a < (reloc link.entry).toNat ∨ (reloc link.entry).toNat + 52 ≤ a) ∧ link.Untabled a

variable {link}

theorem reloc_toNat {x : UInt32} (above : 0xF0100000 ≤ x.toNat) :
    (reloc x).toNat = x.toNat - 0xF0000000 := by
  have base : kernbaseWord.toNat = 0xF0000000 := rfl
  have le : kernbaseWord ≤ x := by
    rw [UInt32.le_iff_toNat_le, base]
    omega
  rw [reloc, UInt32.toNat_sub_of_le _ _ le, base]

theorem Holds.set {mem : Mem} (holds : link.Holds mem) {a : Nat} (clear : link.Clear a)
    (byte : UInt8) : link.Holds (mem.set a byte) where
  maps := holds.maps
  code i byte' found := by
    have lt : i < 52 := (List.getElem?_eq_some_iff.1 found).1
    have apart := clear.1
    rw [Memory.set_value, if_neg (by omega)]
    exact holds.code i byte' found
  tables := by
    have pgdir_at := reloc_toNat link.pgdir_in.1
    have pgdir_in := link.pgdir_in
    have pgtable_at := reloc_toNat link.pgtable_in.1
    have pgtable_in := link.pgtable_in
    have apart := clear.2
    unfold Untabled at apart
    unfold reloc at pgdir_at pgtable_at apart
    apply holds.tables.frame (by omega) (by omega)
    next =>
      intro b ge lt
      rw [Memory.set_value, if_neg (by omega)]
      exact ⟨rfl, rfl⟩
    next =>
      intro b ge lt
      rw [Memory.set_value, if_neg (by omega)]
      exact ⟨rfl, rfl⟩

end Link

end JosLab.Entry
