import JosLab.Inc.Segment
import JosLab.Shared.Bytewise
import JosLab.Shared.Handshake

set_option autoImplicit false

namespace JosLab.Boot

open Mmu

-- Bit 1 of the status: the controller has not taken the last byte yet.
abbrev BusyInput : Type := { status : UInt8 // status &&& 0x2 ≠ 0 }

abbrev IdleInput : Type := { status : UInt8 // status &&& 0x2 = 0 }

-- The keyboard controller: one pin of its output port is address line 20. It is busy with each byte
-- for as long as it likes, and the pins are `next` only when it is done.
structure Controller where
  busy : List BusyInput
  idle : IdleInput
  delays : Nat → List BusyInput
  bytes : Nat
  command : UInt8
  output : UInt8
  next : UInt8

inductive Refusal where
  | memory (error : Fault)
  | protection (selector : UInt16)
  | lost (port : Nat)
  deriving DecidableEq

namespace Controller

def status (c : Controller) : UInt8 × Controller :=
  match c.busy with
  | [] => (c.idle, c)
  | status :: busy => (status, { c with busy })

def notBusy (c : Controller) : Bool × Controller :=
  let (status, c) := c.status
  (decide (status &&& 0x2 = 0), c)

def outb (port : Nat) (data : UInt8) (c : Controller) : Outcome Refusal Controller :=
  if c.busy = [] then
    let c := { c with busy := c.delays c.bytes, bytes := c.bytes + 1, output := c.next }
    if port = 0x64 then return { c with command := data }
    -- 0xd1: the next byte is for the output port
    else if c.command = 0xd1 then return { c with next := data, command := 0 }
    else return c
  else .fault (.lost port)

def pins (c : Controller) : UInt8 := if c.busy = [] then c.next else c.output

def a20 (c : Controller) : Bool := decide (c.pins &&& 0x2 ≠ 0)

def taken (c : Controller) : Controller := { c with busy := [] }

end Controller

inductive Sreg where
  | cs | ds | es | fs | gs | ss
  deriving DecidableEq, Repr

inductive Access where
  | fetch | read | write
  deriving DecidableEq, Repr

def Access.allowed (d : Descriptor) : Access → Bool
  | .fetch => d.type &&& 0x8 ≠ 0
  | .read => d.type &&& 0x8 = 0 ∨ d.type &&& 0x2 ≠ 0
  | .write => d.type &&& 0x8 = 0 ∧ d.type &&& 0x2 ≠ 0

structure SegmentRegister where
  selector : UInt16
  cache : Descriptor

structure Processor where
  eax : UInt32
  esp : UInt32
  interrupts : Bool
  df : Bool
  sreg : Sreg → SegmentRegister
  gdtrLimit : UInt16
  gdtrBase : UInt32
  cr0 : UInt32
  mem : Mem
  i8042 : Controller

namespace Processor

-- With address line 20 held low, every other megabyte is the one before it.
def physical (s : Processor) (la : UInt32) : UInt32 :=
  if s.i8042.a20 then la else la &&& ~~~0x100000

def linear (s : Processor) (r : Sreg) (offset : UInt32) (access : Access) :
    Outcome Refusal UInt32 :=
  let { selector, cache } := s.sreg r
  if offset ≤ cache.limit ∧ (s.cr0 &&& cr0PE = 0 ∨ access.allowed cache) then
    return cache.base + offset
  else .fault (.protection selector)

def read (s : Processor) (la : UInt32) : Outcome Refusal UInt8 :=
  (s.mem.load .load (s.physical la).toNat).withFault .memory

def write (s : Processor) (la : UInt32) (byte : UInt8) (mem : Mem) : Outcome Refusal Mem :=
  (mem.store .store (s.physical la).toNat byte).withFault .memory

def load (s : Processor) (la : UInt32) (count : Nat) : Outcome Refusal (List UInt8) :=
  Bytewise.load s.read la count

def store (bytes : List UInt8) (la : UInt32) (s : Processor) : Outcome Refusal Processor := do
  return { s with mem := ← Bytewise.store s.write bytes la s.mem }

def descriptor (s : Processor) (selector : UInt16) : Outcome Refusal Descriptor :=
  let offset := selector &&& 0xFFF8
  if offset ≠ 0 ∧ offset.toNat + 7 ≤ s.gdtrLimit.toNat then do
    return Descriptor.ofBytes (← s.load (s.gdtrBase + offset.toUInt32) 8)
  else .fault (.protection selector)

def suits (d : Descriptor) : Sreg → Bool
  | .cs => d.type &&& 0x8 ≠ 0 ∧ d.dpl = 0
  | .ss => d.type &&& 0xA = 0x2 ∧ d.dpl = 0
  | _ => d.type &&& 0xA ≠ 0x8

def loadSreg (r : Sreg) (selector : UInt16) (s : Processor) : Outcome Refusal Processor :=
  if s.cr0 &&& cr0PE = 0 then
    let cache := { (s.sreg r).cache with base := selector.toUInt32 <<< 4 }
    return { s with sreg := Function.update s.sreg r ⟨selector, cache⟩ }
  else do
    let cache ← s.descriptor selector
    if cache.s ∧ cache.p ∧ suits cache r then
      return { s with sreg := Function.update s.sreg r ⟨selector, cache⟩ }
    else .fault (.protection selector)

def ax (s : Processor) : UInt16 := s.eax.toUInt16

def setAx (value : UInt16) (s : Processor) : Processor :=
  { s with eax := (s.eax &&& 0xFFFF0000) ||| value.toUInt32 }

def setAl (value : UInt8) (s : Processor) : Processor :=
  { s with eax := (s.eax &&& 0xFFFFFF00) ||| value.toUInt32 }

def lgdt (gdtdesc : UInt16) (s : Processor) : Outcome Refusal Processor := do
  let la ← s.linear .ds gdtdesc.toUInt32 .read
  let bytes ← s.load la 6
  -- in 16-bit code three bytes of the base are loaded
  return { s with
    gdtrLimit := (word (bytes.take 2)).toUInt16
    gdtrBase := word ((bytes.drop 2).take 3) }

def call (back : UInt16) (s : Processor) : Outcome Refusal Processor := do
  let esp := s.esp - 4
  let la ← s.linear .ss esp .write
  store (Cpu.littleEndian back.toUInt32) la { s with esp }

end Processor

structure Labels where
  gdt : UInt16
  gdtdesc : UInt16
  spin : UInt16
  gdt_in : 0x7c00 ≤ gdt.toNat ∧ gdt.toNat + 24 ≤ 0x7e00
  gdtdesc_in : 0x7c00 ≤ gdtdesc.toNat ∧ gdtdesc.toNat + 6 ≤ 0x7e00

def codeType : UInt32 := 0x8 ||| 0x2
def dataType : UInt32 := 0x2

def gdtBytes : List UInt8 :=
  segNull ++ (segBytes codeType 0x0 0xffffffff ++ segBytes dataType 0x0 0xffffffff)

def Labels.gdtdescBytes (labels : Labels) : List UInt8 :=
  halfword 0x17 ++ Cpu.littleEndian labels.gdt.toUInt32

section Code

variable (labels : Labels) (fuel : Nat)

def seta20 (s : Processor) : Outcome Refusal Processor := do
  let i8042 ← Loop.run (Handshake.waitPass Controller.notBusy id) fuel s.i8042
  let i8042 ← i8042.outb 0x64 0xd1
  let i8042 ← Loop.run (Handshake.waitPass Controller.notBusy id) fuel i8042
  let i8042 ← i8042.outb 0x60 0xdf
  return { s with i8042 }.setAl 0xdf

def realMode (s : Processor) : Outcome Refusal Processor := do
  let s := { s with interrupts := false }     -- Disable interrupts
  let s := { s with df := false }             -- String operations increment
  let s := s.setAx 0
  let s ← s.loadSreg .ds s.ax
  let s ← s.loadSreg .es s.ax
  let s ← s.loadSreg .ss s.ax
  seta20 fuel s

def protectedMode (s : Processor) : Outcome Refusal Processor := do
  let s ← s.lgdt labels.gdtdesc
  let s := { s with eax := s.cr0 }
  let s := { s with eax := s.eax ||| cr0PE }
  let s := { s with cr0 := s.eax }
  let s ← s.loadSreg .cs 0x8
  let s := s.setAx 0x10
  let s ← s.loadSreg .ds s.ax
  let s ← s.loadSreg .es s.ax
  let s ← s.loadSreg .fs s.ax
  let s ← s.loadSreg .gs s.ax
  let s ← s.loadSreg .ss s.ax
  let s := { s with esp := 0x7c00 }
  s.call labels.spin

def start (s : Processor) : Outcome Refusal Processor := do
  protectedMode labels (← realMode fuel s)

end Code

namespace Controller

theorem ready_after (c : Controller) :
    Handshake.ReadyAfter notBusy id c.busy.length c c.taken := by
  obtain ⟨busy, idle, delays, bytes, command, output, next⟩ := c
  induction busy with
  | nil => exact .now (by simp [notBusy, status, taken, idle.property])
  | cons st busy ih => exact .later (by simp [notBusy, status, st.property]) ih

theorem wait_ready {fuel : Nat} {c : Controller} (ready : c.busy.length < fuel) :
    (Loop.run (Handshake.waitPass notBusy id) fuel c : Outcome Refusal Controller) =
      .done c.taken :=
  c.ready_after.wait fuel ready

def gated (c : Controller) : Controller where
  busy := c.delays (c.bytes + 1)
  idle := c.idle
  delays := c.delays
  bytes := c.bytes + 2
  command := 0
  output := c.next
  next := 0xdf

def polls (c : Controller) : Nat := max c.busy.length (c.delays c.bytes).length + 1

theorem gated_a20 (c : Controller) : c.gated.taken.a20 = true := by
  have line : (0xdf : UInt8) &&& 0x2 ≠ 0 := by decide
  exact decide_eq_true line

end Controller

theorem seta20_done (fuel : Nat) (s : Processor) (enough : s.i8042.polls ≤ fuel) :
    seta20 fuel s = .done ({ s with i8042 := s.i8042.gated }.setAl 0xdf) := by
  unfold Controller.polls at enough
  have first : s.i8042.busy.length < fuel := by omega
  have second : (s.i8042.delays s.i8042.bytes).length < fuel := by omega
  rw [seta20, Controller.wait_ready first, Outcome.done_bind]
  simp only [Controller.outb, Controller.taken, if_true, Outcome.pure_eq, Outcome.done_bind,
    Controller.wait_ready (c := { s.i8042 with
      busy := s.i8042.delays s.i8042.bytes
      bytes := s.i8042.bytes + 1
      output := s.i8042.next
      command := 0xd1 }) second]
  rfl

namespace Processor

theorem setAx_ax (value : UInt16) (s : Processor) : (s.setAx value).ax = value := by
  apply UInt16.toBitVec_inj.1
  ext i lt
  simp [setAx, ax]

theorem physical_even (s : Processor) {la : UInt32} (even : la &&& 0x100000 = 0) :
    s.physical la = la := by
  have kept : la &&& ~~~0x100000 = la := by
    apply UInt32.toBitVec_inj.1
    have clear : la.toBitVec &&& 0x100000 = 0 := congrArg UInt32.toBitVec even
    have whole : la.toBitVec &&& ~~~0x100000 ||| la.toBitVec &&& 0x100000 = la.toBitVec := by
      rw [← BitVec.and_or_distrib_left]
      exact BitVec.and_allOnes
    rw [clear] at whole
    simpa using whole
  unfold physical
  split
  next => rfl
  next => exact kept

theorem physical_low (s : Processor) {la : UInt32} (low : la.toNat < 0x100000) :
    s.physical la = la := by
  apply physical_even
  apply UInt32.toNat_inj.1
  have bit : (0x100000 : UInt32).toNat = 2 ^ 20 := rfl
  have off : la.toNat.testBit 20 = false := Nat.testBit_lt_two_pow low
  rw [UInt32.toNat_and, bit, Nat.and_two_pow, off]
  rfl

end Processor

def realSegments (s : Processor) : Sreg → SegmentRegister
  | .ds => ⟨0, { (s.sreg .ds).cache with base := 0 }⟩
  | .es => ⟨0, { (s.sreg .es).cache with base := 0 }⟩
  | .ss => ⟨0, { (s.sreg .ss).cache with base := 0 }⟩
  | r => s.sreg r

theorem realMode_eq (fuel : Nat) {s : Processor} (real : s.cr0 &&& cr0PE = 0) :
    realMode fuel s = seta20 fuel { s.setAx 0 with
      interrupts := false
      df := false
      sreg := realSegments s } := by
  have zero (s : Processor) : (s.setAx 0).ax = 0 := Processor.setAx_ax 0 s
  have segments : Function.update (Function.update (Function.update s.sreg
      .ds ⟨0, { (s.sreg .ds).cache with base := 0 }⟩)
      .es ⟨0, { (s.sreg .es).cache with base := 0 }⟩)
      .ss ⟨0, { (s.sreg .ss).cache with base := 0 }⟩ = realSegments s := by
    funext r
    cases r <;> rfl
  have low := zero s
  unfold Processor.setAx Processor.ax at low
  rw [realMode]
  simp only [Processor.setAx, Processor.ax, Processor.loadSreg, low, real, if_true,
    Outcome.pure_eq, Outcome.done_bind]
  rw [← segments]
  rfl

structure Sector (labels : Labels) (mem : Mem) : Prop where
  maps : mem.Maps 0x7000 0x7e00
  gdt : ∀ i byte, gdtBytes[i]? = some byte → mem.value (labels.gdt.toNat + i) = byte
  gdtdesc : ∀ i byte, labels.gdtdescBytes[i]? = some byte →
    mem.value (labels.gdtdesc.toNat + i) = byte

section Switch

variable {labels : Labels} {s : Processor}

theorem sector_load (maps : s.mem.Maps 0x7000 0x7e00) (la : UInt32)
    (bytes : List UInt8) (low : 0x7000 ≤ la.toNat) (high : la.toNat + bytes.length ≤ 0x7e00)
    (cells : ∀ i byte, bytes[i]? = some byte → s.mem.value (la.toNat + i) = byte) :
    s.load la bytes.length = .done bytes := by
  apply Bytewise.load_read
  intro i byte found
  have lt := (List.getElem?_eq_some_iff.1 found).1
  have address : (la + UInt32.ofNat i).toNat = la.toNat + i := by
    rw [UInt32.toNat_add, UInt32.toNat_ofNat_of_lt' (by omega : i < 2 ^ 32)]
    omega
  have mapped := maps (la.toNat + i) (by omega) (by omega)
  rw [Processor.read, Processor.physical_low s (by omega), address, Memory.load_mapped _ _ _ mapped,
    cells i byte found]
  rfl

theorem word_append_zero (bytes : List UInt8) : word (bytes ++ [0]) = word bytes := by
  induction bytes with
  | nil => rfl
  | cons byte rest ih => rw [List.cons_append, word, ih, word]

theorem gdtdesc_base (labels : Labels) :
    word ((labels.gdtdescBytes.drop 2).take 3) = labels.gdt.toUInt32 := by
  have last : (labels.gdt.toUInt32 >>> 24).toUInt8 = 0 := by
    apply UInt8.toBitVec_inj.1
    ext i lt
    simp [BitVec.getLsbD_of_ge labels.gdt.toBitVec (24 + i) (by omega)]
  have whole : (labels.gdtdescBytes.drop 2).take 3 ++ [0] =
      Cpu.littleEndian labels.gdt.toUInt32 := by
    rw [← last]
    rfl
  rw [← word_append_zero, whole, word_littleEndian]

theorem lgdt_eq (real : s.cr0 &&& cr0PE = 0)
    (sector : Sector labels s.mem) (base : (s.sreg .ds).cache.base = 0)
    (limit : (s.sreg .ds).cache.limit = 0xFFFF) :
    s.lgdt labels.gdtdesc =
      .done { s with gdtrLimit := 0x17, gdtrBase := labels.gdt.toUInt32 } := by
  have inside := labels.gdtdesc_in
  have address : labels.gdtdesc.toUInt32.toNat = labels.gdtdesc.toNat :=
    UInt16.toNat_toUInt32 labels.gdtdesc
  have within : labels.gdtdesc.toUInt32 ≤ 0xFFFF := by
    have top : (0xFFFF : UInt32).toNat = 0xFFFF := rfl
    rw [UInt32.le_iff_toNat_le, address, top]
    omega
  have reached : s.linear .ds labels.gdtdesc.toUInt32 .read = .done labels.gdtdesc.toUInt32 := by
    simp only [Processor.linear, limit, base, within, real, true_or, and_self, if_true,
      UInt32.zero_add]
    rfl
  have size : labels.gdtdescBytes.length = 6 := rfl
  have loaded := sector_load sector.maps labels.gdtdesc.toUInt32 labels.gdtdescBytes
    (by omega) (by rw [address, size]; omega) (by rw [address]; exact sector.gdtdesc)
  rw [size] at loaded
  have limit_bytes : labels.gdtdescBytes.take 2 = [0x17, 0] := rfl
  have limit_field : (word [0x17, 0]).toUInt16 = 0x17 := by decide
  rw [Processor.lgdt, reached, Outcome.done_bind, loaded, Outcome.done_bind, limit_bytes,
    limit_field, gdtdesc_base]
  rfl

def flat (type : UInt32) : Descriptor where
  base := 0
  limit := 0xFFFFFFFF
  type := type.toUInt8
  s := true
  dpl := 0
  p := true
  db := true

theorem flat_descriptor (type : UInt32) (small : type.toNat < 2 ^ 4) :
    Descriptor.ofBytes (segBytes type 0x0 0xffffffff) = flat type := by
  rw [segBytes_eq type 0 0xffffffff small, seg_decodes type 0 0xffffffff 0 small (by decide)]
  rfl

structure Protected (labels : Labels) (s : Processor) : Prop where
  sector : Sector labels s.mem
  on : s.cr0 &&& cr0PE ≠ 0
  limit : s.gdtrLimit = 0x17
  base : s.gdtrBase = labels.gdt.toUInt32

theorem Protected.descriptor (protect : Protected labels s) {selector : UInt16} {type : UInt32}
    (small : type.toNat < 2 ^ 4) (which : selector = 0x8 ∧ type = codeType ∨
      selector = 0x10 ∧ type = dataType) :
    s.descriptor selector = .done (flat type) := by
  have inside := labels.gdt_in
  have address : labels.gdt.toUInt32.toNat = labels.gdt.toNat := UInt16.toNat_toUInt32 labels.gdt
  have entry (offset : UInt32) (bytes : List UInt8) (start : offset.toNat ≤ 16)
      (size : bytes.length = 8)
      (there : ∀ i, bytes[i]? ≠ none → bytes[i]? = gdtBytes[offset.toNat + i]?) :
      s.load (labels.gdt.toUInt32 + offset) 8 = .done bytes := by
    have place : (labels.gdt.toUInt32 + offset).toNat = labels.gdt.toNat + offset.toNat := by
      rw [UInt32.toNat_add, address]
      omega
    have loaded := sector_load protect.sector.maps (labels.gdt.toUInt32 + offset) bytes
      (by omega) (by omega) (fun i byte found => by
        rw [place, Nat.add_assoc]
        apply protect.sector.gdt
        rw [← there i (by simp [found]), found])
    rwa [size] at loaded
  rcases which with ⟨rfl, rfl⟩ | ⟨rfl, rfl⟩
  · have loaded := entry 8 (segBytes codeType 0x0 0xffffffff) (by decide) rfl (by
      intro i some
      have lt : i < 8 := by simpa [segBytes, halfword] using some
      interval_cases i <;> rfl)
    have offset : (0x8 : UInt16) &&& 0xFFF8 = 0x8 := rfl
    simp only [Processor.descriptor, offset, protect.limit, protect.base]
    rw [if_pos (by decide)]
    change s.load (labels.gdt.toUInt32 + 8) 8 >>= _ = _
    rw [loaded, Outcome.done_bind, flat_descriptor codeType small]
    rfl
  · have loaded := entry 16 (segBytes dataType 0x0 0xffffffff) (by decide) rfl (by
      intro i some
      have lt : i < 8 := by simpa [segBytes, halfword] using some
      interval_cases i <;> rfl)
    have offset : (0x10 : UInt16) &&& 0xFFF8 = 0x10 := rfl
    simp only [Processor.descriptor, offset, protect.limit, protect.base]
    rw [if_pos (by decide)]
    change s.load (labels.gdt.toUInt32 + 16) 8 >>= _ = _
    rw [loaded, Outcome.done_bind, flat_descriptor dataType small]
    rfl

theorem Protected.load_code (protect : Protected labels s) :
    s.loadSreg .cs 0x8 =
      .done { s with sreg := Function.update s.sreg .cs ⟨0x8, flat codeType⟩ } := by
  have suits : Processor.suits (flat codeType) .cs = true := by decide
  rw [Processor.loadSreg, if_neg protect.on, protect.descriptor (by decide) (.inl ⟨rfl, rfl⟩),
    Outcome.done_bind, if_pos ⟨rfl, rfl, suits⟩]
  rfl

theorem Protected.load_data (protect : Protected labels s) (r : Sreg) (data : r ≠ .cs) :
    s.loadSreg r 0x10 =
      .done { s with sreg := Function.update s.sreg r ⟨0x10, flat dataType⟩ } := by
  have suits : Processor.suits (flat dataType) r = true := by
    cases r with
    | cs => exact absurd rfl data
    | ds | es | fs | gs | ss => decide
  rw [Processor.loadSreg, if_neg protect.on, protect.descriptor (by decide) (.inr ⟨rfl, rfl⟩),
    Outcome.done_bind, if_pos ⟨rfl, rfl, suits⟩]
  rfl

def flatSegments (r : Sreg) : SegmentRegister :=
  if r = .cs then ⟨0x8, flat codeType⟩ else ⟨0x10, flat dataType⟩

def called (labels : Labels) (mem : Mem) : Mem :=
  mem.blit 0x7BFC 4 fun i => (Cpu.littleEndian labels.spin.toUInt32).getD i 0

theorem Protected.call_eq (protect : Protected labels s) (segments : s.sreg = flatSegments)
    (stack : s.esp = 0x7c00) :
    s.call labels.spin = .done { s with esp := 0x7BFC, mem := called labels s.mem } := by
  have top : s.esp - 4 = 0x7BFC := by
    rw [stack]
    rfl
  have reached : s.linear .ss 0x7BFC .write = .done 0x7BFC := by
    have allowed : Access.write.allowed (flat dataType) = true := by decide
    have within : (0x7BFC : UInt32) ≤ (flat dataType).limit := by decide
    simp only [Processor.linear, segments]
    exact if_pos ⟨within, .inr allowed⟩
  have written : Bytewise.store { s with esp := 0x7BFC }.write
      (Cpu.littleEndian labels.spin.toUInt32) 0x7BFC s.mem = .done (called labels s.mem) ∧
      (called labels s.mem).Maps 0x7000 0x7e00 := by
    apply Bytewise.store_blit (fun mem => mem.Maps 0x7000 0x7e00) _ _ _ s.mem protect.sector.maps
    intro i lt mem byte maps
    have small : i < 4 := lt
    have address : ((0x7BFC : UInt32) + UInt32.ofNat i).toNat = 0x7BFC + i := by
      have start : (0x7BFC : UInt32).toNat = 0x7BFC := rfl
      rw [UInt32.toNat_add, UInt32.toNat_ofNat_of_lt' (by omega : i < 2 ^ 32), start]
      omega
    have mapped := maps (0x7BFC + i) (by omega) (by omega)
    refine ⟨?_, maps⟩
    rw [Processor.write, Processor.physical_low _ (by omega), address,
      Memory.store_mapped _ _ _ _ mapped]
    rfl
  simp only [Processor.call, top, reached, Outcome.done_bind]
  rw [Processor.store, written.1]
  rfl

def switched (labels : Labels) (s : Processor) : Processor := { s with
  eax := ((s.cr0 ||| cr0PE) &&& 0xFFFF0000) ||| 0x10
  esp := 0x7BFC
  sreg := flatSegments
  gdtrLimit := 0x17
  gdtrBase := labels.gdt.toUInt32
  cr0 := s.cr0 ||| cr0PE
  mem := called labels s.mem }

theorem protectedMode_eq (real : s.cr0 &&& cr0PE = 0)
    (sector : Sector labels s.mem) (base : (s.sreg .ds).cache.base = 0)
    (limit : (s.sreg .ds).cache.limit = 0xFFFF) :
    protectedMode labels s = .done (switched labels s) := by
  have on : (s.cr0 ||| cr0PE) &&& cr0PE ≠ 0 := by
    intro zero
    have split : (s.cr0 ||| cr0PE) &&& cr0PE = (s.cr0 &&& cr0PE) ||| (cr0PE &&& cr0PE) :=
      UInt32.toBitVec_inj.1 BitVec.and_or_distrib_right
    rw [split, UInt32.or_eq_zero_iff] at zero
    exact absurd zero.2 (by decide)
  let s0 : Processor := { s with
    eax := s.cr0 ||| cr0PE
    gdtrLimit := 0x17
    gdtrBase := labels.gdt.toUInt32
    cr0 := s.cr0 ||| cr0PE }
  let at_ (sreg : Sreg → SegmentRegister) : Processor := { s0.setAx 0x10 with sreg }
  have protect (sreg : Sreg → SegmentRegister) : Protected labels (at_ sreg) :=
    ⟨sector, on, rfl, rfl⟩
  have protect0 : Protected labels s0 := ⟨sector, on, rfl, rfl⟩
  have ax (sreg : Sreg → SegmentRegister) : (at_ sreg).ax = 0x10 := s0.setAx_ax 0x10
  have segments : Function.update (Function.update (Function.update (Function.update
      (Function.update (Function.update s.sreg
        .cs ⟨0x8, flat codeType⟩) .ds ⟨0x10, flat dataType⟩) .es ⟨0x10, flat dataType⟩)
        .fs ⟨0x10, flat dataType⟩) .gs ⟨0x10, flat dataType⟩) .ss ⟨0x10, flat dataType⟩ =
      flatSegments := by
    funext r
    cases r <;> rfl
  have load (r : Sreg) (data : r ≠ .cs) (sreg : Sreg → SegmentRegister) :
      (at_ sreg).loadSreg r (at_ sreg).ax =
        .done (at_ (Function.update sreg r ⟨0x10, flat dataType⟩)) := by
    rw [ax sreg, (protect sreg).load_data r data]
  have start : protectedMode labels s = (do
      let s ← (at_ (Function.update s.sreg .cs ⟨0x8, flat codeType⟩)).loadSreg .ds
        (at_ (Function.update s.sreg .cs ⟨0x8, flat codeType⟩)).ax
      let s ← s.loadSreg .es s.ax
      let s ← s.loadSreg .fs s.ax
      let s ← s.loadSreg .gs s.ax
      let s ← s.loadSreg .ss s.ax
      { s with esp := 0x7c00 }.call labels.spin) := by
    rw [protectedMode, lgdt_eq real sector base limit, Outcome.done_bind]
    change (s0.loadSreg .cs 0x8 >>= _) = _
    rw [protect0.load_code, Outcome.done_bind]
    rfl
  rw [start, load .ds (by decide), Outcome.done_bind, load .es (by decide), Outcome.done_bind,
    load .fs (by decide), Outcome.done_bind, load .gs (by decide), Outcome.done_bind,
    load .ss (by decide), Outcome.done_bind, segments]
  have done : Protected labels { at_ flatSegments with esp := 0x7c00 } :=
    ⟨sector, on, rfl, rfl⟩
  rw [done.call_eq rfl rfl]
  rfl

end Switch

structure Flat (s : Processor) : Prop where
  even : ∀ la, la &&& 0x100000 = 0 → s.physical la = la
  bus : ∀ la, { s with i8042 := s.i8042.taken }.physical la = la
  code : ∀ offset, s.linear .cs offset .fetch = .done offset
  data : ∀ r, r ≠ .cs → ∀ offset access, access ≠ .fetch → s.linear r offset access = .done offset

theorem switched_flat {labels : Labels} {s : Processor} (a20 : s.i8042.taken.a20 = true) :
    Flat (switched labels s) where
  even la := (switched labels s).physical_even
  bus la := if_pos a20
  code offset := by
    have within : offset ≤ (flat codeType).limit := by
      have below := offset.toNat_lt
      have top : (flat codeType).limit.toNat = 2 ^ 32 - 1 := rfl
      rw [UInt32.le_iff_toNat_le, top]
      omega
    have allowed : Access.fetch.allowed (flat codeType) = true := by decide
    have segment : (switched labels s).sreg .cs = ⟨0x8, flat codeType⟩ := rfl
    simp only [Processor.linear, segment]
    rw [if_pos ⟨within, .inr allowed⟩]
    change Outcome.done (0 + offset) = _
    rw [UInt32.zero_add]
  data r data offset access access_data := by
    have within : offset ≤ (flat dataType).limit := by
      have below := offset.toNat_lt
      have top : (flat dataType).limit.toNat = 2 ^ 32 - 1 := rfl
      rw [UInt32.le_iff_toNat_le, top]
      omega
    have allowed : access.allowed (flat dataType) = true := by
      cases access with
      | fetch => exact absurd rfl access_data
      | read | write => decide
    have segment : (switched labels s).sreg r = ⟨0x10, flat dataType⟩ := if_neg data
    simp only [Processor.linear, segment]
    rw [if_pos ⟨within, .inr allowed⟩]
    change Outcome.done (0 + offset) = _
    rw [UInt32.zero_add]

def entered (s : Processor) : Processor :=
  { { s.setAx 0 with
      interrupts := false
      df := false
      sreg := realSegments s } with i8042 := s.i8042.gated }.setAl 0xdf

section Ready

variable {labels : Labels} {fuel : Nat} {s : Processor}

theorem realMode_done (real : s.cr0 &&& cr0PE = 0) (enough : s.i8042.polls ≤ fuel) :
    realMode fuel s = .done (entered s) := by
  rw [realMode_eq fuel real]
  exact seta20_done fuel _ enough

theorem switched_done (sector : Sector labels s.mem) (real : s.cr0 &&& cr0PE = 0)
    (limits : ∀ r, (s.sreg r).cache.limit = 0xFFFF) (i8042 : Controller) :
    protectedMode labels { entered s with i8042 } =
      .done (switched labels { entered s with i8042 }) :=
  protectedMode_eq (s := { entered s with i8042 }) real sector rfl (limits .ds)

theorem start_done (sector : Sector labels s.mem) (real : s.cr0 &&& cr0PE = 0)
    (limits : ∀ r, (s.sreg r).cache.limit = 0xFFFF) (enough : s.i8042.polls ≤ fuel) :
    start labels fuel s = .done (switched labels (entered s)) := by
  rw [start, realMode_done real enough]
  exact switched_done sector real limits (entered s).i8042

end Ready

-- However long the controller takes over what it is sent, boot.S comes to `bootmain`. It does not wait
-- for the last byte to be taken: the switch is the same at whatever moment that is.
theorem start_enters (labels : Labels) (s : Processor) (sector : Sector labels s.mem)
    (real : s.cr0 &&& cr0PE = 0) (limits : ∀ r, (s.sreg r).cache.limit = 0xFFFF) :
    (∃ enough, ∀ fuel ≥ enough, realMode fuel s = .done (entered s) ∧
        start labels fuel s = .done (switched labels (entered s))) ∧
      (∀ i8042, protectedMode labels { entered s with i8042 } =
        .done (switched labels { entered s with i8042 })) ∧
      Flat (switched labels (entered s)) ∧
      ∀ r, (r = .ds ∨ r = .es ∨ r = .ss) → ∀ offset ≤ 0xFFFF, ∀ access, access ≠ .fetch →
        (entered s).linear r offset access =
          (switched labels (entered s)).linear r offset access := by
  have flat_ : Flat (switched labels (entered s)) := switched_flat s.i8042.gated_a20
  refine ⟨⟨s.i8042.polls, ?_⟩, switched_done sector real limits, flat_, ?_⟩
  · intro fuel enough
    exact ⟨realMode_done real enough, start_done sector real limits enough⟩
  · intro r which offset within access data
    have other : r ≠ .cs := by
      rcases which with rfl | rfl | rfl <;> decide
    rw [flat_.data r other offset access data]
    have limit := limits r
    have segment : ((entered s).sreg r).cache.limit = 0xFFFF ∧
        ((entered s).sreg r).cache.base = 0 := by
      rcases which with rfl | rfl | rfl <;> exact ⟨limit, rfl⟩
    simp only [Processor.linear, segment.1, segment.2]
    rw [if_pos ⟨within, .inl real⟩, UInt32.zero_add]
    rfl

def bootLabels : Labels where
  gdt := 0x7c4c
  gdtdesc := 0x7c64
  spin := 0x7c4a
  gdt_in := by decide
  gdtdesc_in := by decide

def slowController : Controller where
  busy := [⟨0x1F, by decide⟩, ⟨0x02, by decide⟩]
  idle := ⟨0x1C, by decide⟩
  delays n := List.replicate (3 - n) ⟨0x1E, by decide⟩
  bytes := 0
  command := 0
  output := 0xdd
  next := 0xdd

def biosProcessor : Processor where
  eax := 0xFFFFAA55
  esp := 0x6F00
  interrupts := true
  df := true
  sreg r := ⟨if r = .es then 0xF000 else 0, {
    base := if r = .es then 0xF0000 else 0
    limit := 0xFFFF
    type := 0x3
    s := true
    dpl := 0
    p := true
    db := false }⟩
  gdtrLimit := 0x3FF
  gdtrBase := 0
  cr0 := 0x10
  mem := {
    mapped := fun _ => true
    value := fun a =>
      if a < 0x7c64 then gdtBytes.getD (a - 0x7c4c) 0
      else bootLabels.gdtdescBytes.getD (a - 0x7c64) 0 }
  i8042 := slowController

theorem biosProcessor_sector : Sector bootLabels biosProcessor.mem where
  maps _ _ _ := rfl
  gdt i byte found := by
    have lt : i < 24 := (List.getElem?_eq_some_iff.1 found).1
    have place : bootLabels.gdt.toNat + i = 0x7c4c + i := rfl
    have index : 0x7c4c + i - 0x7c4c = i := by omega
    simp only [biosProcessor, place]
    rw [if_pos (by omega), index, List.getD_eq_getElem?_getD, found]
    rfl
  gdtdesc i byte found := by
    have place : bootLabels.gdtdesc.toNat + i = 0x7c64 + i := rfl
    have index : 0x7c64 + i - 0x7c64 = i := by omega
    simp only [biosProcessor, place]
    rw [if_neg (by omega), index, List.getD_eq_getElem?_getD, found]
    rfl

theorem biosProcessor_starts :
    (∃ enough, ∀ fuel ≥ enough, start bootLabels fuel biosProcessor =
        .done (switched bootLabels (entered biosProcessor))) ∧
      Flat (switched bootLabels (entered biosProcessor)) ∧
      (switched bootLabels (entered biosProcessor)).physical 0x100000 = 0 := by
  have started := start_enters bootLabels biosProcessor biosProcessor_sector (by decide)
    fun _ => rfl
  obtain ⟨enough, ran⟩ := started.1
  exact ⟨⟨enough, fun fuel le => (ran fuel le).2⟩, started.2.2.1, by decide⟩

end JosLab.Boot
