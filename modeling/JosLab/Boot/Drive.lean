import JosLab.Boot.LoadSegments
import JosLab.Shared.Handshake
import JosLab.Shared.Simulation

set_option autoImplicit false

namespace JosLab.Boot

abbrev BusyStatus : Type := { status : UInt8 // status &&& 0xC0 ≠ 0x40 }

abbrev ReadyStatus : Type := { status : UInt8 // status &&& 0xC0 = 0x40 }

-- After each command the disk is busy for as many polls as it likes.
structure Drive where
  ide : Ide
  busy : List BusyStatus
  idle : ReadyStatus
  delays : Nat → List BusyStatus
  commands : Nat

inductive Violation where
  | memory (error : Fault)
  | register (port : Nat)
  | data
  deriving DecidableEq, Repr

namespace Drive

def status (d : Drive) : UInt8 × Drive :=
  match d.busy with
  | [] => (d.idle, d)
  | status :: busy => (status, { d with busy })

def ready (d : Drive) : Bool × Drive :=
  let (status, d) := d.status
  (decide (status &&& 0xC0 = 0x40), d)

def outb (disk : Nat → UInt8) (port : Nat) (data : UInt8) (d : Drive) : Outcome Violation Drive :=
  if d.busy = [] then
    let ide := Boot.outb disk port data d.ide
    if port = 0x1F7 then
      return { d with ide, busy := d.delays d.commands, commands := d.commands + 1 }
    else return { d with ide }
  else .fault (.register port)

end Drive

structure Host where
  mem : Mem
  drive : Drive

namespace Host

section Disk

-- `waits` bounds the polls of one wait.
variable (disk : Nat → UInt8) (waits : Nat)

-- while ((inb(0x1F7) & 0xC0) != 0x40) /* do nothing */;
def waitdisk (s : Host) : Outcome Violation Host := do
  return { s with drive := ← Loop.run (Handshake.waitPass Drive.ready id) waits s.drive }

def insl : Nat → Nat → Host → Outcome Violation Host
  | _, 0, s => return s
  | addr, cnt + 1, s =>
      let { mem, drive } := s
      if drive.busy = [] ∧ 4 ≤ drive.ide.pending.length then do
        let mem ← (storeBytes mem addr (drive.ide.pending.take 4)).withFault .memory
        insl (wrap (addr + 4)) cnt
          { mem, drive :=
            { drive with ide := { drive.ide with pending := drive.ide.pending.drop 4 } } }
      else .fault .data

def readsect (dst offset : UInt32) (s : Host) : Outcome Violation Host := do
  let { mem, drive } ← waitdisk waits s
  let drive ← drive.outb disk 0x1F2 1
  let drive ← drive.outb disk 0x1F3 offset.toUInt8
  let drive ← drive.outb disk 0x1F4 (offset >>> 8).toUInt8
  let drive ← drive.outb disk 0x1F5 (offset >>> 16).toUInt8
  let drive ← drive.outb disk 0x1F6 ((offset >>> 24) ||| 0xE0).toUInt8
  let drive ← drive.outb disk 0x1F7 0x20
  let s ← waitdisk waits { mem, drive }
  insl dst.toNat (512 / 4) s

def readsegPass (endPa : UInt32) (state : UInt32 × UInt32 × Host) :
    Outcome Violation (Pass (UInt32 × UInt32 × Host) Host) := do
  let (pa, offset, s) := state
  if pa < endPa then
    let s ← readsect disk waits pa offset s
    return .again (pa + 512, offset + 1, s)
  else return .leave s

def readseg (pa count offset : UInt32) (s : Host) : Outcome Violation Host :=
  let endPa := pa + count
  let pa := pa &&& ~~~(512 - 1)
  let offset := offset / 512 + 1
  Loop.run (readsegPass disk waits endPa) (readsegFuel count) (pa, offset, s)

def segmentPass (eph : UInt32) (state : UInt32 × Host) :
    Outcome Violation (Pass (UInt32 × Host) Host) := do
  let (ph, s) := state
  if ph < eph then
    let header ← (readProghdr s.mem ph).withFault .memory
    let s ← readseg disk waits header.pPa header.pMemsz header.pOffset s
    return .again (ph + 32, s)
  else return .leave s

inductive Booted where
  | entry (address : UInt32) (s : Host)
  | bad (s : Host)

def bootmain (s : Host) : Outcome Violation Booted := do
  let s ← readseg disk waits elfhdr (512 * 8) 0 s
  let elf ← (readElf s.mem).withFault .memory
  if elf.eMagic ≠ elfMagic then return .bad s
  else
    let ph := elfhdr + elf.ePhoff
    let eph := ph + 32 * elf.ePhnum
    let s ← Loop.run (segmentPass disk waits eph) (elf.ePhnum.toNat + 1) (ph, s)
    let elf ← (readElf s.mem).withFault .memory
    return .entry elf.eEntry s

end Disk

def machine (s : Host) : Machine := { mem := s.mem, ide := s.drive.ide }

end Host

structure Drive.Prompt (d : Drive) (waits : Nat) : Prop where
  busy : d.busy.length < waits
  delays : ∀ n, (d.delays n).length < waits

def Slower (waits : Nat) (s : Machine) (t : Host) : Prop :=
  s = t.machine ∧ t.drive.Prompt waits

namespace Drive

variable {d : Drive}

def waited (d : Drive) : Drive := { d with busy := [] }

theorem ready_after (d : Drive) :
    Handshake.ReadyAfter Drive.ready id d.busy.length d d.waited := by
  obtain ⟨ide, busy, idle, delays, commands⟩ := d
  induction busy with
  | nil => exact .now (by simp [Drive.ready, status, waited, idle.property])
  | cons st busy ih =>
    exact .later (by simp [Drive.ready, status, st.property]) ih

theorem waitdisk_ready {waits : Nat} (mem : Mem) (prompt : d.Prompt waits) :
    Host.waitdisk waits ⟨mem, d⟩ = .done ⟨mem, d.waited⟩ := by
  rw [Host.waitdisk, d.ready_after.wait waits prompt.busy]
  rfl

end Drive

abbrev OnlyMemory (error : Fault) (error' : Violation) : Prop := error' = .memory error

namespace Host

variable {disk : Nat → UInt8} {waits : Nat}

theorem insl_matches (cnt addr : Nat) (mem : Mem) (d : Drive) (idle : d.busy = [])
    (prompt : d.Prompt waits) (words : 4 * cnt ≤ d.ide.pending.length) :
    Outcome.Matches OnlyMemory (Slower waits) (Boot.insl addr cnt ⟨mem, d.ide⟩)
      (insl addr cnt ⟨mem, d⟩) := by
  induction cnt generalizing addr mem d with
  | zero => exact .done ⟨rfl, prompt⟩
  | succ cnt ih =>
    have allowed : d.busy = [] ∧ 4 ≤ d.ide.pending.length := ⟨idle, by omega⟩
    simp only [Boot.insl, insl, if_pos allowed]
    apply (Outcome.withFault_matches Violation.memory _).bind
    rintro mem' _ rfl
    apply ih (wrap (addr + 4)) mem'
      { d with ide := { d.ide with pending := d.ide.pending.drop 4 } } idle ⟨prompt.busy, prompt.delays⟩
    rw [List.length_drop]
    omega

def sectorCommand (disk : Nat → UInt8) (offset : UInt32) (d : Ide) : Ide :=
  let d := Boot.outb disk 0x1F2 1 d
  let d := Boot.outb disk 0x1F3 offset.toUInt8 d
  let d := Boot.outb disk 0x1F4 (offset >>> 8).toUInt8 d
  let d := Boot.outb disk 0x1F5 (offset >>> 16).toUInt8 d
  let d := Boot.outb disk 0x1F6 ((offset >>> 24) ||| 0xE0).toUInt8 d
  Boot.outb disk 0x1F7 0x20 d

theorem readsect_matches (dst offset : UInt32) {s : Machine} {t : Host} (slower : Slower waits s t) :
    Outcome.Matches OnlyMemory (Slower waits) (Boot.readsect disk dst offset s)
      (readsect disk waits dst offset t) := by
  obtain ⟨mem, d⟩ := t
  obtain ⟨rfl, prompt⟩ := slower
  let ide := sectorCommand disk offset d.ide
  let issued : Drive :=
    { d with ide, busy := d.delays d.commands, commands := d.commands + 1 }
  have prompt' : issued.Prompt waits := ⟨prompt.delays _, prompt.delays⟩
  have sent : readsect disk waits dst offset ⟨mem, d⟩ =
      waitdisk waits ⟨mem, issued⟩ >>= insl dst.toNat (512 / 4) := by
    rw [readsect, d.waitdisk_ready mem prompt]
    rfl
  have run : Boot.readsect disk dst offset (machine ⟨mem, d⟩) =
      Boot.insl dst.toNat (512 / 4) ⟨mem, ide⟩ := rfl
  rw [sent, run, issued.waitdisk_ready mem prompt', Outcome.done_bind]
  exact insl_matches (512 / 4) dst.toNat mem issued.waited rfl ⟨Nat.zero_lt_of_lt prompt'.busy, prompt.delays⟩
    (by simp [Drive.waited, issued, ide, sectorCommand, Boot.outb])

def Also {α σ σ' : Type} (related : σ → σ' → Prop) (state : α × σ) (state' : α × σ') : Prop :=
  state'.1 = state.1 ∧ related state.2 state'.2

theorem readsegPass_matches (endPa : UInt32) (state : UInt32 × UInt32 × Machine)
    (state' : UInt32 × UInt32 × Host) (slower : Also (Also (Slower waits)) state state') :
    Outcome.Matches OnlyMemory (Pass.Matches (Also (Also (Slower waits))) (Slower waits))
      (Boot.readsegPass disk endPa state) (readsegPass disk waits endPa state') := by
  obtain ⟨_, _, s⟩ := state
  obtain ⟨dst, sector, t⟩ := state'
  obtain ⟨rfl, rfl, slower⟩ := slower
  simp only [Boot.readsegPass, readsegPass]
  by_cases more : dst < endPa
  next =>
    rw [if_pos more, if_pos more]
    apply (readsect_matches dst sector slower).bind
    intro s t slower
    exact .done (.again ⟨rfl, rfl, slower⟩)
  next =>
    rw [if_neg more, if_neg more]
    exact .done (.leave slower)

theorem readseg_matches (pa count offset : UInt32) {s : Machine} {t : Host}
    (slower : Slower waits s t) :
    Outcome.Matches OnlyMemory (Slower waits) (Boot.readseg disk pa count offset s)
      (readseg disk waits pa count offset t) :=
  Loop.run_matches (readsegPass_matches (pa + count)) _ _ _ ⟨rfl, rfl, slower⟩

theorem segmentPass_matches (eph : UInt32) (state : UInt32 × Machine) (state' : UInt32 × Host)
    (slower : Also (Slower waits) state state') :
    Outcome.Matches OnlyMemory (Pass.Matches (Also (Slower waits)) (Slower waits))
      (Boot.segmentPass disk eph state) (segmentPass disk waits eph state') := by
  obtain ⟨_, s⟩ := state
  obtain ⟨ph, t⟩ := state'
  obtain ⟨rfl, slower⟩ := slower
  simp only [Boot.segmentPass, segmentPass]
  by_cases more : ph < eph
  next =>
    have machine : s = t.machine := slower.1
    rw [if_pos more, if_pos more, machine]
    apply (Outcome.withFault_matches Violation.memory _).bind
    rintro header _ rfl
    apply (readseg_matches header.pPa header.pMemsz header.pOffset ⟨rfl, slower.2⟩).bind
    intro s t slower
    exact .done (.again ⟨rfl, slower⟩)
  next =>
    rw [if_neg more, if_neg more]
    exact .done (.leave slower)

inductive Booted.Matches (waits : Nat) : Boot.Booted → Booted → Prop where
  | entry {address : UInt32} {s : Machine} {t : Host} (slower : Slower waits s t) :
      Matches waits (.entry address s) (.entry address t)
  | bad {s : Machine} {t : Host} (slower : Slower waits s t) : Matches waits (.bad s) (.bad t)

theorem bootmain_matches {s : Machine} {t : Host} (slower : Slower waits s t) :
    Outcome.Matches OnlyMemory (Booted.Matches waits) (Boot.bootmain disk s)
      (bootmain disk waits t) := by
  apply (readseg_matches elfhdr (512 * 8) 0 slower).bind
  intro s t slower
  rw [slower.1]
  apply (Outcome.withFault_matches Violation.memory _).bind
  rintro elf _ rfl
  by_cases magic : elf.eMagic ≠ elfMagic
  next =>
    simp only [if_pos magic]
    exact .done (.bad ⟨rfl, slower.2⟩)
  next =>
    simp only [if_neg magic]
    apply (Loop.run_matches (segmentPass_matches _) _ _ _ ⟨rfl, rfl, slower.2⟩).bind
    intro s t slower
    rw [slower.1]
    apply (Outcome.withFault_matches Violation.memory _).bind
    rintro elf _ rfl
    exact .done (.entry ⟨rfl, slower.2⟩)

theorem bootmain_waits (disk : Nat → UInt8) (waits : Nat) (t : Host)
    (prompt : t.drive.Prompt waits) :
    Outcome.Matches OnlyMemory (Booted.Matches waits) (Boot.bootmain disk t.machine)
      (bootmain disk waits t) :=
  bootmain_matches ⟨rfl, prompt⟩

def slowDrive : Drive where
  ide := ⟨fun _ => 0, []⟩
  busy := [⟨0x80, by decide⟩, ⟨0xD0, by decide⟩]
  idle := ⟨0x50, by decide⟩
  delays n := if n % 2 = 0 then [⟨0xC0, by decide⟩, ⟨0x80, by decide⟩] else []
  commands := 0

theorem slowDrive_boots :
    ∃ t, bootmain sharedSector 3 ⟨⟨fun _ => true, fun _ => 0⟩, slowDrive⟩ =
      .done (.entry (elf (kernel sharedSector)).eEntry t) := by
  have delays (n : Nat) : (slowDrive.delays n).length < 3 := by
    unfold slowDrive
    dsimp only
    split <;> decide
  have slower := bootmain_waits sharedSector 3 ⟨⟨fun _ => true, fun _ => 0⟩, slowDrive⟩
    ⟨by decide, delays⟩
  obtain ⟨ide, ran⟩ := bootmain_loads sharedSector sharedSector_loadable
    (machine ⟨⟨fun _ => true, fun _ => 0⟩, slowDrive⟩) fun _ _ _ => rfl
  rw [ran] at slower
  generalize bootmain sharedSector 3 ⟨⟨fun _ => true, fun _ => 0⟩, slowDrive⟩ = run at slower
  cases slower with
  | done related =>
    cases related with
    | entry slower => exact ⟨_, rfl⟩

end Host

end JosLab.Boot
