import JosLab.Boot.LoadSegments
import JosLab.Kern.EntryRun

set_option autoImplicit false

namespace JosLab.Boot

open Entry Mmu

section Image

variable (image : Nat → UInt8)

def Brings (pa count : Nat) (cell : Nat → UInt8) : Prop :=
  ∃ segment ∈ segments image, segment.pPa.toNat ≤ pa ∧
    pa + count ≤ segment.pPa.toNat + segment.pFilesz.toNat ∧
    ∀ i < count, image (segment.pOffset.toNat + (pa - segment.pPa.toNat + i)) = cell i

structure Carries (link : Link) : Prop where
  high : ∀ segment ∈ segments image, 0x100000 ≤ segment.pPa.toNat ∧
    segment.pPa.toNat + segment.pMemsz.toNat ≤ 0x400000
  start : (elf image).eEntry = Link.reloc link.entry
  code : Brings image (Link.reloc link.entry).toNat 52 fun i => link.codeBytes.getD i 0
  pgdir : Brings image (Link.reloc link.entryPgdir).toNat 4096
    (tableByte (entryPgdir link.entryPgtable))
  pgtable : Brings image (Link.reloc link.entryPgtable).toNat 4096 (tableByte entryPgtable)

end Image

variable {image : Nat → UInt8} {link : Link}

theorem Brings.loaded {pa count : Nat} {cell : Nat → UInt8} (brings : Brings image pa count cell)
    {mem : Mem} (loaded : Loaded image mem) : ∀ i < count, mem.value (pa + i) = cell i := by
  obtain ⟨segment, member, above, inside, same⟩ := brings
  intro i lt
  have byte := loaded segment member (pa - segment.pPa.toNat + i) (by omega)
  have address : segment.pPa.toNat + (pa - segment.pPa.toNat + i) = pa + i := by omega
  rw [address, same i lt] at byte
  exact byte

theorem Carries.holds (carries : Carries image link) {mem : Mem} (maps : mem.Maps 0 (2 ^ 32))
    (loaded : Loaded image mem) : link.Holds mem where
  maps := maps
  code i byte found := by
    have small := Link.code_index found
    rw [carries.code.loaded loaded i small, List.getD_eq_getElem?_getD, found]
    rfl
  tables := by
    have directory := Link.reloc_toNat link.pgdir_in.1
    have directory_in := link.pgdir_in
    have table := Link.reloc_toNat link.pgtable_in.1
    have table_in := link.pgtable_in
    unfold Link.reloc at directory table
    exact EntryTables.of_bytes maps (by omega) (by omega) (carries.pgdir.loaded loaded)
      (carries.pgtable.loaded loaded)

theorem read_physical {m : Entry.Machine} (holds : link.Holds m.mem) (paged : link.Paged m.cr)
    (pa : Nat) (lt : pa < 0x400000) :
    m.read (kernbaseWord + UInt32.ofNat pa) = .done (m.mem.value pa) := by
  have size : ptsize.toNat = 0x400000 := rfl
  have address : (UInt32.ofNat pa).toNat = pa := UInt32.toNat_ofNat_of_lt' (by omega : pa < 2 ^ 32)
  have reached : translate m.mem m.cr (kernbaseWord + UInt32.ofNat pa) false =
      .done (UInt32.ofNat pa) := by
    rw [paged.translate holds, entryMap_done, UInt32.lt_iff_toNat_lt, address, size]
    exact ⟨lt, .inl rfl⟩
  rw [Machine.read_mapped reached (holds.maps _ (Nat.zero_le _) (UInt32.toNat_lt _)), address]

structure Entered (disk : Nat → UInt8) (link : Link) (m : Entry.Machine) : Prop where
  running : m.eip = link.i386Init
  frame : m.ebp = 0
  stack : m.esp = link.bootstacktop - 4
  returns : m.load m.esp 4 = .done (Cpu.littleEndian link.spin)
  map : ∀ la write, translate m.mem m.cr la write = entryMap la write
  kernel : ∀ segment ∈ segments (kernel disk), ∀ i < segment.pFilesz.toNat,
    (segment.pPa.toNat + i < (Link.reloc (link.bootstacktop - 4)).toNat ∨
      (Link.reloc (link.bootstacktop - 4)).toNat + 4 ≤ segment.pPa.toNat + i) →
      link.Untabled (segment.pPa.toNat + i) →
        m.read (kernbaseWord + UInt32.ofNat (segment.pPa.toNat + i)) =
          .done (kernel disk (segment.pOffset.toNat + i))

section Arrived

variable {disk : Nat → UInt8} {mem : Mem}

def arrived (link : Link) (cr0 : UInt32) (mem : Mem) : Entry.Machine where
  eax := link.relocated
  ebp := 0
  esp := link.bootstacktop - 4
  eip := link.i386Init
  cr := ⟨pagedCr0 cr0, Link.reloc link.entryPgdir⟩
  mem := pushed link (warm mem)

theorem stack_toNat (link : Link) :
    (Link.reloc (link.bootstacktop - 4)).toNat = link.bootstacktop.toNat - 4 - 0xF0000000 := by
  have top := link.stack_in
  have four : (4 : UInt32).toNat = 4 := rfl
  have slot : (link.bootstacktop - 4).toNat = link.bootstacktop.toNat - 4 := by
    rw [UInt32.toNat_sub, four]
    omega
  rw [Link.reloc_toNat (by omega), slot]

theorem arrived_entered (loadable : Loadable (kernel disk)) (carries : Carries (kernel disk) link)
    (loaded : Loaded (kernel disk) mem) (cr0 : UInt32)
    (holds : link.Holds (pushed link (warm mem))) : Entered disk link (arrived link cr0 mem) := by
  have paged : link.Paged (arrived link cr0 mem).cr := pagedCr0_paged link cr0
  have top := link.stack_in
  have stack := stack_toNat link
  refine ⟨rfl, rfl, rfl, ?_, paged.translate holds, ?_⟩
  · have bytes : (arrived link cr0 mem).load (link.bootstacktop - 4)
        (Cpu.littleEndian link.spin).length = .done (Cpu.littleEndian link.spin) := by
      apply Bytewise.load_read
      intro i byte found
      have small : i < 4 := (List.getElem?_eq_some_iff.1 found).1
      have read := read_physical (m := arrived link cr0 mem) holds paged
        ((Link.reloc (link.bootstacktop - 4)).toNat + i) (by omega)
      have value : (arrived link cr0 mem).mem.value
          ((Link.reloc (link.bootstacktop - 4)).toNat + i) = byte := by
        change (pushed link (warm mem)).value _ = byte
        rw [pushed, Memory.blit_inside _ _ _ _ _ small, List.getD_eq_getElem?_getD, found]
        rfl
      have address : kernbaseWord + UInt32.ofNat ((Link.reloc (link.bootstacktop - 4)).toNat + i) =
          link.bootstacktop - 4 + UInt32.ofNat i := by
        rw [UInt32.ofNat_add, UInt32.ofNat_toNat, ← UInt32.add_assoc, UInt32.add_comm kernbaseWord,
          Link.reloc, UInt32.sub_add_cancel]
      rwa [value, address] at read
    exact bytes
  · intro segment member i lt apart _
    have high := carries.high segment member
    have filled := (loadable.placed segment member).filesz_le
    have low : segment.pPa.toNat + i < 0x400000 := by omega
    have read := read_physical (m := arrived link cr0 mem) holds paged (segment.pPa.toNat + i) low
    have value : (arrived link cr0 mem).mem.value (segment.pPa.toNat + i) =
        kernel disk (segment.pOffset.toNat + i) := by
      change (pushed link (warm mem)).value _ = _
      rw [pushed, Memory.blit_outside _ _ _ _ _ apart, warm,
        Memory.blit_outside _ _ _ _ _ (by omega)]
      exact loaded segment member i lt
    rw [value] at read
    exact read

end Arrived

theorem bootmain_holds (disk : Nat → UInt8) (loadable : Loadable (kernel disk))
    (undisturbed : Undisturbed (kernel disk)) (link : Link) (carries : Carries (kernel disk) link)
    (s : Machine) (maps : s.mem.Maps 0 (2 ^ 32)) :
    ∃ s', bootmain disk s = .done (.entry (Link.reloc link.entry) s') ∧
      Loaded (kernel disk) s'.mem ∧ link.Holds s'.mem := by
  obtain ⟨ide, ran⟩ := bootmain_loads disk loadable s maps
  have loaded := (loaded_iff loadable (s.mem.lay [headerPage (kernel disk)])).2 undisturbed
  rw [carries.start] at ran
  refine ⟨_, ran, loaded, carries.holds ?_ loaded⟩
  intro a ge lt
  simpa using maps a ge lt

theorem boot_enters (disk : Nat → UInt8) (loadable : Loadable (kernel disk))
    (undisturbed : Undisturbed (kernel disk)) (link : Link) (carries : Carries (kernel disk) link)
    (s : Machine) (maps : s.mem.Maps 0 (2 ^ 32)) :
    ∃ s', bootmain disk s = .done (.entry (Link.reloc link.entry) s') ∧
      ∀ eax ebp esp cr, cr.cr0 &&& cr0PG = 0 → ∃ m,
        Entry.Machine.run 11 ⟨eax, ebp, esp, Link.reloc link.entry, cr, s'.mem⟩ = .done m ∧
          Entered disk link m := by
  obtain ⟨s', ran, loaded, holds⟩ := bootmain_holds disk loadable undisturbed link carries s maps
  refine ⟨s', ran, fun eax ebp esp cr unpaged => ?_⟩
  obtain ⟨entered, kept⟩ := entry_run
    (m := ⟨eax, ebp, esp, Link.reloc link.entry, cr, s'.mem⟩) holds unpaged rfl
  exact ⟨_, entered, arrived_entered loadable carries loaded cr.cr0 kept⟩

def smallLink : Link where
  entry := 0xF010000C
  entryPgdir := 0xF0101000
  entryPgtable := 0xF0102000
  bootstacktop := 0xF010C000
  i386Init := 0xF0100040
  pgdir_aligned := by decide
  pgtable_aligned := by decide
  entry_in := by decide
  pgdir_in := by decide
  pgtable_in := by decide
  stack_in := by decide
  entry_apart := by decide
  pgdir_apart := by decide
  pgtable_apart := by decide

-- An ELF header and one program header: p_offset 0x1000, p_pa 0x100000, 0x3000 bytes of 0xC000.
def smallHeader : List UInt8 :=
  [0x7F, 0x45, 0x4C, 0x46, 0, 0, 0, 0, 0, 0, 0, 0, 0, 0, 0, 0, 2, 0, 3, 0, 1, 0, 0, 0,
    0x0C, 0, 0x10, 0, 52, 0, 0, 0, 0, 0, 0, 0, 0, 0, 0, 0, 52, 0, 32, 0, 1, 0, 0, 0, 0, 0, 0, 0,
    1, 0, 0, 0, 0, 0x10, 0, 0, 0, 0, 0x10, 0xF0, 0, 0, 0x10, 0, 0, 0x30, 0, 0, 0, 0xC0, 0, 0,
    7, 0, 0, 0, 0, 0x10, 0, 0]

def smallImage (i : Nat) : UInt8 :=
  if 0x4000 ≤ i then 0
  else if 0x3000 ≤ i then tableByte entryPgtable (i - 0x3000)
  else if 0x2000 ≤ i then tableByte (entryPgdir smallLink.entryPgtable) (i - 0x2000)
  else if 0x100C ≤ i then smallLink.codeBytes.getD (i - 0x100C) 0
  else smallHeader.getD i 0

def smallDisk (i : Nat) : UInt8 := if 512 ≤ i then smallImage (i - 512) else 0

theorem smallDisk_kernel : kernel smallDisk = smallImage := by
  funext i
  simp [kernel, smallDisk]

theorem smallDisk_segments :
    segments (kernel smallDisk) = [⟨0x1000, 0x100000, 0x3000, 0xC000⟩] := by decide +kernel

theorem smallDisk_loadable : Loadable (kernel smallDisk) where
  magic := by decide +kernel
  inside := by decide +kernel
  placed := by
    rw [smallDisk_segments]
    intro segment member
    cases List.mem_singleton.1 member
    exact ⟨by decide, by decide, by decide, by decide⟩

theorem smallDisk_undisturbed : Undisturbed (kernel smallDisk) := by
  intro before segment middle later after split
  have count := congrArg List.length (smallDisk_segments.symm.trans split)
  simp at count
  omega

theorem smallDisk_brings {pa count : Nat} {cell : Nat → UInt8} (above : 0x100000 ≤ pa)
    (inside : pa + count ≤ 0x103000)
    (same : ∀ i < count, smallImage (pa + i - 0xFF000) = cell i) :
    Brings (kernel smallDisk) pa count cell := by
  have offset : (0x1000 : UInt32).toNat = 0x1000 := rfl
  have start : (0x100000 : UInt32).toNat = 0x100000 := rfl
  have size : (0x3000 : UInt32).toNat = 0x3000 := rfl
  refine ⟨⟨0x1000, 0x100000, 0x3000, 0xC000⟩, by simp [smallDisk_segments], ?_, ?_, ?_⟩
  · rw [start]
    exact above
  · rw [start, size]
    exact inside
  · intro i lt
    have place : 0x1000 + (pa - 0x100000 + i) = pa + i - 0xFF000 := by omega
    rw [smallDisk_kernel, offset, start, place]
    exact same i lt

theorem smallDisk_carries : Carries (kernel smallDisk) smallLink where
  high := by
    rw [smallDisk_segments]
    intro segment member
    cases List.mem_singleton.1 member
    exact ⟨by decide, by decide⟩
  start := by decide +kernel
  code := by
    have place : (Link.reloc smallLink.entry).toNat = 0x10000C := rfl
    rw [place]
    apply smallDisk_brings (by decide) (by decide)
    intro i lt
    have index : 0x10000C + i - 0xFF000 - 0x100C = i := by omega
    rw [smallImage, if_neg (by omega), if_neg (by omega), if_neg (by omega), if_pos (by omega), index]
  pgdir := by
    have place : (Link.reloc smallLink.entryPgdir).toNat = 0x101000 := rfl
    rw [place]
    apply smallDisk_brings (by decide) (by decide)
    intro i lt
    have index : 0x101000 + i - 0xFF000 - 0x2000 = i := by omega
    rw [smallImage, if_neg (by omega), if_neg (by omega), if_pos (by omega), index]
  pgtable := by
    have place : (Link.reloc smallLink.entryPgtable).toNat = 0x102000 := rfl
    rw [place]
    apply smallDisk_brings (by decide) (by decide)
    intro i lt
    have index : 0x102000 + i - 0xFF000 - 0x3000 = i := by omega
    rw [smallImage, if_neg (by omega), if_pos (by omega), index]

theorem boot_enters_small :
    ∃ s', bootmain smallDisk blankMachine =
        .done (.entry (Link.reloc smallLink.entry) s') ∧
      ∀ eax ebp esp cr, cr.cr0 &&& cr0PG = 0 → ∃ m,
        Entry.Machine.run 11 ⟨eax, ebp, esp, Link.reloc smallLink.entry, cr, s'.mem⟩ = .done m ∧
          Entered smallDisk smallLink m :=
  boot_enters smallDisk smallDisk_loadable smallDisk_undisturbed smallLink smallDisk_carries
    blankMachine fun _ _ _ => rfl

end JosLab.Boot
