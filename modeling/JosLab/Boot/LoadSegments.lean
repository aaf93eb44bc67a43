import JosLab.Boot.ReadSegment

set_option autoImplicit false

namespace JosLab.Boot

section Image

variable (image : Nat → UInt8)

def wordAt (offset size : Nat) : UInt32 := word ((List.range size).map fun i => image (offset + i))

def elf : Elf where
  eMagic := wordAt image 0 4
  eEntry := wordAt image 24 4
  ePhoff := wordAt image 28 4
  ePhnum := wordAt image 44 2

def proghdr (offset : Nat) : Proghdr where
  pOffset := wordAt image (offset + 4) 4
  pPa := wordAt image (offset + 12) 4
  pFilesz := wordAt image (offset + 16) 4
  pMemsz := wordAt image (offset + 20) 4

def headers (offset count : Nat) : List Proghdr :=
  (List.range count).map fun k => proghdr image (offset + 32 * k)

def segments : List Proghdr := headers image (elf image).ePhoff.toNat (elf image).ePhnum.toNat

def sectors (segment : Proghdr) : Memory.Block UInt8 where
  base := down segment.pPa.toNat
  count := up (segment.pPa.toNat + segment.pMemsz.toNat) - down segment.pPa.toNat
  cell i := image (down segment.pOffset.toNat + i)

structure Placed (segment : Proghdr) : Prop where
  congruent : segment.pPa.toNat % 512 = segment.pOffset.toNat % 512
  filesz_le : segment.pFilesz.toNat ≤ segment.pMemsz.toNat
  scratch : segment.pPa.toNat + segment.pMemsz.toNat + 512 ≤ 0x10000 ∨
    0x11000 + 512 ≤ segment.pPa.toNat
  room : segment.pPa.toNat + segment.pMemsz.toNat + 512 ≤ 2 ^ 32

structure Loadable : Prop where
  magic : (elf image).eMagic = elfMagic
  inside : (elf image).ePhoff.toNat + 32 * (elf image).ePhnum.toNat ≤ 4096
  placed : ∀ segment ∈ segments image, Placed segment

def Page (mem : Mem) : Prop := ∀ i < 4096, mem.value (0x10000 + i) = image i

end Image

variable {image : Nat → UInt8} {segment : Proghdr}

theorem sectors_covers (a : Nat) :
    (sectors image segment).Covers a ↔
      down segment.pPa.toNat ≤ a ∧ a < up (segment.pPa.toNat + segment.pMemsz.toNat) := by
  unfold Memory.Block.Covers sectors
  have le : down segment.pPa.toNat ≤ up (segment.pPa.toNat + segment.pMemsz.toNat) := by
    unfold down up
    omega
  dsimp only
  omega

theorem Placed.scratch_clear (placed : Placed segment) (i : Nat) (lt : i < 4096) :
    ¬ (sectors image segment).Covers (0x10000 + i) := by
  have scratch := placed.scratch
  rw [sectors_covers]
  unfold down up
  omega

theorem Placed.covers_file (placed : Placed segment) (i : Nat) (lt : i < segment.pFilesz.toNat) :
    (sectors image segment).Covers (segment.pPa.toNat + i) := by
  have filesz_le := placed.filesz_le
  rw [sectors_covers]
  unfold down up
  omega

theorem Placed.cell_file (placed : Placed segment) (i : Nat) :
    (sectors image segment).cell (segment.pPa.toNat + i - (sectors image segment).base) =
      image (segment.pOffset.toNat + i) := by
  have congruent := placed.congruent
  unfold sectors
  dsimp only
  congr 1
  unfold down
  omega

theorem readseg_placed (disk : Nat → UInt8) (placed : Placed segment) (s : Machine)
    (maps : s.mem.Maps 0 (2 ^ 32)) :
    ∃ ide, readseg disk segment.pPa segment.pMemsz segment.pOffset s = .done
      { mem := s.mem.lay [sectors (kernel disk) segment], ide } := by
  have room := placed.room
  refine readseg_blit disk _ _ _ s room (maps.narrow (Nat.zero_le _) ?_)
  unfold up
  omega

theorem loadWord_page {mem : Mem} (page : Page image mem) (maps : mem.Maps 0 (2 ^ 32))
    (address : UInt32) (offset size : Nat) (there : address.toNat = 0x10000 + offset)
    (inside : offset + size ≤ 4096) :
    loadWord mem address size = .done (wordAt image offset size) := by
  have loaded := loadBytes_mapped mem address.toNat size (by omega)
    (maps.narrow (Nat.zero_le _) (by omega))
  have bytes : (List.range size).map (fun i => mem.value (address.toNat + i)) =
      (List.range size).map fun i => image (offset + i) := by
    apply List.map_congr_left
    intro i member
    have lt := List.mem_range.mp member
    rw [there, Nat.add_assoc]
    exact page (offset + i) (by omega)
  rw [loadWord, loaded, Outcome.done_bind, bytes]
  rfl

theorem toNat_add_small (a : UInt32) (k : Nat) (b : UInt32) (value : b.toNat = k)
    (room : a.toNat + k < 2 ^ 32) : (a + b).toNat = a.toNat + k := by
  rw [UInt32.toNat_add, value]
  exact Nat.mod_eq_of_lt room

theorem readElf_page {mem : Mem} (page : Page image mem) (maps : mem.Maps 0 (2 ^ 32)) :
    readElf mem = .done (elf image) := by
  simp [readElf, elf, loadWord_page page maps elfhdr 0 4 (by decide) (by decide),
    loadWord_page page maps (elfhdr + 24) 24 4 (by decide) (by decide),
    loadWord_page page maps (elfhdr + 28) 28 4 (by decide) (by decide),
    loadWord_page page maps (elfhdr + 44) 44 2 (by decide) (by decide)]

theorem readProghdr_page {mem : Mem} (page : Page image mem) (maps : mem.Maps 0 (2 ^ 32))
    (ph : UInt32) (offset : Nat) (there : ph.toNat = 0x10000 + offset)
    (inside : offset + 32 ≤ 4096) : readProghdr mem ph = .done (proghdr image offset) := by
  have field (k : Nat) (b : UInt32) (value : b.toNat = k) (small : k + 4 ≤ 32) :
      loadWord mem (ph + b) 4 = .done (wordAt image (offset + k) 4) := by
    refine loadWord_page page maps (ph + b) (offset + k) 4 ?_ (by omega)
    rw [toNat_add_small ph k b value (by omega)]
    omega
  simp [readProghdr, proghdr, field 4 4 rfl, field 12 12 rfl, field 16 16 rfl, field 20 20 rfl]

theorem segments_run (disk : Nat → UInt8) (count offset fuel : Nat) (ph eph : UInt32)
    (s : Machine) (there : ph.toNat = 0x10000 + offset)
    (ends : eph.toNat = 0x10000 + (offset + 32 * count)) (inside : offset + 32 * count ≤ 4096)
    (placed : ∀ segment ∈ headers (kernel disk) offset count, Placed segment)
    (page : Page (kernel disk) s.mem) (maps : s.mem.Maps 0 (2 ^ 32)) (enough : count < fuel) :
    ∃ ide, Loop.run (segmentPass disk eph) fuel (ph, s) = .done
      { mem := s.mem.lay ((headers (kernel disk) offset count).map (sectors (kernel disk))),
        ide } := by
  induction count generalizing offset fuel ph s with
  | zero =>
    obtain ⟨fuel, rfl⟩ := Loop.one_more enough
    have ended : ¬ ph < eph := by
      rw [UInt32.lt_iff_toNat_lt]
      omega
    exact ⟨s.ide, Loop.run_leave _ (by simp [segmentPass, ended, headers, Memory.lay])⟩
  | succ count ih =>
    obtain ⟨fuel, rfl⟩ := Loop.one_more enough
    have more : ph < eph := by
      rw [UInt32.lt_iff_toNat_lt]
      omega
    have split : headers (kernel disk) offset (count + 1) =
        proghdr (kernel disk) offset :: headers (kernel disk) (offset + 32) count := by
      simp [headers, List.range_succ_eq_map, Function.comp_def, Nat.mul_add, Nat.add_assoc,
        Nat.add_comm 32]
    rw [split] at placed ⊢
    have here := placed (proghdr (kernel disk) offset) (by simp)
    have read := readProghdr_page page maps ph offset there (by omega)
    obtain ⟨ide, loaded⟩ := readseg_placed disk here s maps
    have step : segmentPass disk eph (ph, s) = .done (.again (ph + 32,
        { mem := s.mem.lay [sectors (kernel disk) (proghdr (kernel disk) offset)], ide })) := by
      simp [segmentPass, more, read, loaded]
    have kept : Page (kernel disk)
        (s.mem.lay [sectors (kernel disk) (proghdr (kernel disk) offset)]) := by
      intro i lt
      rw [Memory.lay_outside _ _ _ (by simpa using here.scratch_clear i lt)]
      exact page i lt
    obtain ⟨last, rest⟩ := ih (offset + 32) fuel (ph + 32) { mem := _, ide }
      (by rw [toNat_add_small ph 32 32 rfl (by omega)]; omega) (by omega) (by omega)
      (fun segment member => placed segment (by simp [member])) kept
      (fun a ge lt => by simpa using maps a ge lt) (by omega)
    exact ⟨last, (Loop.run_again _ step).trans rest⟩

def headerPage (image : Nat → UInt8) : Memory.Block UInt8 := ⟨0x10000, 4096, image⟩

theorem bootmain_loads (disk : Nat → UInt8) (loadable : Loadable (kernel disk)) (s : Machine)
    (maps : s.mem.Maps 0 (2 ^ 32)) :
    ∃ ide, bootmain disk s = .done (.entry (elf (kernel disk)).eEntry
      { mem := (s.mem.lay [headerPage (kernel disk)]).lay
          ((segments (kernel disk)).map (sectors (kernel disk))), ide }) := by
  have inside := loadable.inside
  obtain ⟨ide, header⟩ := readseg_blit disk elfhdr (512 * 8) 0 s (by decide)
    (maps.narrow (Nat.zero_le _) (by decide))
  have laid : readseg disk elfhdr (512 * 8) 0 s =
      .done { mem := s.mem.lay [headerPage (kernel disk)], ide } := by
    rw [header]
    simp [Memory.lay, headerPage, down, up, elfhdr]
  have page : Page (kernel disk) (s.mem.lay [headerPage (kernel disk)]) :=
    fun i lt => Memory.blit_inside _ _ _ _ _ lt
  have maps' : (s.mem.lay [headerPage (kernel disk)]).Maps 0 (2 ^ 32) := fun a ge lt => by
    simpa using maps a ge lt
  have base : elfhdr.toNat = 0x10000 := rfl
  have start : (elfhdr + (elf (kernel disk)).ePhoff).toNat =
      0x10000 + (elf (kernel disk)).ePhoff.toNat :=
    toNat_add_small elfhdr _ _ rfl (by omega)
  have size : (32 * (elf (kernel disk)).ePhnum).toNat = 32 * (elf (kernel disk)).ePhnum.toNat := by
    have unit : (32 : UInt32).toNat = 32 := rfl
    rw [UInt32.toNat_mul, unit]
    omega
  have stop := toNat_add_small (elfhdr + (elf (kernel disk)).ePhoff) _ _ size (by omega)
  obtain ⟨last, ran⟩ := segments_run disk (elf (kernel disk)).ePhnum.toNat
    (elf (kernel disk)).ePhoff.toNat ((elf (kernel disk)).ePhnum.toNat + 1) _
    (elfhdr + (elf (kernel disk)).ePhoff + 32 * (elf (kernel disk)).ePhnum)
    { mem := s.mem.lay [headerPage (kernel disk)], ide } start (by omega) inside loadable.placed page
    maps' (by omega)
  have kept : Page (kernel disk) ((s.mem.lay [headerPage (kernel disk)]).lay
      ((segments (kernel disk)).map (sectors (kernel disk)))) := by
    intro i lt
    rw [Memory.lay_outside]
    · exact page i lt
    · intro block member
      obtain ⟨segment, listed, rfl⟩ := List.mem_map.mp member
      exact (loadable.placed segment listed).scratch_clear i lt
  have read := readElf_page page maps'
  have again := readElf_page kept fun a ge lt => by simpa using maps a ge lt
  refine ⟨last, ?_⟩
  simp only [bootmain, laid, Outcome.done_bind, read, loadable.magic, ne_eq, not_true, if_false, ran]
  rw [← segments, again]
  rfl

def Loaded (image : Nat → UInt8) (mem : Mem) : Prop :=
  ∀ segment ∈ segments image, ∀ i < segment.pFilesz.toNat,
    mem.value (segment.pPa.toNat + i) = image (segment.pOffset.toNat + i)

def Undisturbed (image : Nat → UInt8) : Prop :=
  ∀ before segment middle later after,
    segments image = before ++ segment :: (middle ++ later :: after) →
      ∀ i < segment.pFilesz.toNat, (sectors image later).Covers (segment.pPa.toNat + i) →
        (∀ other ∈ after, ¬ (sectors image other).Covers (segment.pPa.toNat + i)) →
          image (down later.pOffset.toNat + (segment.pPa.toNat + i - down later.pPa.toNat)) =
            image (segment.pOffset.toNat + i)

theorem exists_last {α : Type} (p : α → Prop) (l : List α) (some : ∃ x ∈ l, p x) :
    ∃ before x after, l = before ++ x :: after ∧ p x ∧ ∀ y ∈ after, ¬ p y := by
  induction l with
  | nil => simp at some
  | cons head rest ih =>
    by_cases later : ∃ x ∈ rest, p x
    · obtain ⟨before, x, after, rfl, holds, last⟩ := ih later
      exact ⟨head :: before, x, after, rfl, holds, last⟩
    · push Not at later
      obtain ⟨x, member, holds⟩ := some
      rcases List.mem_cons.mp member with rfl | inRest
      · exact ⟨[], x, rest, rfl, holds, later⟩
      · exact absurd holds (later x inRest)

theorem lay_sectors (mem : Mem) (before after : List Proghdr) (segment : Proghdr) (a : Nat)
    (covers : (sectors image segment).Covers a)
    (last : ∀ later ∈ after, ¬ (sectors image later).Covers a) :
    (mem.lay ((before ++ segment :: after).map (sectors image))).value a =
      image (down segment.pOffset.toNat + (a - down segment.pPa.toNat)) := by
  rw [List.map_append, List.map_cons, Memory.lay_last _ _ _ _ a covers]
  · rfl
  · simpa using last

theorem loaded_iff (loadable : Loadable image) (mem : Mem) :
    Loaded image (mem.lay ((segments image).map (sectors image))) ↔ Undisturbed image := by
  constructor
  · intro loaded before segment middle later after split i lt covers last
    have byte := loaded segment (by simp [split]) i lt
    have whole : before ++ segment :: (middle ++ later :: after) =
        (before ++ segment :: middle) ++ later :: after := by simp
    rw [split, whole, lay_sectors mem _ after later _ covers last] at byte
    exact byte
  · intro undisturbed segment member i lt
    obtain ⟨before, rest, split⟩ := List.append_of_mem member
    have placed := loadable.placed segment member
    by_cases some : ∃ later ∈ rest, (sectors image later).Covers (segment.pPa.toNat + i)
    · obtain ⟨middle, later, after, rfl, covers, last⟩ := exists_last _ rest some
      have byte := undisturbed before segment middle later after split i lt covers last
      have whole : before ++ segment :: (middle ++ later :: after) =
          (before ++ segment :: middle) ++ later :: after := by simp
      rw [split, whole, lay_sectors mem _ after later _ covers last, byte]
    · push Not at some
      rw [split, lay_sectors mem before rest segment _ (placed.covers_file i lt) some]
      exact placed.cell_file i

theorem bootmain_undisturbed (disk : Nat → UInt8) (loadable : Loadable (kernel disk)) (s : Machine)
    (maps : s.mem.Maps 0 (2 ^ 32)) :
    ∃ s', bootmain disk s = .done (.entry (elf (kernel disk)).eEntry s') ∧
      (Loaded (kernel disk) s'.mem ↔ Undisturbed (kernel disk)) := by
  obtain ⟨ide, ran⟩ := bootmain_loads disk loadable s maps
  exact ⟨_, ran, loaded_iff loadable _⟩

def sharedHeader : List UInt8 :=
  [0x7F, 0x45, 0x4C, 0x46, 0, 0, 0, 0, 0, 0, 0, 0, 0, 0, 0, 0, 2, 0, 3, 0, 1, 0, 0, 0,
    0x0C, 0, 0x10, 0, 52, 0, 0, 0, 0, 0, 0, 0, 0, 0, 0, 0, 52, 0, 32, 0, 2, 0, 0, 0, 0, 0, 0, 0,
    -- p_offset 0x1000, p_pa 0x100000, 0x210 bytes
    1, 0, 0, 0, 0, 0x10, 0, 0, 0, 0, 0x10, 0xF0, 0, 0, 0x10, 0, 0x10, 2, 0, 0, 0x10, 2, 0, 0,
    5, 0, 0, 0, 0, 2, 0, 0,
    -- p_offset 0x1500, p_pa 0x100300, 0x10 bytes
    1, 0, 0, 0, 0, 0x15, 0, 0, 0, 3, 0x10, 0xF0, 0, 3, 0x10, 0, 0x10, 0, 0, 0, 0x10, 0, 0, 0,
    6, 0, 0, 0, 0, 2, 0, 0]

def sharedSector (i : Nat) : UInt8 :=
  if 512 ≤ i then sharedHeader.getD (i - 512) (UInt8.ofNat (i / 512)) else 0

theorem sharedSector_segments : segments (kernel sharedSector) =
    [⟨0x1000, 0x100000, 0x210, 0x210⟩, ⟨0x1500, 0x100300, 0x10, 0x10⟩] := by decide +kernel

theorem sharedSector_loadable : Loadable (kernel sharedSector) where
  magic := by decide +kernel
  inside := by decide +kernel
  placed := by
    rw [sharedSector_segments]
    intro segment member
    rcases List.mem_pair.mp member with rfl | rfl
    · exact ⟨by decide, by decide, by decide, by decide⟩
    · exact ⟨by decide, by decide, by decide, by decide⟩

theorem sharedSector_undisturbed :
    ∃ s', bootmain sharedSector blankMachine =
        .done (.entry (elf (kernel sharedSector)).eEntry s') ∧
      (Loaded (kernel sharedSector) s'.mem ↔ Undisturbed (kernel sharedSector)) :=
  bootmain_undisturbed sharedSector sharedSector_loadable blankMachine fun _ _ _ => rfl

theorem sharedSector_disturbed :
    Loadable (kernel sharedSector) ∧ segments (kernel sharedSector) =
        [⟨0x1000, 0x100000, 0x210, 0x210⟩, ⟨0x1500, 0x100300, 0x10, 0x10⟩] ∧
      ∃ s', bootmain sharedSector blankMachine =
          .done (.entry (elf (kernel sharedSector)).eEntry s') ∧
        ¬ Loaded (kernel sharedSector) s'.mem := by
  obtain ⟨ide, ran⟩ := bootmain_loads sharedSector sharedSector_loadable blankMachine fun _ _ _ => rfl
  refine ⟨sharedSector_loadable, sharedSector_segments, _, ran, fun loaded => ?_⟩
  have byte := (loaded_iff sharedSector_loadable _).1 loaded [] ⟨0x1000, 0x100000, 0x210, 0x210⟩ []
    ⟨0x1500, 0x100300, 0x10, 0x10⟩ [] sharedSector_segments 0x200 (by decide)
    ((sectors_covers _).2 (by decide)) (by simp)
  exact absurd byte (by decide +kernel)

end JosLab.Boot
