import JosLab.Inc.Mmu

set_option autoImplicit false

namespace JosLab.Mmu

def entryPgdir (pgtable : UInt32) (i : Nat) : UInt32 :=
  -- Map VA's [0, 4MB) to PA's [0, 4MB)
  if i = 0 then (pgtable - kernbaseWord) + pteP
  -- Map VA's [KERNBASE, KERNBASE+4MB) to PA's [0, 4MB)
  else if i = (kernbaseWord >>> 22).toNat then (pgtable - kernbaseWord) + pteP + pteW
  else 0

def entryPgtable (i : Nat) : UInt32 := UInt32.ofNat (0x1000 * i) ||| pteP ||| pteW

def ptsize : UInt32 := 0x400000

structure EntryTables (pgdir pgtable : UInt32) (mem : Mem) : Prop where
  directory : ∀ i : UInt32, i.toNat < 1024 → ∃ pde,
    entry mem (pgdir - kernbaseWord) i = .done pde ∧ Marked (entryPgdir pgtable i.toNat) pde
  table : ∀ i : UInt32, i.toNat < 1024 → ∃ pte,
    entry mem (pgtable - kernbaseWord) i = .done pte ∧ Marked (entryPgtable i.toNat) pte

def entryMap (la : UInt32) (write : Bool) : Outcome Trap UInt32 :=
  if la < ptsize then
    if write then .fault (.pageFault la (errorCode true true)) else .done la
  else if kernbaseWord ≤ la ∧ la < kernbaseWord + ptsize then .done (la - kernbaseWord)
  else .fault (.pageFault la (errorCode false write))

theorem present_iff (pte : UInt32) : pte &&& pteP = 0 ↔ pte.toNat % 2 = 0 := by
  simpa [pteP] using and_bit pte 0 (by decide)

theorem writeable_iff (pte : UInt32) : pte &&& pteW = 0 ↔ pte.toNat / 2 % 2 = 0 := by
  simpa [pteW] using and_bit pte 1 (by decide)

theorem Marked.present {written pte : UInt32} (marked : Marked written pte) :
    pte &&& pteP = written &&& pteP := marked.and pteP (by decide)

theorem Marked.writeable {written pte : UInt32} (marked : Marked written pte) :
    pte &&& pteW = written &&& pteW := marked.and pteW (by decide)

theorem Marked.pteAddr {written pte : UInt32} (marked : Marked written pte) :
    pteAddr pte = pteAddr written := marked.and (~~~0xFFF) (by decide)

theorem aligned_reloc {pgtable : UInt32} (aligned : pgtable.toNat % 4096 = 0) :
    (pgtable - kernbaseWord).toNat % 4096 = 0 := by
  have base : kernbaseWord.toNat = 0xF0000000 := rfl
  rw [UInt32.toNat_sub, base]
  omega

theorem pteAddr_aligned {base : UInt32} (aligned : base.toNat % 4096 = 0) :
    pteAddr base = base := by
  apply UInt32.toNat_inj.1
  rw [pteAddr_toNat]
  omega

theorem pteAddr_flags {base flags : UInt32} (aligned : base.toNat % 4096 = 0)
    (small : flags.toNat < 4096) :
    (base + flags).toNat = base.toNat + flags.toNat ∧ pteAddr (base + flags) = base := by
  have below := base.toNat_lt
  have sum : (base + flags).toNat = base.toNat + flags.toNat := by
    rw [UInt32.toNat_add]
    omega
  refine ⟨sum, UInt32.toNat_inj.1 ?_⟩
  rw [pteAddr_toNat, sum]
  omega

theorem entryPgtable_toNat (i : Nat) (lt : i < 1024) : (entryPgtable i).toNat = 0x1000 * i + 3 := by
  have flags : pteP ||| pteW = UInt32.ofNat 3 := rfl
  have page : (UInt32.ofNat (0x1000 * i)).toNat = i <<< 12 := by
    have small : 0x1000 * i < 2 ^ 32 := by omega
    rw [UInt32.toNat_ofNat_of_lt' small, Nat.shiftLeft_eq]
    omega
  rw [entryPgtable, UInt32.or_assoc, flags, UInt32.toNat_or, page, UInt32.toNat_ofNat_of_lt' (by decide),
    ← Nat.shiftLeft_add_eq_or_of_lt (by decide), Nat.shiftLeft_eq]
  omega

def tableByte (entries : Nat → UInt32) (i : Nat) : UInt8 :=
  (Cpu.littleEndian (entries (i / 4))).getD (i % 4) 0

theorem entry_stored {mem : Mem} {base : UInt32} {entries : Nat → UInt32}
    (maps : mem.Maps base.toNat (base.toNat + 4096)) (inside : base.toNat + 4096 ≤ 2 ^ 32)
    (stored : ∀ i < 4096, mem.value (base.toNat + i) = tableByte entries i) (i : UInt32)
    (lt : i.toNat < 1024) : entry mem base i = .done (entries i.toNat) := by
  have four : (4 : UInt32).toNat = 4 := rfl
  have address : (base + 4 * i).toNat = base.toNat + 4 * i.toNat := by
    rw [UInt32.toNat_add, UInt32.toNat_mul, four]
    omega
  have cell (k : Nat) (k_lt : k < 4) : mem.value (base.toNat + 4 * i.toNat + k) =
      (Cpu.littleEndian (entries i.toNat)).getD k 0 := by
    have byte := stored (4 * i.toNat + k) (by omega)
    have slot : (4 * i.toNat + k) / 4 = i.toNat := by omega
    have lane : (4 * i.toNat + k) % 4 = k := by omega
    rw [tableByte, slot, lane, ← Nat.add_assoc] at byte
    exact byte
  have bytes : (List.range 4).map (fun k => mem.value (base.toNat + 4 * i.toNat + k)) =
      Cpu.littleEndian (entries i.toNat) := by
    have first := cell 0 (by decide)
    rw [Nat.add_zero] at first
    simp [List.range_succ, first, cell 1, cell 2, cell 3, Cpu.littleEndian]
  have loaded := loadBytes_mapped mem (base.toNat + 4 * i.toNat) 4 (by omega)
    (maps.narrow (by omega) (by omega))
  rw [entry, loadWord, address, loaded, bytes, Outcome.done_bind, word_littleEndian]
  rfl

theorem EntryTables.of_bytes {pgdir pgtable : UInt32} {mem : Mem} (maps : mem.Maps 0 (2 ^ 32))
    (pgdir_inside : (pgdir - kernbaseWord).toNat + 4096 ≤ 2 ^ 32)
    (pgtable_inside : (pgtable - kernbaseWord).toNat + 4096 ≤ 2 ^ 32)
    (directory : ∀ i < 4096,
      mem.value ((pgdir - kernbaseWord).toNat + i) = tableByte (entryPgdir pgtable) i)
    (table : ∀ i < 4096, mem.value ((pgtable - kernbaseWord).toNat + i) = tableByte entryPgtable i) :
    EntryTables pgdir pgtable mem where
  directory i lt := ⟨_, entry_stored (maps.narrow (Nat.zero_le _) pgdir_inside) pgdir_inside
    directory i lt, Marked.refl _⟩
  table i lt := ⟨_, entry_stored (maps.narrow (Nat.zero_le _) pgtable_inside) pgtable_inside
    table i lt, Marked.refl _⟩

theorem entry_congr {mem mem' : Mem} {base i : UInt32} (inside : base.toNat + 4096 ≤ 2 ^ 32)
    (same : ∀ a, base.toNat ≤ a → a < base.toNat + 4096 →
      mem'.mapped a = mem.mapped a ∧ mem'.value a = mem.value a) (lt : i.toNat < 1024) :
    entry mem' base i = entry mem base i := by
  have four : (4 : UInt32).toNat = 4 := rfl
  have address : (base + 4 * i).toNat = base.toNat + 4 * i.toNat := by
    rw [UInt32.toNat_add, UInt32.toNat_mul, four]
    omega
  have bytes : loadBytes mem' (base + 4 * i).toNat 4 = loadBytes mem (base + 4 * i).toNat 4 := by
    apply loadBytes_congr _ _ (base + 4 * i).toNat_lt
    intro k k_lt
    rw [address, wrap_of_lt _ (by omega)]
    exact same _ (by omega) (by omega)
  simp only [entry, loadWord, bytes]

theorem EntryTables.frame {pgdir pgtable : UInt32} {mem mem' : Mem}
    (tables : EntryTables pgdir pgtable mem)
    (pgdir_inside : (pgdir - kernbaseWord).toNat + 4096 ≤ 2 ^ 32)
    (pgtable_inside : (pgtable - kernbaseWord).toNat + 4096 ≤ 2 ^ 32)
    (directory : ∀ a, (pgdir - kernbaseWord).toNat ≤ a → a < (pgdir - kernbaseWord).toNat + 4096 →
      mem'.mapped a = mem.mapped a ∧ mem'.value a = mem.value a)
    (table : ∀ a, (pgtable - kernbaseWord).toNat ≤ a → a < (pgtable - kernbaseWord).toNat + 4096 →
      mem'.mapped a = mem.mapped a ∧ mem'.value a = mem.value a) :
    EntryTables pgdir pgtable mem' where
  directory i lt := by
    rw [entry_congr pgdir_inside directory lt]
    exact tables.directory i lt
  table i lt := by
    rw [entry_congr pgtable_inside table lt]
    exact tables.table i lt

section Tables

variable {pgdir pgtable : UInt32} {mem : Mem} {cr : ControlRegisters}

theorem EntryTables.page (tables : EntryTables pgdir pgtable mem) (la : UInt32) :
    ∃ pte, entry mem (pgtable - kernbaseWord) (ptx la) = .done pte ∧ pte &&& pteP ≠ 0 ∧
      pte &&& pteW ≠ 0 ∧ (pteAddr pte ||| pgoff la).toNat = la.toNat % ptsize.toNat := by
  have index := ptx_toNat la
  obtain ⟨pte, found, marked⟩ := tables.table (ptx la) (by omega)
  have value := entryPgtable_toNat (ptx la).toNat (by omega)
  refine ⟨pte, found, ?_, ?_, ?_⟩
  · rw [marked.present, ne_eq, present_iff, value]
    omega
  · rw [marked.writeable, ne_eq, writeable_iff, value]
    omega
  · have frame : (pteAddr pte).toNat = (la.toNat / 2 ^ 12 % 2 ^ 10) <<< 12 := by
      rw [marked.pteAddr, pteAddr_toNat, value, index, Nat.shiftLeft_eq]
      omega
    have offset := pgoff_toNat la
    have size : ptsize.toNat = 0x400000 := rfl
    rw [UInt32.toNat_or, frame, ← Nat.shiftLeft_add_eq_or_of_lt (by omega), Nat.shiftLeft_eq,
      offset, size]
    omega

variable (tables : EntryTables pgdir pgtable mem) (pgdir_aligned : pgdir.toNat % 4096 = 0)
  (pgtable_aligned : pgtable.toNat % 4096 = 0) (base : cr.cr3 = pgdir - kernbaseWord)

include tables pgdir_aligned base

theorem EntryTables.absent (la : UInt32) (write : Bool)
    (unmapped : entryPgdir pgtable (pdx la).toNat = 0) :
    walk mem cr la write = .fault (.pageFault la (errorCode false write)) := by
  have index := pdx_toNat la
  have below := la.toNat_lt
  obtain ⟨pde, found, marked⟩ := tables.directory (pdx la) (by omega)
  have not_present : pde &&& pteP = 0 := by
    rw [marked.present, unmapped]
    rfl
  rw [walk, base, pteAddr_aligned (aligned_reloc pgdir_aligned), found, Outcome.done_bind,
    if_pos not_present]

include pgtable_aligned

theorem EntryTables.present (la : UInt32) (write : Bool) (flags : UInt32) (small : flags.toNat < 4096)
    (here : flags &&& pteP ≠ 0)
    (written : entryPgdir pgtable (pdx la).toNat = pgtable - kernbaseWord + flags) :
    ∃ pa : UInt32, pa.toNat = la.toNat % ptsize.toNat ∧
      walk mem cr la write =
        if write ∧ cr.cr0 &&& cr0WP ≠ 0 ∧ flags &&& pteW = 0 then
          .fault (.pageFault la (errorCode true write))
        else .done pa := by
  have index := pdx_toNat la
  have below := la.toNat_lt
  have aligned := aligned_reloc pgtable_aligned
  obtain ⟨sum, address⟩ := pteAddr_flags aligned small
  obtain ⟨pde, found, marked⟩ := tables.directory (pdx la) (by omega)
  obtain ⟨pte, second, present, writeable, frame⟩ := tables.page la
  rw [written] at marked
  have flag_present : pde &&& pteP ≠ 0 := by
    rw [marked.present, ne_eq, present_iff, sum]
    rw [ne_eq, present_iff] at here
    omega
  have flag_writeable : pde &&& pteW = 0 ↔ flags &&& pteW = 0 := by
    rw [marked.writeable, writeable_iff, writeable_iff, sum]
    omega
  refine ⟨_, frame, ?_⟩
  rw [walk, base, pteAddr_aligned (aligned_reloc pgdir_aligned), found, Outcome.done_bind,
    if_neg flag_present, marked.pteAddr, address, second, Outcome.done_bind, if_neg present]
  simp only [flag_writeable, writeable, or_false]
  rfl

theorem EntryTables.translates (paging : cr.cr0 &&& cr0PG ≠ 0) (protect : cr.cr0 &&& cr0WP ≠ 0)
    (la : UInt32) (write : Bool) : translate mem cr la write = entryMap la write := by
  have index := pdx_toNat la
  have below := la.toNat_lt
  have size : ptsize.toNat = 0x400000 := rfl
  have kernel : kernbaseWord.toNat = 0xF0000000 := rfl
  have top : (kernbaseWord + ptsize).toNat = 0xF0400000 := rfl
  have slot : (kernbaseWord >>> 22).toNat = 960 := rfl
  rw [translate, if_neg paging, entryMap]
  simp only [UInt32.lt_iff_toNat_lt, UInt32.le_iff_toNat_le, size, kernel, top]
  by_cases low : la.toNat < 0x400000
  next =>
    have first : (pdx la).toNat = 0 := by omega
    obtain ⟨pa, same, walked⟩ := tables.present pgdir_aligned pgtable_aligned base la write pteP
      (by decide) (by decide) (by rw [entryPgdir, if_pos first])
    have identity : pa = la := by
      apply UInt32.toNat_inj.1
      rw [same, size, Nat.mod_eq_of_lt low]
    have read_only : pteP &&& pteW = 0 := rfl
    rw [walked, if_pos low, identity]
    cases write <;> simp [protect, read_only]
  next =>
    by_cases high : 0xF0000000 ≤ la.toNat ∧ la.toNat < 0xF0400000
    next =>
      have last : (pdx la).toNat = 960 := by omega
      obtain ⟨pa, same, walked⟩ := tables.present pgdir_aligned pgtable_aligned base la write
        (pteP + pteW) (by decide) (by decide)
        (by rw [entryPgdir, if_neg (by omega), slot, if_pos last, UInt32.add_assoc])
      have relocated : pa = la - kernbaseWord := by
        apply UInt32.toNat_inj.1
        rw [UInt32.toNat_sub, kernel, same, size]
        omega
      have writeable : ¬ (pteP + pteW) &&& pteW = 0 := by decide
      rw [walked, if_neg low, if_pos high, relocated, if_neg (by simp [writeable])]
    next =>
      have unmapped : entryPgdir pgtable (pdx la).toNat = 0 := by
        rw [entryPgdir, if_neg (by omega), slot, if_neg (by omega)]
      rw [tables.absent pgdir_aligned base la write unmapped, if_neg low, if_neg high]

omit tables pgdir_aligned base pgtable_aligned in
theorem entryMap_done (la pa : UInt32) (write : Bool) :
    entryMap la write = .done pa ↔
      pa < ptsize ∧ (la = kernbaseWord + pa ∨ la = pa ∧ write = false) := by
  have below := la.toNat_lt
  have below' := pa.toNat_lt
  have size : ptsize.toNat = 0x400000 := rfl
  have kernel : kernbaseWord.toNat = 0xF0000000 := rfl
  have top : (kernbaseWord + ptsize).toNat = 0xF0400000 := rfl
  rw [entryMap]
  simp only [UInt32.lt_iff_toNat_lt, UInt32.le_iff_toNat_le, size, kernel, top,
    ← UInt32.toNat_inj, UInt32.toNat_add]
  by_cases low : la.toNat < 0x400000
  next =>
    cases write <;> simp [low, ← UInt32.toNat_inj] <;> omega
  next =>
    by_cases high : 0xF0000000 ≤ la.toNat ∧ la.toNat < 0xF0400000
    next =>
      simp only [low, high, and_self, if_false, if_true, Outcome.done.injEq, ← UInt32.toNat_inj,
        UInt32.toNat_sub, kernel]
      omega
    next =>
      simp only [low, high, if_false, reduceCtorEq, false_iff]
      omega

theorem entry_pgdir_reaches (paging : cr.cr0 &&& cr0PG ≠ 0) (protect : cr.cr0 &&& cr0WP ≠ 0)
    (la : UInt32) (write : Bool) :
    (∀ pa, translate mem cr la write = .done pa ↔
      pa < ptsize ∧ (la = kernbaseWord + pa ∨ la = pa ∧ write = false)) ∧
    ((∀ pa, translate mem cr la write ≠ .done pa) →
      translate mem cr la write = .fault (.pageFault la (errorCode (la < ptsize) write))) := by
  rw [tables.translates pgdir_aligned pgtable_aligned base paging protect la write]
  refine ⟨fun pa => entryMap_done la pa write, fun missing => ?_⟩
  unfold entryMap at missing ⊢
  by_cases low : la < ptsize
  next =>
    cases write with
    | false => simp [low] at missing
    | true => simp [low]
  next =>
    by_cases high : kernbaseWord ≤ la ∧ la < kernbaseWord + ptsize
    next => simp [low, high] at missing
    next => simp [low, high]

end Tables

def tablesMem : Mem where
  mapped _ := true
  value a :=
    if 0x101000 ≤ a ∧ a < 0x102000 then tableByte (entryPgdir 0xF0102000) (a - 0x101000)
    else if 0x102000 ≤ a ∧ a < 0x103000 then tableByte entryPgtable (a - 0x102000)
    else 0

theorem tablesMem_tables : EntryTables 0xF0101000 0xF0102000 tablesMem := by
  apply EntryTables.of_bytes (fun _ _ _ => rfl) (by decide) (by decide)
  next =>
    intro i lt
    have start : (0xF0101000 - kernbaseWord).toNat = 0x101000 := rfl
    have inside : 0x101000 + i < 0x102000 := by omega
    simp [tablesMem, start, inside]
  next =>
    intro i lt
    have start : (0xF0102000 - kernbaseWord).toNat = 0x102000 := rfl
    have inside : 0x102000 + i < 0x103000 := by omega
    have past : ¬ 0x102000 + i < 0x102000 := by omega
    simp [tablesMem, start, inside, past]

theorem entry_pgdir_reaches_console :
    (∀ pa, translate tablesMem ⟨cr0PG ||| cr0WP, 0x101000⟩ 0xF00B8000 true = .done pa ↔
      pa < ptsize ∧ (0xF00B8000 = kernbaseWord + pa ∨ 0xF00B8000 = pa ∧ true = false)) ∧
    ((∀ pa, translate tablesMem ⟨cr0PG ||| cr0WP, 0x101000⟩ 0xF00B8000 true ≠ .done pa) →
      translate tablesMem ⟨cr0PG ||| cr0WP, 0x101000⟩ 0xF00B8000 true =
        .fault (.pageFault 0xF00B8000 (errorCode ((0xF00B8000 : UInt32) < ptsize) true))) :=
  entry_pgdir_reaches tablesMem_tables (by decide) (by decide) rfl (by decide) (by decide) _ true

end JosLab.Mmu
