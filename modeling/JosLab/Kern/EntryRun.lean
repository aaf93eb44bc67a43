import JosLab.Kern.Entry

set_option autoImplicit false

namespace JosLab.Entry

open Mmu

variable {link : Link}

namespace Link

def Visible (link : Link) (start : UInt32) (m : Machine) : Prop :=
  ∀ i byte, link.codeBytes[i]? = some byte → m.read (start + UInt32.ofNat i) = .done byte

structure Paged (link : Link) (cr : ControlRegisters) : Prop where
  tables : cr.cr3 = reloc link.entryPgdir
  paging : cr.cr0 &&& cr0PG ≠ 0
  protect : cr.cr0 &&& cr0WP ≠ 0

theorem Paged.translate {mem : Mem} {cr : ControlRegisters} (paged : link.Paged cr)
    (holds : link.Holds mem) (la : UInt32) (write : Bool) :
    Mmu.translate mem cr la write = entryMap la write :=
  holds.tables.translates link.pgdir_aligned link.pgtable_aligned paged.tables paged.paging
    paged.protect la write

theorem code_index {i : Nat} {byte : UInt8} (found : link.codeBytes[i]? = some byte) : i < 52 :=
  (List.getElem?_eq_some_iff.1 found).1

theorem code_address (link : Link) {i : Nat} (lt : i < 52) :
    (reloc link.entry + UInt32.ofNat i).toNat = (reloc link.entry).toNat + i := by
  have at_ := reloc_toNat link.entry_in.1
  have inside := link.entry_in
  rw [UInt32.toNat_add, UInt32.toNat_ofNat_of_lt' (by omega : i < 2 ^ 32)]
  omega

theorem Holds.reads {m : Machine} (holds : link.Holds m.mem) {i : Nat} {byte : UInt8}
    (found : link.codeBytes[i]? = some byte) {la : UInt32}
    (reached : translate m.mem m.cr la false = .done (reloc link.entry + UInt32.ofNat i)) :
    m.read la = .done byte := by
  have address := code_address link (code_index found)
  rw [Machine.read_mapped reached (holds.maps _ (Nat.zero_le _) (UInt32.toNat_lt _)), address,
    holds.code i byte found]

theorem Holds.visible_unpaged {m : Machine} (holds : link.Holds m.mem)
    (unpaged : m.cr.cr0 &&& cr0PG = 0) : link.Visible (reloc link.entry) m := by
  intro i byte found
  apply holds.reads found
  rw [Mmu.translate, if_pos unpaged]
  rfl

theorem Holds.visible_low {m : Machine} (holds : link.Holds m.mem) (paged : link.Paged m.cr) :
    link.Visible (reloc link.entry) m := by
  intro i byte found
  apply holds.reads found
  have address := code_address link (code_index found)
  have at_ := reloc_toNat link.entry_in.1
  have inside := link.entry_in
  have small := code_index found
  have size : ptsize.toNat = 0x400000 := rfl
  rw [paged.translate holds, entryMap_done, UInt32.lt_iff_toNat_lt, address, size]
  exact ⟨by omega, .inr ⟨rfl, rfl⟩⟩

theorem Holds.visible_high {m : Machine} (holds : link.Holds m.mem) (paged : link.Paged m.cr) :
    link.Visible link.entry m := by
  intro i byte found
  apply holds.reads found
  have address := code_address link (code_index found)
  have at_ := reloc_toNat link.entry_in.1
  have inside := link.entry_in
  have small := code_index found
  have size : ptsize.toNat = 0x400000 := rfl
  have back : link.entry + UInt32.ofNat i = kernbaseWord + (reloc link.entry + UInt32.ofNat i) := by
    rw [reloc, ← UInt32.add_assoc, UInt32.add_comm kernbaseWord, UInt32.sub_add_cancel]
  rw [paged.translate holds, entryMap_done, UInt32.lt_iff_toNat_lt, address, size]
  exact ⟨by omega, .inl back⟩

theorem Visible.step {start : UInt32} {m : Machine} (visible : link.Visible start m) (n : Nat)
    {i : Instruction} (listed : link.entryCode[n]? = some i)
    (here : m.eip = start + UInt32.ofNat (link.offset n)) :
    m.step = m.execute (start + UInt32.ofNat (link.offset (n + 1))) i := by
  have split : link.entryCode = link.entryCode.take n ++ i :: link.entryCode.drop (n + 1) := by
    obtain ⟨lt, rfl⟩ := List.getElem?_eq_some_iff.1 listed
    rw [← List.drop_eq_getElem_cons lt, List.take_append_drop]
  have bytes : link.codeBytes = (link.entryCode.take n).flatMap Instruction.encode ++
      (i.encode ++ (link.entryCode.drop (n + 1)).flatMap Instruction.encode) := by
    rw [codeBytes]
    conv_lhs => rw [split]
    rw [List.flatMap_append, List.flatMap_cons]
  have next : link.offset (n + 1) = link.offset n + i.encode.length := by
    rw [offset, List.take_add_one, listed, Option.toList_some, List.flatMap_append,
      List.length_append, offset, List.flatMap_singleton]
  have loaded : m.load m.eip i.encode.length = .done i.encode := by
    apply Bytewise.load_read
    intro k byte found
    have shown := visible (link.offset n + k) byte (by
      have lt := (List.getElem?_eq_some_iff.1 found).1
      rw [bytes, offset, List.getElem?_append_right (Nat.le_add_right _ _),
        Nat.add_sub_cancel_left, List.getElem?_append_left lt]
      exact found)
    rwa [here, UInt32.add_assoc, ← UInt32.ofNat_add]
  rw [Machine.step, Machine.fetch_encode loaded, Outcome.done_bind, here, UInt32.add_assoc,
    ← UInt32.ofNat_add, ← next]

end Link

def warm (mem : Mem) : Mem := mem.blit 0x472 2 fun i => [(0x34 : UInt8), 0x12].getD i 0

def pagedCr0 (cr0 : UInt32) : UInt32 := cr0 ||| (cr0PE ||| cr0PG ||| cr0WP)

theorem low_clear {a : Nat} (low : a < 0x100000) : link.Clear a := by
  have code := Link.reloc_toNat link.entry_in.1
  have directory := Link.reloc_toNat link.pgdir_in.1
  have table := Link.reloc_toNat link.pgtable_in.1
  have code_in := link.entry_in
  have directory_in := link.pgdir_in
  have table_in := link.pgtable_in
  unfold Link.Clear Link.Untabled
  omega

theorem warm_store {m : Machine} (holds : link.Holds m.mem) (unpaged : m.cr.cr0 &&& cr0PG = 0) :
    Machine.store [0x34, 0x12] 0x472 m = .done { m with mem := warm m.mem } ∧
      link.Holds (warm m.mem) := by
  have written : Bytewise.store (Machine.write m.cr) [0x34, 0x12] 0x472 m.mem =
      .done (warm m.mem) ∧ link.Holds (warm m.mem) := by
    apply Bytewise.store_blit link.Holds [0x34, 0x12] 0x472 0x472 m.mem holds
    intro i lt mem byte holds
    have small : i < 2 := lt
    have address : ((0x472 : UInt32) + UInt32.ofNat i).toNat = 0x472 + i := by
      have start : (0x472 : UInt32).toNat = 0x472 := rfl
      rw [UInt32.toNat_add, UInt32.toNat_ofNat_of_lt' (by omega : i < 2 ^ 32), start]
      omega
    have mapped := holds.maps (0x472 + i) (Nat.zero_le _) (by omega)
    rw [← address] at mapped ⊢
    exact ⟨Machine.write_mapped (if_pos unpaged) mapped byte,
      holds.set (low_clear (by omega)) byte⟩
  exact ⟨Machine.store_done written.1, written.2⟩

theorem pagedCr0_bit (cr0 : UInt32) (k : Nat)
    (here : (cr0PE ||| cr0PG ||| cr0WP) &&& UInt32.ofNat (2 ^ k) ≠ 0) :
    pagedCr0 cr0 &&& UInt32.ofNat (2 ^ k) ≠ 0 := by
  intro zero
  have split : pagedCr0 cr0 &&& UInt32.ofNat (2 ^ k) =
      (cr0 &&& UInt32.ofNat (2 ^ k)) |||
        ((cr0PE ||| cr0PG ||| cr0WP) &&& UInt32.ofNat (2 ^ k)) :=
    UInt32.toBitVec_inj.1 BitVec.and_or_distrib_right
  rw [split, UInt32.or_eq_zero_iff] at zero
  exact here zero.2

theorem pagedCr0_paged (link : Link) (cr0 : UInt32) :
    link.Paged ⟨pagedCr0 cr0, Link.reloc link.entryPgdir⟩ where
  tables := rfl
  paging := pagedCr0_bit cr0 31 (by decide)
  protect := pagedCr0_bit cr0 16 (by decide)

theorem low_run {m : Machine} (holds : link.Holds m.mem) (unpaged : m.cr.cr0 &&& cr0PG = 0)
    (start : m.eip = Link.reloc link.entry) :
    Machine.run 8 m = .done { m with
      eax := link.relocated
      eip := link.relocated
      cr := ⟨pagedCr0 m.cr.cr0, Link.reloc link.entryPgdir⟩
      mem := warm m.mem } ∧ link.Holds (warm m.mem) := by
  obtain ⟨stored, warmed⟩ := warm_store holds unpaged
  have paged := pagedCr0_paged link m.cr.cr0
  let at_ (n : Nat) : UInt32 := Link.reloc link.entry + UInt32.ofNat (link.offset n)
  have step0 : m.step = .done { m with mem := warm m.mem, eip := at_ 1 } := by
    rw [(holds.visible_unpaged unpaged).step 0 rfl (start.trans (UInt32.add_zero _).symm)]
    have value : [(0x1234 : UInt16).toUInt8, ((0x1234 : UInt16) >>> 8).toUInt8] = [0x34, 0x12] := rfl
    rw [Machine.execute, value, stored]
    rfl
  let m1 : Machine := { m with mem := warm m.mem, eip := at_ 1 }
  let m2 : Machine := { m1 with eax := Link.reloc link.entryPgdir, eip := at_ 2 }
  let m3 : Machine := { m2 with cr := ⟨m.cr.cr0, Link.reloc link.entryPgdir⟩, eip := at_ 3 }
  let m4 : Machine := { m3 with eax := m.cr.cr0, eip := at_ 4 }
  let m5 : Machine := { m4 with eax := pagedCr0 m.cr.cr0, eip := at_ 5 }
  let m6 : Machine :=
    { m5 with cr := ⟨pagedCr0 m.cr.cr0, Link.reloc link.entryPgdir⟩, eip := at_ 6 }
  let m7 : Machine := { m6 with eax := link.relocated, eip := at_ 7 }
  have visible1 : link.Visible (Link.reloc link.entry) m1 := warmed.visible_unpaged unpaged
  have visible2 : link.Visible (Link.reloc link.entry) m2 := warmed.visible_unpaged unpaged
  have visible3 : link.Visible (Link.reloc link.entry) m3 := warmed.visible_unpaged unpaged
  have visible4 : link.Visible (Link.reloc link.entry) m4 := warmed.visible_unpaged unpaged
  have visible5 : link.Visible (Link.reloc link.entry) m5 := warmed.visible_unpaged unpaged
  -- paging is on from here
  have visible6 : link.Visible (Link.reloc link.entry) m6 := warmed.visible_low paged
  have visible7 : link.Visible (Link.reloc link.entry) m7 := warmed.visible_low paged
  have step1 : m1.step = .done m2 := visible1.step 1 rfl rfl
  have step2 : m2.step = .done m3 := visible2.step 2 rfl rfl
  have step3 : m3.step = .done m4 := visible3.step 3 rfl rfl
  have step4 : m4.step = .done m5 := visible4.step 4 rfl rfl
  have step5 : m5.step = .done m6 := visible5.step 5 rfl rfl
  have step6 : m6.step = .done m7 := visible6.step 6 rfl rfl
  have step7 : m7.step = .done { m7 with eip := link.relocated } := visible7.step 7 rfl rfl
  refine ⟨?_, warmed⟩
  simp only [Machine.run, step0, Outcome.done_bind]
  change Machine.run 7 m1 = _
  simp only [Machine.run, step1, step2, step3, step4, step5, step6, step7, Outcome.done_bind]
  rfl

def pushed (link : Link) (mem : Mem) : Mem :=
  mem.blit (Link.reloc (link.bootstacktop - 4)).toNat 4 fun i =>
    (Cpu.littleEndian link.spin).getD i 0

theorem Link.stack_clear (link : Link) (a : Nat)
    (low : link.bootstacktop.toNat - 0x8000 ≤ a + 0xF0000000)
    (high : a + 0xF0000000 < link.bootstacktop.toNat) : link.Clear a := by
  have code := Link.reloc_toNat link.entry_in.1
  have directory := Link.reloc_toNat link.pgdir_in.1
  have table := Link.reloc_toNat link.pgtable_in.1
  have code_in := link.entry_in
  have directory_in := link.pgdir_in
  have table_in := link.pgtable_in
  have code_apart := link.entry_apart
  have directory_apart := link.pgdir_apart
  have table_apart := link.pgtable_apart
  have top := link.stack_in
  unfold Link.Clear Link.Untabled
  omega

theorem push_store {m : Machine} (holds : link.Holds m.mem) (paged : link.Paged m.cr) :
    Machine.store (Cpu.littleEndian link.spin) (link.bootstacktop - 4) m =
        .done { m with mem := pushed link m.mem } ∧
      link.Holds (pushed link m.mem) := by
  have top := link.stack_in
  have kernel : kernbaseWord.toNat = 0xF0000000 := rfl
  have size : ptsize.toNat = 0x400000 := rfl
  have slot : (link.bootstacktop - 4).toNat = link.bootstacktop.toNat - 4 := by
    have four : (4 : UInt32).toNat = 4 := rfl
    rw [UInt32.toNat_sub, four]
    omega
  have base := Link.reloc_toNat (x := link.bootstacktop - 4) (by omega)
  have written : Bytewise.store (Machine.write m.cr) (Cpu.littleEndian link.spin)
      (link.bootstacktop - 4) m.mem = .done (pushed link m.mem) ∧
      link.Holds (pushed link m.mem) := by
    apply Bytewise.store_blit link.Holds (Cpu.littleEndian link.spin) _ _ m.mem holds
    intro i lt mem byte holds
    have small : i < 4 := lt
    have la : (link.bootstacktop - 4 + UInt32.ofNat i).toNat =
        link.bootstacktop.toNat - 4 + i := by
      rw [UInt32.toNat_add, UInt32.toNat_ofNat_of_lt' (by omega : i < 2 ^ 32), slot]
      omega
    have address : (link.bootstacktop - 4 + UInt32.ofNat i - kernbaseWord).toNat =
        (Link.reloc (link.bootstacktop - 4)).toNat + i := by
      rw [UInt32.toNat_sub, la, base, slot, kernel]
      omega
    have reached : translate mem m.cr (link.bootstacktop - 4 + UInt32.ofNat i) true =
        .done (link.bootstacktop - 4 + UInt32.ofNat i - kernbaseWord) := by
      rw [paged.translate holds, entryMap_done, UInt32.lt_iff_toNat_lt, address, size]
      refine ⟨by omega, .inl ?_⟩
      rw [UInt32.add_comm kernbaseWord, UInt32.sub_add_cancel]
    have clear := link.stack_clear ((Link.reloc (link.bootstacktop - 4)).toNat + i) (by omega)
      (by omega)
    rw [← address] at clear ⊢
    exact ⟨Machine.write_mapped reached (holds.maps _ (Nat.zero_le _) (UInt32.toNat_lt _)) byte,
      holds.set clear byte⟩
  exact ⟨Machine.store_done written.1, written.2⟩

theorem high_run {m : Machine} (holds : link.Holds m.mem) (paged : link.Paged m.cr)
    (start : m.eip = link.relocated) :
    Machine.run 3 m = .done { m with
      ebp := 0
      esp := link.bootstacktop - 4
      eip := link.i386Init
      mem := pushed link m.mem } ∧ link.Holds (pushed link m.mem) := by
  let at_ (n : Nat) : UInt32 := link.entry + UInt32.ofNat (link.offset n)
  let m1 : Machine := { m with ebp := 0, eip := at_ 9 }
  let m2 : Machine := { m1 with esp := link.bootstacktop, eip := at_ 10 }
  have visible0 : link.Visible link.entry m := holds.visible_high paged
  have visible1 : link.Visible link.entry m1 := Link.Holds.visible_high (m := m1) holds paged
  have visible2 : link.Visible link.entry m2 := Link.Holds.visible_high (m := m2) holds paged
  have step0 : m.step = .done m1 := visible0.step 8 rfl start
  have step1 : m1.step = .done m2 := visible1.step 9 rfl rfl
  obtain ⟨stored, kept⟩ := push_store (m := m2) holds paged
  have spin : at_ 11 = link.spin := rfl
  have target : link.spin + (link.i386Init - link.spin) = link.i386Init := by
    rw [UInt32.add_comm, UInt32.sub_add_cancel]
  have step2 : m2.step = .done { m with
      ebp := 0
      esp := link.bootstacktop - 4
      eip := link.i386Init
      mem := pushed link m.mem } := by
    rw [visible2.step 10 rfl rfl]
    change m2.execute (at_ 11) _ = _
    rw [spin, Machine.execute, stored, Outcome.done_bind, target]
    rfl
  refine ⟨?_, kept⟩
  simp only [Machine.run, step0, step1, step2, Outcome.done_bind]
  rfl

theorem Machine.run_add (first second : Nat) (m : Machine) :
    run (first + second) m = run first m >>= run second := by
  induction first generalizing m with
  | zero => rw [Nat.zero_add]; rfl
  | succ first ih =>
    rw [Nat.succ_add, run, run, Outcome.bind_assoc]
    congr 1
    funext m
    exact ih m

theorem entry_run {m : Machine} (holds : link.Holds m.mem) (unpaged : m.cr.cr0 &&& cr0PG = 0)
    (start : m.eip = Link.reloc link.entry) :
    Machine.run 11 m = .done {
      eax := link.relocated
      ebp := 0
      esp := link.bootstacktop - 4
      eip := link.i386Init
      cr := ⟨pagedCr0 m.cr.cr0, Link.reloc link.entryPgdir⟩
      mem := pushed link (warm m.mem) } ∧ link.Holds (pushed link (warm m.mem)) := by
  obtain ⟨low, warmed⟩ := low_run holds unpaged start
  let middle : Machine := { m with
    eax := link.relocated
    eip := link.relocated
    cr := ⟨pagedCr0 m.cr.cr0, Link.reloc link.entryPgdir⟩
    mem := warm m.mem }
  obtain ⟨high, kept⟩ := high_run (m := middle) warmed (pagedCr0_paged link _) rfl
  refine ⟨?_, kept⟩
  rw [Machine.run_add 8 3, low, Outcome.done_bind]
  exact high

end JosLab.Entry
