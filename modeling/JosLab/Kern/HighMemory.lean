import JosLab.Boot.Handover
import JosLab.Shared.Accesses

set_option autoImplicit false

namespace JosLab.Entry

open Mmu

def high (mem : Mem) : Mem where
  mapped a := decide (0xF0000000 ≤ a ∧ a < 0xF0400000)
  value a := if 0xF0000000 ≤ a ∧ a < 0xF0400000 then mem.value (a - 0xF0000000) else 0

def Machine.port (m : Machine) : Accesses.Port Trap Mem UInt32 UInt8 where
  load mem la := { m with mem }.read la
  store := Machine.write m.cr

instance Link.untabledDecidable (link : Link) (a : Nat) : Decidable (link.Untabled a) :=
  inferInstanceAs (Decidable (_ ∧ _))

instance Link.clearDecidable (link : Link) (a : Nat) : Decidable (link.Clear a) :=
  inferInstanceAs (Decidable (_ ∧ _))

def Link.port (link : Link) : Accesses.Port Fault Mem UInt32 UInt8 where
  load mem la :=
    if link.Untabled (Link.reloc la).toNat then mem.load .load la.toNat
    else .fault (.load la.toNat)
  store la byte mem :=
    if link.Clear (Link.reloc la).toNat then mem.store .store la.toNat byte
    else .fault (.store la.toNat)

structure Link.Shows (link : Link) (mem view : Mem) : Prop where
  mapped : ∀ a, view.mapped a = (high mem).mapped a
  value : ∀ pa < 0x400000, link.Untabled pa → view.value (0xF0000000 + pa) = mem.value pa

variable {link : Link} {m : Machine}

theorem high_value (mem : Mem) {pa : Nat} (lt : pa < 0x400000) :
    (high mem).value (0xF0000000 + pa) = mem.value pa := by
  have inside : 0xF0000000 ≤ 0xF0000000 + pa ∧ 0xF0000000 + pa < 0xF0400000 := by omega
  simp only [high, if_pos inside, Nat.add_sub_cancel_left]

theorem Link.shows_high (link : Link) (mem : Mem) : link.Shows mem (high mem) where
  mapped _ := rfl
  value _ lt _ := high_value mem lt

theorem Link.Shows.set {mem view : Mem} (shows : link.Shows mem view) (pa : Nat) (byte : UInt8) :
    link.Shows (mem.set pa byte) (view.set (0xF0000000 + pa) byte) where
  mapped := shows.mapped
  value k k_lt untabled := by
    rw [Memory.set_value, Memory.set_value]
    simp only [Nat.add_left_cancel_iff]
    split
    next => rfl
    next => exact shows.value k k_lt untabled

theorem high_mapped {mem : Mem} {la : UInt32} (mapped : (high mem).mapped la.toNat = true) :
    (Link.reloc la).toNat < 0x400000 ∧ la.toNat = 0xF0000000 + (Link.reloc la).toNat ∧
      ∀ write, entryMap la write = .done (Link.reloc la) := by
  have inside : 0xF0000000 ≤ la.toNat ∧ la.toNat < 0xF0400000 := of_decide_eq_true mapped
  have base : kernbaseWord.toNat = 0xF0000000 := rfl
  have size : ptsize.toNat = 0x400000 := rfl
  have place : (Link.reloc la).toNat = la.toNat - 0xF0000000 := by
    rw [Link.reloc, UInt32.toNat_sub_of_le _ _ (UInt32.le_iff_toNat_le.2 (by omega)), base]
  refine ⟨by omega, by omega, fun write => ?_⟩
  rw [entryMap_done, UInt32.lt_iff_toNat_lt, size, Link.reloc, UInt32.add_comm kernbaseWord,
    UInt32.sub_add_cancel]
  exact ⟨by rw [← Link.reloc]; omega, .inl rfl⟩

theorem port_refines (link : Link) (m : Machine) (paged : link.Paged m.cr) :
    Accesses.Refines (fun view mem => link.Holds mem ∧ link.Shows mem view) link.port m.port where
  load view mem la byte related loaded := by
    obtain ⟨holds, shows⟩ := related
    by_cases allowed : link.Untabled (Link.reloc la).toNat ∧ view.mapped la.toNat = true
    next =>
      obtain ⟨lt, address, reached⟩ := high_mapped ((shows.mapped _).symm.trans allowed.2)
      have value : view.value la.toNat = byte := by
        have found : (.done (view.value la.toNat) : Outcome Fault UInt8) = .done byte := by
          rw [← loaded, Link.port]
          simp only [if_pos allowed.1]
          exact (Memory.load_mapped Fault.load view la.toNat allowed.2).symm
        exact Outcome.done.inj found
      have translated : translate mem m.cr la false = .done (Link.reloc la) := by
        rw [paged.translate holds, reached]
      rw [address, shows.value _ lt allowed.1] at value
      rw [← value]
      exact Machine.read_mapped (m := { m with mem }) translated
        (holds.maps _ (Nat.zero_le _) (UInt32.toNat_lt _))
    next =>
      exfalso
      by_cases untabled : link.Untabled (Link.reloc la).toNat
      next =>
        have unmapped : view.mapped la.toNat = false := by simpa [untabled] using allowed
        simp [Link.port, Memory.load, untabled, unmapped] at loaded
      next => simp [Link.port, untabled] at loaded
  store view mem next la byte related stored := by
    obtain ⟨holds, shows⟩ := related
    by_cases allowed : link.Clear (Link.reloc la).toNat ∧ view.mapped la.toNat = true
    next =>
      obtain ⟨lt, address, reached⟩ := high_mapped ((shows.mapped _).symm.trans allowed.2)
      have written : next = view.set la.toNat byte := by
        simpa [Link.port, Memory.store, allowed] using stored.symm
      have translated : translate mem m.cr la true = .done (Link.reloc la) := by
        rw [paged.translate holds, reached]
      refine ⟨_, Machine.write_mapped translated
        (holds.maps _ (Nat.zero_le _) (UInt32.toNat_lt _)) byte, holds.set allowed.1 byte, ?_⟩
      rw [written, address]
      exact shows.set _ byte
    next =>
      exfalso
      by_cases clear : link.Clear (Link.reloc la).toNat
      next =>
        have unmapped : view.mapped la.toNat = false := by simpa [clear] using allowed
        simp [Link.port, Memory.store, clear, unmapped] at stored
      next => simp [Link.port, clear] at stored

theorem high_memory_refines {ρ : Type} (program : Accesses UInt32 UInt8 ρ) (holds : link.Holds m.mem)
    (paged : link.Paged m.cr) {result : ρ} {view : Mem}
    (ran : program.run link.port (high m.mem) = .done (result, view)) :
    ∃ mem, program.run m.port m.mem = .done (result, mem) ∧ link.Holds mem ∧ link.Shows mem view :=
  (port_refines link m paged).run program ⟨holds, link.shows_high m.mem⟩ ran

def smallMem : Mem where
  mapped _ := true
  value a := if 0x100000 ≤ a then Boot.smallImage (a - 0xFF000) else 0

theorem smallMem_holds : Boot.smallLink.Holds smallMem := by
  apply Boot.smallDisk_carries.holds (fun _ _ _ => rfl)
  rw [Boot.Loaded, Boot.smallDisk_segments, Boot.smallDisk_kernel]
  intro segment member i lt
  cases List.mem_singleton.1 member
  have start : (0x100000 : UInt32).toNat = 0x100000 := rfl
  have offset : (0x1000 : UInt32).toNat = 0x1000 := rfl
  have place : 0x100000 + i - 0xFF000 = 0x1000 + i := by omega
  rw [start, offset, smallMem]
  simp only [if_pos (Nat.le_add_right _ _), place]

def smallPaged : Machine := ⟨0, 0, 0, 0, ⟨cr0PG ||| cr0WP, 0x101000⟩, smallMem⟩

def countUp : Accesses UInt32 UInt8 UInt8 :=
  .load 0xF00B8000 fun byte => .store 0xF00B8000 (byte + 1) (.ret byte)

theorem countUp_runs : countUp.run Boot.smallLink.port (high smallMem) =
    .done (0, (high smallMem).set 0xF00B8000 1) := by
  have mapped : (high smallMem).mapped (0xF00B8000 : UInt32).toNat = true := by decide
  have clear : Boot.smallLink.Clear (Link.reloc 0xF00B8000).toNat := by decide
  have untabled : Boot.smallLink.Untabled (Link.reloc 0xF00B8000).toNat := clear.2
  have blank : (high smallMem).value (0xF00B8000 : UInt32).toNat = 0 := by decide +kernel
  have loaded : Boot.smallLink.port.load (high smallMem) 0xF00B8000 = .done 0 := by
    rw [← blank]
    simp only [Link.port, if_pos untabled]
    exact Memory.load_mapped Fault.load _ _ mapped
  have stored : Boot.smallLink.port.store 0xF00B8000 (0 + 1) (high smallMem) =
      .done ((high smallMem).set 0xF00B8000 1) := by
    simp only [Link.port, if_pos clear]
    exact Memory.store_mapped Fault.store _ _ _ mapped
  rw [countUp, Accesses.run, loaded, Outcome.done_bind, Accesses.run, stored]
  rfl

theorem countUp_refines :
    ∃ mem, countUp.run smallPaged.port smallMem = .done (0, mem) ∧ Boot.smallLink.Holds mem ∧
      Boot.smallLink.Shows mem ((high smallMem).set 0xF00B8000 1) :=
  high_memory_refines (m := smallPaged) countUp smallMem_holds ⟨rfl, by decide, by decide⟩ countUp_runs

end JosLab.Entry
