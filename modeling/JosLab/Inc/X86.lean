import JosLab.Inc.Fault
import JosLab.Shared.Memory

set_option autoImplicit false

namespace JosLab

abbrev Mem := Memory Nat UInt8

def wrap (address : Nat) : Nat := address % 2 ^ 32

theorem wrap_of_lt (address : Nat) (lt : address < 2 ^ 32) : wrap address = address :=
  Nat.mod_eq_of_lt lt

theorem wrap_lt (address : Nat) : wrap address < 2 ^ 32 := Nat.mod_lt _ (by decide)

theorem wrap_add_size (address : Nat) (lt : address < 2 ^ 32) : wrap (address + 2 ^ 32) = address := by
  rw [wrap, Nat.add_mod_right, Nat.mod_eq_of_lt lt]

theorem byte_toNat (x : Int) (nonneg : 0 ≤ x) (le : x ≤ 255) : (UInt8.ofInt x).toNat = x.toNat := by
  rw [UInt8.ofInt, UInt8.toNat_ofNat', Int.emod_eq_of_lt nonneg (by omega)]
  exact Nat.mod_eq_of_lt (by omega)

theorem ofInt_toNat {x : Int} (nonneg : 0 ≤ x) (le : x ≤ 255) : ((UInt8.ofInt x).toNat : Int) = x := by
  rw [byte_toNat x nonneg le]
  omega

theorem ofInt_nonzero {x : Int} (positive : 1 ≤ x) (le : x ≤ 255) : UInt8.ofInt x ≠ 0 := by
  intro zero
  have value := ofInt_toNat (by omega) le
  rw [zero, UInt8.toNat_zero] at value
  omega

theorem toNat_ofInt (byte : UInt8) : UInt8.ofInt byte.toNat = byte := by
  have below := byte.toNat_lt
  rw [← UInt8.toNat_inj, byte_toNat _ (by omega) (by omega), Int.toNat_natCast]

def loadBytes (mem : Mem) (address : Nat) : Nat → Outcome Fault (List UInt8)
  | 0 => return []
  | count + 1 => do
      let byte ← mem.load .load address
      let rest ← loadBytes mem (wrap (address + 1)) count
      return byte :: rest

def storeBytes (mem : Mem) (address : Nat) : List UInt8 → Outcome Fault Mem
  | [] => return mem
  | byte :: rest => do
      let mem ← mem.store .store address byte
      storeBytes mem (wrap (address + 1)) rest

-- `movsb` (one byte) or `movsl` (four): the whole unit is read before any of it is written.
def movs (unit : Nat) (mem : Mem) (edi esi : Nat) : Outcome Fault Mem := do
  storeBytes mem edi (← loadBytes mem esi unit)

def advance (df : Bool) (unit address : Nat) : Nat :=
  if df then wrap (address + 2 ^ 32 - unit) else wrap (address + unit)

def repMovs (df : Bool) (unit : Nat) : Nat → Nat → Nat → Mem → Outcome Fault Mem
  | 0, _, _, mem => return mem
  | ecx + 1, edi, esi, mem => do
      let mem ← movs unit mem edi esi
      repMovs df unit ecx (advance df unit edi) (advance df unit esi) mem

def repStos (df : Bool) (bytes : List UInt8) : Nat → Nat → Mem → Outcome Fault Mem
  | 0, _, mem => return mem
  | ecx + 1, edi, mem => do
      let mem ← storeBytes mem edi bytes
      repStos df bytes ecx (advance df bytes.length edi) mem

structure Cpu where
  mem : Mem
  df : Bool

namespace Cpu

def cld (cpu : Cpu) : Cpu := { cpu with df := false }

def std (cpu : Cpu) : Cpu := { cpu with df := true }

def repMovs (unit edi esi ecx : Nat) (cpu : Cpu) : Outcome Fault Cpu := do
  return { cpu with mem := ← JosLab.repMovs cpu.df unit ecx edi esi cpu.mem }

def repStosb (edi : Nat) (eax : UInt32) (ecx : Nat) (cpu : Cpu) : Outcome Fault Cpu := do
  return { cpu with mem := ← repStos cpu.df [eax.toUInt8] ecx edi cpu.mem }

def littleEndian (eax : UInt32) : List UInt8 :=
  [eax.toUInt8, (eax >>> 8).toUInt8, (eax >>> 16).toUInt8, (eax >>> 24).toUInt8]

def repStosl (edi : Nat) (eax : UInt32) (ecx : Nat) (cpu : Cpu) : Outcome Fault Cpu := do
  return { cpu with mem := ← repStos cpu.df (littleEndian eax) ecx edi cpu.mem }

end Cpu

theorem loadBytes_mapped (mem : Mem) (address count : Nat) (bound : address + count ≤ 2 ^ 32)
    (maps : mem.Maps address (address + count)) :
    loadBytes mem address count =
      .done ((List.range count).map fun i => mem.value (address + i)) := by
  induction count generalizing address with
  | zero => rfl
  | succ count ih =>
    have rest : loadBytes mem (wrap (address + 1)) count =
        .done ((List.range count).map fun i => mem.value (address + 1 + i)) := by
      cases count with
      | zero => rfl
      | succ count =>
        rw [wrap_of_lt _ (by omega)]
        exact ih (address + 1) (by omega) (maps.narrow (by omega) (by omega))
    rw [loadBytes, Memory.load_mapped _ _ _ (maps address le_rfl (by omega)), rest]
    simp only [Outcome.done_bind, Outcome.pure_eq, List.range_succ_eq_map, List.map_cons,
      List.map_map, Nat.add_zero]
    congr 2
    apply List.map_congr_left
    intro i _
    simp only [Function.comp_apply, Nat.add_assoc, Nat.add_comm 1 i]

theorem loadBytes_congr {mem mem' : Mem} (address count : Nat) (lt : address < 2 ^ 32)
    (same : ∀ i < count, mem'.mapped (wrap (address + i)) = mem.mapped (wrap (address + i)) ∧
      mem'.value (wrap (address + i)) = mem.value (wrap (address + i))) :
    loadBytes mem' address count = loadBytes mem address count := by
  induction count generalizing address with
  | zero => rfl
  | succ count ih =>
    have first := same 0 (by omega)
    rw [Nat.add_zero, wrap_of_lt address lt] at first
    have rest := ih (wrap (address + 1)) (wrap_lt _) fun i i_lt => by
      have next : wrap (wrap (address + 1) + i) = wrap (address + (i + 1)) := by
        rw [wrap, wrap, Nat.mod_add_mod, wrap, Nat.add_assoc, Nat.add_comm 1 i]
      rw [next]
      exact same (i + 1) (by omega)
    simp only [loadBytes, Memory.load, first.1, first.2, rest]

theorem storeBytes_mapped (mem : Mem) (address : Nat) (cell : Nat → UInt8) (count : Nat)
    (bound : address + count ≤ 2 ^ 32) (maps : mem.Maps address (address + count)) :
    storeBytes mem address ((List.range count).map cell) =
      .done (mem.blit address count cell) := by
  induction count generalizing address mem cell with
  | zero => rw [Memory.blit_zero]; rfl
  | succ count ih =>
    simp only [List.range_succ_eq_map, List.map_cons, List.map_map]
    rw [storeBytes, Memory.store_mapped _ _ _ _ (maps address le_rfl (by omega)),
      Outcome.done_bind, Memory.set_eq_blit]
    have split := Memory.blit_blit mem address 1 count cell
    have shift : (cell ∘ Nat.succ) = fun i => cell (1 + i) := by
      funext i
      rw [Function.comp_apply, Nat.add_comm 1 i]
    rw [shift, Nat.add_comm count 1, ← split]
    cases count with
    | zero => rw [Memory.blit_zero]; rfl
    | succ count =>
      rw [wrap_of_lt _ (by omega)]
      exact ih (mem.blit address 1 cell) (address + 1) (fun i => cell (1 + i)) (by omega)
        ((Memory.blit_maps ..).2 (maps.narrow (by omega) (by omega)))

theorem movs_mapped (unit : Nat) (mem : Mem) (edi esi : Nat) (edi_bound : edi + unit ≤ 2 ^ 32)
    (esi_bound : esi + unit ≤ 2 ^ 32) (edi_maps : mem.Maps edi (edi + unit))
    (esi_maps : mem.Maps esi (esi + unit)) :
    movs unit mem edi esi = .done (mem.blit edi unit fun i => mem.value (esi + i)) := by
  rw [movs, loadBytes_mapped mem esi unit esi_bound esi_maps, Outcome.done_bind,
    storeBytes_mapped mem edi _ unit edi_bound edi_maps]

theorem repMovs_forward (unit : Nat) (ecx edi esi : Nat) (mem : Mem) (some : 0 < unit)
    (apart : edi ≤ esi ∨ esi + unit * ecx ≤ edi) (edi_bound : edi + unit * ecx ≤ 2 ^ 32)
    (esi_bound : esi + unit * ecx ≤ 2 ^ 32) (edi_maps : mem.Maps edi (edi + unit * ecx))
    (esi_maps : mem.Maps esi (esi + unit * ecx)) :
    repMovs false unit ecx edi esi mem =
      .done (mem.blit edi (unit * ecx) fun i => mem.value (esi + i)) := by
  induction ecx generalizing edi esi mem with
  | zero => rw [Nat.mul_zero, Memory.blit_zero]; rfl
  | succ ecx ih =>
    have size : unit * (ecx + 1) = unit + unit * ecx := by
      rw [Nat.mul_add, Nat.mul_one, Nat.add_comm]
    rw [size] at apart edi_bound esi_bound edi_maps esi_maps ⊢
    rw [repMovs, movs_mapped unit mem edi esi (by omega) (by omega)
      (edi_maps.narrow (by omega) (by omega)) (esi_maps.narrow (by omega) (by omega)),
      Outcome.done_bind, ← Memory.blit_blit]
    cases ecx with
    | zero => rw [Nat.mul_zero, Memory.blit_zero]; rfl
    | succ ecx =>
      have more : 0 < unit * (ecx + 1) := Nat.mul_pos some (by omega)
      simp only [advance, Bool.false_eq_true, if_false]
      rw [wrap_of_lt _ (by omega), wrap_of_lt _ (by omega), ih (edi + unit) (esi + unit) _ (by omega)
        (by omega) (by omega) ((Memory.blit_maps ..).2 (edi_maps.narrow (by omega) (by omega)))
        ((Memory.blit_maps ..).2 (esi_maps.narrow (by omega) (by omega)))]
      have unread : ∀ i < unit * (ecx + 1),
          (mem.blit edi unit fun i => mem.value (esi + i)).value (esi + unit + i) =
            mem.value (esi + (unit + i)) := by
        intro i lt
        rw [Memory.blit_outside _ _ _ _ _ (by omega), Nat.add_assoc]
      rw [Memory.blit_congr _ _ _ _ _ unread]

theorem repMovs_backward (unit ecx edi esi : Nat) (mem : Mem) (some : 0 < unit) (above : esi ≤ edi)
    (bound : edi + unit * (ecx + 1) ≤ 2 ^ 32) (edi_maps : mem.Maps edi (edi + unit * (ecx + 1)))
    (esi_maps : mem.Maps esi (esi + unit * (ecx + 1))) :
    repMovs true unit (ecx + 1) (edi + unit * ecx) (esi + unit * ecx) mem =
      .done (mem.blit edi (unit * (ecx + 1)) fun i => mem.value (esi + i)) := by
  induction ecx generalizing mem with
  | zero =>
    simp only [Nat.mul_zero, Nat.add_zero, Nat.zero_add, Nat.mul_one] at bound edi_maps esi_maps ⊢
    rw [repMovs, movs_mapped unit mem edi esi bound (by omega) edi_maps esi_maps]
    rfl
  | succ ecx ih =>
    have size : unit * (ecx + 1 + 1) = unit * (ecx + 1) + unit := Nat.mul_succ ..
    have less : unit * (ecx + 1) = unit * ecx + unit := Nat.mul_succ ..
    have back (address : Nat) (fits : address + unit * (ecx + 1) ≤ 2 ^ 32) :
        advance true unit (address + unit * (ecx + 1)) = address + unit * ecx := by
      have step : address + unit * (ecx + 1) + 2 ^ 32 - unit = address + unit * ecx + 2 ^ 32 := by
        omega
      rw [advance, if_pos rfl, step, wrap_add_size _ (by omega)]
    rw [size] at bound edi_maps esi_maps ⊢
    rw [repMovs, movs_mapped unit mem (edi + unit * (ecx + 1)) (esi + unit * (ecx + 1)) (by omega)
      (by omega) (edi_maps.narrow (by omega) (by omega)) (esi_maps.narrow (by omega) (by omega)),
      Outcome.done_bind, back edi (by omega), back esi (by omega),
      ih _ (by omega) ((Memory.blit_maps ..).2 (edi_maps.narrow le_rfl (by omega)))
        ((Memory.blit_maps ..).2 (esi_maps.narrow le_rfl (by omega))), ← Memory.blit_blit_below]
    have unread : ∀ i < unit * (ecx + 1),
        (mem.blit (edi + unit * (ecx + 1)) unit
          fun i => mem.value (esi + unit * (ecx + 1) + i)).value (esi + i) =
            mem.value (esi + i) :=
      fun i lt => Memory.blit_outside _ _ _ _ _ (by omega)
    rw [Memory.blit_congr _ _ _ _ _ unread]
    simp only [Nat.add_assoc]

theorem repStos_forward (unit ecx edi : Nat) (c : UInt8) (mem : Mem) (some : 0 < unit)
    (bound : edi + unit * ecx ≤ 2 ^ 32) (maps : mem.Maps edi (edi + unit * ecx)) :
    repStos false (List.replicate unit c) ecx edi mem =
      .done (mem.blit edi (unit * ecx) fun _ => c) := by
  induction ecx generalizing edi mem with
  | zero => rw [Nat.mul_zero, Memory.blit_zero]; rfl
  | succ ecx ih =>
    have size : unit * (ecx + 1) = unit + unit * ecx := by
      rw [Nat.mul_succ, Nat.add_comm]
    have bytes : List.replicate unit c = (List.range unit).map fun _ => c := by simp
    rw [size] at bound maps ⊢
    rw [repStos, bytes, storeBytes_mapped mem edi _ unit (by omega) (maps.narrow le_rfl (by omega)),
      Outcome.done_bind, ← bytes, List.length_replicate, ← Memory.blit_blit]
    cases ecx with
    | zero => rw [Nat.mul_zero, Memory.blit_zero]; rfl
    | succ ecx =>
      have more : 0 < unit * (ecx + 1) := Nat.mul_pos some (by omega)
      rw [advance, if_neg Bool.false_ne_true, wrap_of_lt _ (by omega)]
      exact ih (edi + unit) _ (by omega) ((Memory.blit_maps ..).2 (maps.narrow (by omega) (by omega)))

end JosLab
