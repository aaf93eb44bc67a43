import JosLab.Inc.Elf
import JosLab.Shared.Simulation

set_option autoImplicit false

namespace JosLab.Mmu

def pdx (la : UInt32) : UInt32 := (la >>> 22) &&& 0x3FF

def ptx (la : UInt32) : UInt32 := (la >>> 12) &&& 0x3FF

def pgoff (la : UInt32) : UInt32 := la &&& 0xFFF

def pteAddr (pte : UInt32) : UInt32 := pte &&& ~~~0xFFF

def pteP : UInt32 := 0x001
def pteW : UInt32 := 0x002

-- Accessed, Dirty: the processor sets these by itself
def pteA : UInt32 := 0x020
def pteD : UInt32 := 0x040

def kernbaseWord : UInt32 := 0xF0000000

def cr0PE : UInt32 := 0x00000001
def cr0WP : UInt32 := 0x00010000
def cr0PG : UInt32 := 0x80000000

def fecPR : UInt32 := 0x1
def fecWR : UInt32 := 0x2

theorem and_low (a : UInt32) (k : Nat) (small : 2 ^ k - 1 < 2 ^ 32) :
    (a &&& UInt32.ofNat (2 ^ k - 1)).toNat = a.toNat % 2 ^ k := by
  rw [UInt32.toNat_and, UInt32.toNat_ofNat_of_lt' small]
  exact Nat.and_two_pow_sub_one_eq_mod _ k

theorem and_bit (a : UInt32) (k : Nat) (lt : k < 32) :
    a &&& UInt32.ofNat (2 ^ k) = 0 ↔ a.toNat / 2 ^ k % 2 = 0 := by
  have small : 2 ^ k < 2 ^ 32 := Nat.pow_lt_pow_right (by decide) lt
  rw [← UInt32.toNat_inj, UInt32.toNat_and, UInt32.toNat_ofNat_of_lt' small, Nat.and_two_pow,
    Nat.testBit_eq_decide_div_mod_eq, UInt32.toNat_zero]
  have power : 0 < 2 ^ k := Nat.two_pow_pos k
  by_cases set : a.toNat / 2 ^ k % 2 = 1
  next => simp [set]
  next =>
    simp [set]
    omega

theorem pdx_toNat (la : UInt32) : (pdx la).toNat = la.toNat / 2 ^ 22 := by
  have below := la.toNat_lt
  have masked := and_low (la >>> 22) 10 (by decide)
  have shifted : (la >>> 22).toNat = la.toNat / 2 ^ 22 := by simp [Nat.shiftRight_eq_div_pow]
  rw [shifted] at masked
  refine masked.trans (Nat.mod_eq_of_lt ?_)
  omega

theorem ptx_toNat (la : UInt32) : (ptx la).toNat = la.toNat / 2 ^ 12 % 2 ^ 10 := by
  have masked := and_low (la >>> 12) 10 (by decide)
  have shifted : (la >>> 12).toNat = la.toNat / 2 ^ 12 := by simp [Nat.shiftRight_eq_div_pow]
  rw [shifted] at masked
  exact masked

theorem pgoff_toNat (la : UInt32) : (pgoff la).toNat = la.toNat % 2 ^ 12 :=
  and_low la 12 (by decide)

theorem pteAddr_toNat (pte : UInt32) : (pteAddr pte).toNat = pte.toNat / 2 ^ 12 * 2 ^ 12 := by
  have bits : ∀ i < 32, (~~~0xFFF#32).getLsbD i = decide (12 ≤ i) := by decide
  have shifted : pteAddr pte = (pte >>> 12) <<< 12 := by
    apply UInt32.toBitVec_inj.1
    ext i lt
    have bit := bits i lt
    simp [pteAddr] at bit ⊢
    grind
  have below := pte.toNat_lt
  rw [shifted]
  simp [Nat.shiftRight_eq_div_pow, Nat.shiftLeft_eq]
  omega

def Marked (written pte : UInt32) : Prop := pte ||| (pteA ||| pteD) = written ||| (pteA ||| pteD)

theorem Marked.refl (written : UInt32) : Marked written written := rfl

theorem Marked.and {written pte : UInt32} (marked : Marked written pte) (mask : UInt32)
    (other : (pteA ||| pteD) &&& mask = 0) : pte &&& mask = written &&& mask := by
  have distribute (a : UInt32) : (a ||| (pteA ||| pteD)) &&& mask = a &&& mask := by
    have split : (a ||| (pteA ||| pteD)) &&& mask =
        (a &&& mask) ||| ((pteA ||| pteD) &&& mask) :=
      UInt32.toBitVec_inj.1 BitVec.and_or_distrib_right
    rw [split, other, UInt32.or_zero]
  calc pte &&& mask = (pte ||| (pteA ||| pteD)) &&& mask := (distribute pte).symm
    _ = (written ||| (pteA ||| pteD)) &&& mask := by rw [marked]
    _ = written &&& mask := distribute written

inductive Trap where
  | pageFault (la code : UInt32)
  | memory (error : Fault)
  | undefined (la : UInt32)
  deriving DecidableEq, Repr

structure ControlRegisters where
  cr0 : UInt32
  cr3 : UInt32
  deriving DecidableEq, Repr

def entry (mem : Mem) (table index : UInt32) : Outcome Trap UInt32 :=
  (loadWord mem (table + 4 * index) 4).withFault .memory

def errorCode (present write : Bool) : UInt32 :=
  (if present then fecPR else 0) ||| (if write then fecWR else 0)

def walk (mem : Mem) (cr : ControlRegisters) (la : UInt32) (write : Bool) : Outcome Trap UInt32 := do
  let pde ← entry mem (pteAddr cr.cr3) (pdx la)
  if pde &&& pteP = 0 then .fault (.pageFault la (errorCode false write))
  else
    let pte ← entry mem (pteAddr pde) (ptx la)
    if pte &&& pteP = 0 then .fault (.pageFault la (errorCode false write))
    else if write ∧ cr.cr0 &&& cr0WP ≠ 0 ∧ (pde &&& pteW = 0 ∨ pte &&& pteW = 0) then
      .fault (.pageFault la (errorCode true write))
    else return pteAddr pte ||| pgoff la

def translate (mem : Mem) (cr : ControlRegisters) (la : UInt32) (write : Bool) :
    Outcome Trap UInt32 :=
  if cr.cr0 &&& cr0PG = 0 then return la else walk mem cr la write

end JosLab.Mmu
