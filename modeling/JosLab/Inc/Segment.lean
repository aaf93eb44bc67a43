import JosLab.Inc.Mmu
import Mathlib.Tactic.IntervalCases

set_option autoImplicit false

namespace JosLab.Mmu

structure Segdesc where
  lim15_0 : BitVec 16
  base15_0 : BitVec 16
  base23_16 : BitVec 8
  type : BitVec 4
  s : BitVec 1
  dpl : BitVec 2
  p : BitVec 1
  lim19_16 : BitVec 4
  avl : BitVec 1
  rsv1 : BitVec 1
  db : BitVec 1
  g : BitVec 1
  base31_24 : BitVec 8
  deriving DecidableEq, Repr

-- SEG(type, base, lim, dpl), as C has it: what an initializer is too wide for is cut off
def seg (type base lim dpl : UInt32) : Segdesc where
  lim15_0 := ((lim >>> 12) &&& 0xffff).toBitVec.setWidth 16
  base15_0 := (base &&& 0xffff).toBitVec.setWidth 16
  base23_16 := ((base >>> 16) &&& 0xff).toBitVec.setWidth 8
  type := type.toBitVec.setWidth 4
  s := 1
  dpl := dpl.toBitVec.setWidth 2
  p := 1
  lim19_16 := (lim >>> 28).toBitVec.setWidth 4
  avl := 0
  rsv1 := 0
  db := 1
  g := 1
  base31_24 := (base >>> 24).toBitVec.setWidth 8

def halfword (value : UInt32) : List UInt8 := [value.toUInt8, (value >>> 8).toUInt8]

-- SEG(type,base,lim), as the assembler has it
def segBytes (type base lim : UInt32) : List UInt8 :=
  halfword ((lim >>> 12) &&& 0xffff) ++ (halfword (base &&& 0xffff) ++
    [((base >>> 16) &&& 0xff).toUInt8, ((0x90 : UInt32) ||| type).toUInt8,
      ((0xC0 : UInt32) ||| ((lim >>> 28) &&& 0xf)).toUInt8, ((base >>> 24) &&& 0xff).toUInt8])

def segNull : List UInt8 := [0, 0, 0, 0, 0, 0, 0, 0]

namespace Segdesc

def bytes (d : Segdesc) : List UInt8 :=
  [⟨d.lim15_0.setWidth 8⟩, ⟨(d.lim15_0 >>> 8).setWidth 8⟩,
    ⟨d.base15_0.setWidth 8⟩, ⟨(d.base15_0 >>> 8).setWidth 8⟩, ⟨d.base23_16⟩,
    ⟨d.type.setWidth 8 ||| d.s.setWidth 8 <<< 4 ||| d.dpl.setWidth 8 <<< 5 |||
      d.p.setWidth 8 <<< 7⟩,
    ⟨d.lim19_16.setWidth 8 ||| d.avl.setWidth 8 <<< 4 ||| d.rsv1.setWidth 8 <<< 5 |||
      d.db.setWidth 8 <<< 6 ||| d.g.setWidth 8 <<< 7⟩,
    ⟨d.base31_24⟩]

end Segdesc

structure Descriptor where
  base : UInt32
  limit : UInt32
  type : UInt8
  s : Bool
  dpl : UInt8
  p : Bool
  db : Bool
  deriving DecidableEq, Repr

def Descriptor.ofBytes (bytes : List UInt8) : Descriptor :=
  let byte (i : Nat) : UInt8 := bytes.getD i 0
  let limit := word [byte 0, byte 1, byte 6 &&& 0x0F, 0]
  { base := word [byte 2, byte 3, byte 4, byte 7]
    -- in units of 4K when the granularity bit is set
    limit := if byte 6 &&& 0x80 = 0 then limit else limit <<< 12 ||| 0xFFF
    type := byte 5 &&& 0x0F
    s := byte 5 &&& 0x10 ≠ 0
    dpl := (byte 5 >>> 5) &&& 0x3
    p := byte 5 &&& 0x80 ≠ 0
    db := byte 6 &&& 0x40 ≠ 0 }

theorem bit_of_lt {field : UInt32} {n : Nat} (small : field.toNat < 2 ^ n) (k : Nat) (ge : n ≤ k)
    (lt : k < 32) : field.toBitVec[k] = false := by
  rw [← BitVec.getLsbD_eq_getElem lt]
  exact Nat.testBit_lt_two_pow (Nat.lt_of_lt_of_le small (Nat.pow_le_pow_right (by decide) ge))

theorem byte_ones : ∀ (i : Nat) (lt : i < 8), (255#8)[i] = true := by decide

theorem half_ones : ∀ i < 8, (65535#16).getLsbD (8 + i) = true := by decide

theorem seg_bytes (type base lim dpl : UInt32) (type_lt : type.toNat < 2 ^ 4)
    (dpl_lt : dpl.toNat < 2 ^ 2) :
    (seg type base lim dpl).bytes =
      [(lim >>> 12).toUInt8, (lim >>> 20).toUInt8, base.toUInt8, (base >>> 8).toUInt8,
        (base >>> 16).toUInt8, ((0x90 : UInt32) ||| type ||| dpl <<< 5).toUInt8,
        ((0xC0 : UInt32) ||| lim >>> 28).toUInt8, (base >>> 24).toUInt8] := by
  have type_bit := bit_of_lt type_lt
  have dpl_bit := bit_of_lt dpl_lt
  simp only [Segdesc.bytes, List.cons.injEq, and_true, ← UInt8.toBitVec_inj]
  refine ⟨?_, ?_, ?_, ?_, ?_, ?_, ?_, ?_⟩ <;> ext i lt
  · simp [seg, byte_ones]
  · have inside : 8 + i < 16 := by omega
    have bit : 12 + (8 + i) = 20 + i := by omega
    simp [seg, half_ones i lt, inside, bit]
  · simp [seg, byte_ones]
  · have inside : 8 + i < 16 := by omega
    simp [seg, half_ones i lt, inside]
  · simp [seg, byte_ones]
  · interval_cases i <;> simp [seg, type_bit, dpl_bit]
  · interval_cases i <;> simp [seg]
  · simp [seg]

theorem segBytes_eq (type base lim : UInt32) (type_lt : type.toNat < 2 ^ 4) :
    segBytes type base lim = (seg type base lim 0).bytes := by
  have type_bit := bit_of_lt type_lt
  rw [seg_bytes type base lim 0 type_lt (by decide)]
  simp only [segBytes, halfword, List.cons_append, List.nil_append, List.cons.injEq, and_true,
    ← UInt8.toBitVec_inj]
  refine ⟨?_, ?_, ?_, ?_, ?_, ?_, ?_, ?_⟩ <;> ext i lt
  · simp [byte_ones]
  · interval_cases i <;> simp
  · simp [byte_ones]
  · interval_cases i <;> simp
  · simp [byte_ones]
  · simp
  · interval_cases i <;> simp
  · simp [byte_ones]

theorem limit_bytes (lim : UInt32) :
    word [(lim >>> 12).toUInt8, (lim >>> 20).toUInt8,
      ((0xC0 : UInt32) ||| lim >>> 28).toUInt8 &&& (0x0F : UInt8), 0] <<< 12 ||| 0xFFF = lim ||| 0xFFF := by
  have second : (lim >>> 20).toUInt8 = (lim >>> 12 >>> 8).toUInt8 := by
    apply UInt8.toBitVec_inj.1
    ext i lt
    simp
  have third : ((0xC0 : UInt32) ||| lim >>> 28).toUInt8 &&& (0x0F : UInt8) = (lim >>> 12 >>> 16).toUInt8 := by
    apply UInt8.toBitVec_inj.1
    ext i lt
    interval_cases i <;> simp
  have fourth : (0 : UInt8) = (lim >>> 12 >>> 24).toUInt8 := by
    apply UInt8.toBitVec_inj.1
    ext i lt
    simp [BitVec.getLsbD_of_ge lim.toBitVec (36 + i) (by omega)]
  have low : ∀ (i : Nat) (lt : i < 32), i < 12 → (4095#32)[i] = true := by decide
  have units := word_littleEndian (lim >>> 12)
  rw [Cpu.littleEndian, ← second, ← third, ← fourth] at units
  rw [units]
  apply UInt32.toBitVec_inj.1
  ext i lt
  by_cases small : i < 12
  next => simp [low i lt small]
  next =>
    have bit : 12 + (i - 12) = i := by omega
    simp [small, bit, BitVec.getLsbD_eq_getElem lt]

section Access

variable {type dpl : UInt32} (type_lt : type.toNat < 2 ^ 4) (dpl_lt : dpl.toNat < 2 ^ 2)

include type_lt dpl_lt

theorem access_type :
    ((0x90 : UInt32) ||| type ||| dpl <<< 5).toUInt8 &&& (0x0F : UInt8) = type.toUInt8 := by
  have type_bit := bit_of_lt type_lt
  have dpl_bit := bit_of_lt dpl_lt
  apply UInt8.toBitVec_inj.1
  ext i lt
  interval_cases i <;> simp [type_bit, dpl_bit]

theorem access_dpl :
    (((0x90 : UInt32) ||| type ||| dpl <<< 5).toUInt8 >>> 5) &&& (0x3 : UInt8) = dpl.toUInt8 := by
  have type_bit := bit_of_lt type_lt
  have dpl_bit := bit_of_lt dpl_lt
  apply UInt8.toBitVec_inj.1
  ext i lt
  interval_cases i <;> simp [type_bit, dpl_bit]

theorem access_flags :
    ((0x90 : UInt32) ||| type ||| dpl <<< 5).toUInt8 &&& (0x90 : UInt8) = 0x90 := by
  have type_bit := bit_of_lt type_lt
  have dpl_bit := bit_of_lt dpl_lt
  apply UInt8.toBitVec_inj.1
  ext i lt
  interval_cases i <;> simp [type_bit, dpl_bit]

end Access

theorem flag_set {byte mask : UInt8} (flag : UInt8) (set : byte &&& mask = mask) (one : mask &&& flag = flag)
    (nonzero : flag ≠ 0) : byte &&& flag ≠ 0 := by
  rw [← one, ← UInt8.and_assoc, set, one]
  exact nonzero

theorem seg_decodes (type base lim dpl : UInt32) (type_lt : type.toNat < 2 ^ 4)
    (dpl_lt : dpl.toNat < 2 ^ 2) :
    Descriptor.ofBytes (seg type base lim dpl).bytes =
      { base, limit := lim ||| 0xFFF, type := type.toUInt8, s := true, dpl := dpl.toUInt8, p := true,
        db := true } := by
  have flags := access_flags type_lt dpl_lt
  have granular : ((0xC0 : UInt32) ||| lim >>> 28).toUInt8 &&& (0xC0 : UInt8) = 0xC0 := by
    apply UInt8.toBitVec_inj.1
    ext i lt
    interval_cases i <;> simp
  have g := flag_set 0x80 granular (by decide) (by decide)
  have db := flag_set 0x40 granular (by decide) (by decide)
  have s := flag_set 0x10 flags (by decide) (by decide)
  have p := flag_set 0x80 flags (by decide) (by decide)
  have base_bytes : word [base.toUInt8, (base >>> 8).toUInt8, (base >>> 16).toUInt8,
      (base >>> 24).toUInt8] = base := word_littleEndian base
  rw [seg_bytes type base lim dpl type_lt dpl_lt, Descriptor.ofBytes]
  simp only [List.getD_cons_zero, List.getD_cons_succ, access_type type_lt dpl_lt,
    access_dpl type_lt dpl_lt, base_bytes, if_neg g, limit_bytes lim, ne_eq, db, s, p,
    not_false_eq_true, decide_true]

end JosLab.Mmu
