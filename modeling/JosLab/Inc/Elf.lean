import JosLab.Inc.X86

set_option autoImplicit false

namespace JosLab

-- "\x7FELF" in little endian
def elfMagic : UInt32 := 0x464C457F

def word : List UInt8 → UInt32
  | [] => 0
  | byte :: rest => byte.toUInt32 ||| word rest <<< 8

def loadWord (mem : Mem) (address : UInt32) (size : Nat) : Outcome Fault UInt32 := do
  return word (← loadBytes mem address.toNat size)

theorem word_cons (byte : UInt8) (rest : List UInt8) (small : (word rest).toNat < 2 ^ 24) :
    (word (byte :: rest)).toNat = byte.toNat + 2 ^ 8 * (word rest).toNat := by
  have shifted : (word rest <<< 8).toNat = (word rest).toNat <<< 8 := by
    have amount : (8 : UInt32).toNat % 32 = 8 := rfl
    rw [UInt32.toNat_shiftLeft, amount, Nat.shiftLeft_eq, Nat.mod_eq_of_lt (by omega)]
  rw [word, UInt32.toNat_or, shifted, UInt8.toNat_toUInt32, Nat.or_comm,
    ← Nat.shiftLeft_add_eq_or_of_lt byte.toNat_lt, Nat.shiftLeft_eq]
  omega

theorem word_littleEndian (w : UInt32) : word (Cpu.littleEndian w) = w := by
  have below := w.toNat_lt
  have lane (k : UInt32) (n : Nat) (amount : k.toNat % 32 = n) :
      (w >>> k).toUInt8.toNat = w.toNat / 2 ^ n % 2 ^ 8 := by
    rw [UInt32.toNat_toUInt8, UInt32.toNat_shiftRight, amount, Nat.shiftRight_eq_div_pow]
  have first : w.toUInt8.toNat = w.toNat % 2 ^ 8 := UInt32.toNat_toUInt8 w
  have second := lane 8 8 rfl
  have third := lane 16 16 rfl
  have fourth := lane 24 24 rfl
  have none : (word []).toNat = 0 := rfl
  have one := word_cons (w >>> 24).toUInt8 [] (by omega)
  have two := word_cons (w >>> 16).toUInt8 [(w >>> 24).toUInt8] (by omega)
  have three := word_cons (w >>> 8).toUInt8 [(w >>> 16).toUInt8, (w >>> 24).toUInt8] (by omega)
  have four := word_cons w.toUInt8 [(w >>> 8).toUInt8, (w >>> 16).toUInt8, (w >>> 24).toUInt8]
    (by omega)
  apply UInt32.toNat_inj.1
  rw [Cpu.littleEndian, four]
  omega

structure Elf where
  eMagic : UInt32
  eEntry : UInt32
  ePhoff : UInt32
  ePhnum : UInt32
  deriving DecidableEq, Repr

structure Proghdr where
  pOffset : UInt32
  pPa : UInt32
  pFilesz : UInt32
  pMemsz : UInt32
  deriving DecidableEq, Repr

end JosLab
