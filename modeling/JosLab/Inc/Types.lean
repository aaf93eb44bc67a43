import Mathlib

set_option autoImplicit false

namespace JosLab

def roundDown (a n : UInt32) : UInt32 := a - a % n

def roundUp (a n : UInt32) : UInt32 := roundDown (a + n - 1) n

theorem roundDown_toNat (a n : UInt32) : (roundDown a n).toNat = a.toNat / n.toNat * n.toNat := by
  have le : a % n ≤ a := by
    rw [UInt32.le_iff_toNat_le, UInt32.toNat_mod]
    exact Nat.mod_le _ _
  rw [roundDown, UInt32.toNat_sub_of_le _ _ le, UInt32.toNat_mod, Nat.mul_comm]
  have parts := Nat.div_add_mod a.toNat n.toNat
  omega

theorem roundUp_toNat (a n : UInt32) (some : 0 < n.toNat) (fits : a.toNat + n.toNat - 1 < 2 ^ 32) :
    (roundUp a n).toNat = (a.toNat + n.toNat - 1) / n.toNat * n.toNat := by
  have sum : (a + n - 1).toNat = a.toNat + n.toNat - 1 := by
    rw [UInt32.toNat_sub, UInt32.toNat_add]
    change (2 ^ 32 - 1 + _) % 2 ^ 32 = _
    omega
  rw [roundUp, roundDown_toNat, sum]

end JosLab
