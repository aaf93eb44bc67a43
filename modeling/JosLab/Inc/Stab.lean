import JosLab.Inc.Fault

set_option autoImplicit false

namespace JosLab

def nFUN : UInt8 := 0x24
def nSLINE : UInt8 := 0x44
def nSO : UInt8 := 0x64
def nSOL : UInt8 := 0x84
def nPSYM : UInt8 := 0xa0

structure Stab where
  nStrx : UInt32
  nType : UInt8
  nDesc : UInt16
  nValue : UInt32
  deriving DecidableEq, Repr, Inhabited

-- `n_type` is a byte, compared with an `int`.
instance stabType : Coe UInt8 Int := ⟨fun byte => byte.toNat⟩

-- Indices are signed, and only some hold an entry.
abbrev Stabs := Int → Option Stab

def stabAt (stabs : Stabs) (index : Int) : Outcome Fault Stab :=
  .need (.stab index) (stabs index)

def tableStabs (table : List Stab) : Stabs := fun index =>
  if 0 ≤ index then table[index.toNat]? else none

end JosLab
