import JosLab.Lib.Strings

set_option autoImplicit false

namespace JosLab

-- One word of the stack, two of them, or a `char *`.
inductive Arg where
  | word (value : UInt32)
  | dword (value : UInt64)
  | str (string : Option Chars)
  deriving DecidableEq, Repr

def vaWord : List Arg → Outcome Fault (UInt32 × List Arg)
  | .word value :: ap => return (value, ap)
  | _ => .fault .vaArg

def vaDword : List Arg → Outcome Fault (UInt64 × List Arg)
  | .dword value :: ap => return (value, ap)
  | _ => .fault .vaArg

def vaString : List Arg → Outcome Fault (Option Chars × List Arg)
  | .str string :: ap => return (string, ap)
  | _ => .fault .vaArg

def vaInt (ap : List Arg) : Outcome Fault (Int × List Arg) := do
  let (value, ap) ← vaWord ap
  return (value.toInt32.toInt, ap)

-- The value an `int` holds after arithmetic came to `x`.
def int32 (x : Int) : Int := Int.bmod x (2 ^ 32)

theorem int32_lt (x : Int) : int32 x < 2 ^ 31 := Int.bmod_lt (by decide)

theorem int32_of_lt (x : Int) (ge : -2 ^ 31 ≤ x) (lt : x < 2 ^ 31) : int32 x = x := by
  rw [int32, Int.bmod_eq_iff (by decide)]
  refine ⟨by omega, by omega, by simp⟩

theorem int32_of_ge (x : Int) (ge : 2 ^ 31 ≤ x) (lt : x < 2 ^ 32 + 2 ^ 31) : int32 x = x - 2 ^ 32 := by
  rw [int32, Int.bmod_eq_iff (by decide)]
  refine ⟨by omega, by omega, by simp⟩

theorem int32_of_below (x : Int) (lt : x < -2 ^ 31) (ge : -2 ^ 32 - 2 ^ 31 ≤ x) :
    int32 x = x + 2 ^ 32 := by
  rw [int32, Int.bmod_eq_iff (by decide)]
  refine ⟨by omega, by omega, by simp⟩

theorem int32_int32_sub (x y : Int) : int32 (int32 x - y) = int32 (x - y) := Int.bmod_sub_bmod

theorem int32_int32 (x : Int) : int32 (int32 x) = int32 x := by
  have same := int32_int32_sub x 0
  rwa [Int.sub_zero, Int.sub_zero] at same

theorem int32_sub_int32 (x y : Int) : int32 (x - int32 y) = int32 (x - y) := Int.sub_bmod_bmod

theorem int32_mul_add (x y z : Int) : int32 (int32 x * y + z) = int32 (x * y + z) := by
  unfold int32
  rw [← Int.bmod_add_bmod, Int.bmod_mul_bmod, Int.bmod_add_bmod]

end JosLab
