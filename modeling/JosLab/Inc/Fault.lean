import JosLab.Shared.Outcome

set_option autoImplicit false

namespace JosLab

-- The accesses that would leave an object, and the calls that never return to their caller.
inductive Fault where
  | stab (index : Int)
  | char
  | load (address : Nat)
  | store (address : Nat)
  | format (index : Int)
  | vaArg
  | errorString (index : Int)
  | index (i : Nat)
  | panic
  deriving DecidableEq, Repr

end JosLab
