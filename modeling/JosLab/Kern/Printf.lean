import JosLab.Kern.Console
import JosLab.Lib.Printfmt

set_option autoImplicit false

namespace JosLab.Console

open Printfmt

-- `*cnt++` advances putch's own pointer, not the count it points at.
def putch (ch : Int) (putdat : Console × Int) : Outcome Fault (Console × Int) := do
  let (s, cnt) := putdat
  return (← cputchar ch s, cnt)

def vcprintf (f : CString) (ap : List Arg) (s : Console) : Outcome Fault (Int × Console) := do
  let (s, cnt) ← vprintfmt putch f ap (s, 0)
  return (cnt, s)

def cprintf (f : CString) (ap : List Arg) (s : Console) : Outcome Fault (Int × Console) :=
  vcprintf f ap s

end JosLab.Console
