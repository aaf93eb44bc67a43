import JosLab.Inc.Stdarg
import JosLab.Shared.Loop

set_option autoImplicit false

namespace JosLab.Printfmt

structure CString where
  bytes : List UInt8
  noNul : 0 ∉ bytes
  deriving DecidableEq

def CString.empty : CString := ⟨[], List.not_mem_nil⟩

def CString.read (f : CString) (i : Nat) : Outcome Fault UInt8 :=
  if i ≤ f.bytes.length then .done (f.bytes.getD i 0) else .fault (.format i)

structure Spec where
  padc : Int := 32
  width : Int := -1
  precision : Int := -1
  lflag : Int := 0
  altflag : Bool := false
  deriving DecidableEq, Repr

def Spec.processPrecision (spec : Spec) (precision : Int) : Spec :=
  if spec.width < 0 then { spec with width := precision, precision := -1 }
  else { spec with precision }

def isDigit (ch : UInt8) : Bool := 48 ≤ ch && ch ≤ 57

-- for (precision = 0; ; ++fmt) over the state (precision, ch, fmt)
def numberPass (f : CString) (state : Int × UInt8 × Nat) :
    Outcome Fault (Pass (Int × UInt8 × Nat) (Int × Nat)) := do
  let (precision, ch, fmt) := state
  let precision := int32 (precision * 10 + ch.toNat - 48)
  let ch ← f.read fmt
  if isDigit ch then return .again (precision, ch, fmt + 1) else return .leave (precision, fmt)

def number (f : CString) (ch : UInt8) (fmt : Nat) : Outcome Fault (Int × Nat) :=
  Loop.run (numberPass f) (f.bytes.length + 2) (0, ch, fmt)

structure Flags where
  fmt : Nat
  ap : List Arg
  spec : Spec
  deriving DecidableEq

-- reswitch: flags go round again, anything else leaves with the conversion character.
def reswitchPass (f : CString) (state : Flags) : Outcome Fault (Pass Flags (UInt8 × Flags)) := do
  let { fmt, ap, spec } := state
  let ch ← f.read fmt
  let fmt := fmt + 1
  if ch = 45 then return .again { fmt, ap, spec := { spec with padc := 45 } }
  else if ch = 48 then return .again { fmt, ap, spec := { spec with padc := 48 } }
  else if isDigit ch then
    let (precision, fmt) ← number f ch fmt
    return .again { fmt, ap, spec := spec.processPrecision precision }
  else if ch = 42 then
    let (precision, ap) ← vaInt ap
    return .again { fmt, ap, spec := spec.processPrecision precision }
  else if ch = 46 then
    return .again { fmt, ap, spec := if spec.width < 0 then { spec with width := 0 } else spec }
  else if ch = 35 then return .again { fmt, ap, spec := { spec with altflag := true } }
  else if ch = 108 then
    return .again { fmt, ap, spec := { spec with lflag := int32 (spec.lflag + 1) } }
  else return .leave (ch, { fmt, ap, spec })

def reswitch (f : CString) (fmt : Nat) (ap : List Arg) : Outcome Fault (UInt8 × Flags) :=
  Loop.run (reswitchPass f) (f.bytes.length + 2) { fmt, ap, spec := {} }

def getuint (ap : List Arg) (lflag : Int) : Outcome Fault (UInt64 × List Arg) := do
  if 2 ≤ lflag then vaDword ap
  else
    let (value, ap) ← vaWord ap
    return (value.toUInt64, ap)

def getint (ap : List Arg) (lflag : Int) : Outcome Fault (Int64 × List Arg) := do
  if 2 ≤ lflag then
    let (value, ap) ← vaDword ap
    return (value.toInt64, ap)
  else
    let (value, ap) ← vaWord ap
    return (value.toInt32.toInt64, ap)

-- "(null)"
def nullChars : Chars := [40, 110, 117, 108, 108, 41, 0]

def errorStrings : List (Option Chars) :=
  [none,
    -- "unspecified error"
    some [117, 110, 115, 112, 101, 99, 105, 102, 105, 101, 100, 32, 101, 114, 114, 111, 114, 0],
    -- "bad environment"
    some [98, 97, 100, 32, 101, 110, 118, 105, 114, 111, 110, 109, 101, 110, 116, 0],
    -- "invalid parameter"
    some [105, 110, 118, 97, 108, 105, 100, 32, 112, 97, 114, 97, 109, 101, 116, 101, 114, 0],
    -- "out of memory"
    some [111, 117, 116, 32, 111, 102, 32, 109, 101, 109, 111, 114, 121, 0],
    -- "out of environments"
    some [111, 117, 116, 32, 111, 102, 32, 101, 110, 118, 105, 114, 111, 110, 109, 101, 110, 116,
      115, 0],
    -- "segmentation fault"
    some [115, 101, 103, 109, 101, 110, 116, 97, 116, 105, 111, 110, 32, 102, 97, 117, 108, 116, 0]]

def maxerror : Int := 7

def errorString (err : Int) : Outcome Fault (Option Chars) :=
  if 0 ≤ err then .need (.errorString err) errorStrings[err.toNat]?
  else .fault (.errorString err)

-- "error %d" and "%s"
def errorFormat : CString := ⟨[101, 114, 114, 111, 114, 32, 37, 100], by decide⟩

def stringFormat : CString := ⟨[37, 115], by decide⟩

-- "0123456789abcdef"
def digits : List UInt8 :=
  [48, 49, 50, 51, 52, 53, 54, 55, 56, 57, 97, 98, 99, 100, 101, 102, 0]

section Output

variable {σ : Type} (putch : Int → σ → Outcome Fault σ)

-- for (; width > 0; width--) putch(padc, putdat)
def padPass (padc : Int) (state : Int × σ) : Outcome Fault (Pass (Int × σ) σ) := do
  let (width, putdat) := state
  if 0 < width then return .again (width - 1, ← putch padc putdat) else return .leave putdat

def pad (padc width : Int) (putdat : σ) : Outcome Fault σ :=
  Loop.run (padPass putch padc) (width.toNat + 1) (width, putdat)

-- Each level takes one digit off `num`, so 64 levels are enough.
def printnumAt : Nat → UInt64 → UInt64 → Int → Int → σ → Outcome Fault σ
  | 0, _, _, _, _, _ => .spin
  | depth + 1, num, base, width, padc, putdat => do
      let putdat ←
        if base ≤ num then printnumAt depth (num / base) base (int32 (width - 1)) padc putdat
        else pad putch padc (int32 (width - 1)) putdat
      let digit ← .need .char digits[(num % base).toNat]?
      putch digit.toNat putdat

def printnum (num base : UInt64) (width padc : Int) (putdat : σ) : Outcome Fault σ :=
  printnumAt putch 64 num base width padc putdat

def charInt (byte : UInt8) : Int := byte.toInt8.toInt

def putStringChar (altflag : Bool) (ch : Int) (putdat : σ) : Outcome Fault σ :=
  if altflag ∧ (ch < 32 ∨ 126 < ch) then putch 63 putdat else putch ch putdat

def putString (altflag : Bool) : Chars → Int → Int → σ → Outcome Fault (Int × σ)
  | [], _, _, _ => .fault .char
  | byte :: p, precision, width, putdat =>
      if byte = 0 then return (width, putdat)
      else if precision < 0 then do
        let putdat ← putStringChar putch altflag (charInt byte) putdat
        putString altflag p precision (int32 (width - 1)) putdat
      else if 0 ≤ precision - 1 then do
        let putdat ← putStringChar putch altflag (charInt byte) putdat
        putString altflag p (precision - 1) (int32 (width - 1)) putdat
      else return (width, putdat)

def printCharacter (ap : List Arg) (putdat : σ) : Outcome Fault (List Arg × σ) := do
  let (ch, ap) ← vaInt ap
  return (ap, ← putch ch putdat)

def printError (printfmt : CString → List Arg → σ → Outcome Fault σ) (ap : List Arg) (putdat : σ) :
    Outcome Fault (List Arg × σ) := do
  let (err, ap) ← vaInt ap
  let err := if err < 0 then int32 (-err) else err
  if maxerror ≤ err then
    return (ap, ← printfmt errorFormat [.word (UInt32.ofInt err)] putdat)
  else
    match ← errorString err with
    | none => return (ap, ← printfmt errorFormat [.word (UInt32.ofInt err)] putdat)
    | some p => return (ap, ← printfmt stringFormat [.str (some p)] putdat)

def printString (spec : Spec) (ap : List Arg) (putdat : σ) : Outcome Fault (List Arg × σ) := do
  let (string, ap) ← vaString ap
  let p := string.getD nullChars
  if 0 < spec.width ∧ spec.padc ≠ 45 then
    let length ← strnlen p (UInt32.ofInt spec.precision).toNat
    let width := int32 (spec.width - length)
    let putdat ← pad putch spec.padc width putdat
    let (width, putdat) ← putString putch spec.altflag p spec.precision (min width 0) putdat
    return (ap, ← pad putch 32 width putdat)
  else
    let (width, putdat) ← putString putch spec.altflag p spec.precision spec.width putdat
    return (ap, ← pad putch 32 width putdat)

def printSigned (spec : Spec) (ap : List Arg) (putdat : σ) : Outcome Fault (List Arg × σ) := do
  let (num, ap) ← getint ap spec.lflag
  if num < 0 then
    let putdat ← putch 45 putdat
    return (ap, ← printnum putch (-num).toUInt64 10 spec.width spec.padc putdat)
  else return (ap, ← printnum putch num.toUInt64 10 spec.width spec.padc putdat)

def printUnsigned (base : UInt64) (spec : Spec) (ap : List Arg) (putdat : σ) :
    Outcome Fault (List Arg × σ) := do
  let (num, ap) ← getuint ap spec.lflag
  return (ap, ← printnum putch num base spec.width spec.padc putdat)

def printPointer (spec : Spec) (ap : List Arg) (putdat : σ) : Outcome Fault (List Arg × σ) := do
  let putdat ← putch 48 putdat
  let putdat ← putch 120 putdat
  let (num, ap) ← vaWord ap
  return (ap, ← printnum putch num.toUInt64 16 spec.width spec.padc putdat)

def conversion (printfmt : CString → List Arg → σ → Outcome Fault σ) (ch : UInt8) (spec : Spec) :
    Option (List Arg → σ → Outcome Fault (List Arg × σ)) :=
  match ch with
  | 99 => some (printCharacter putch)
  | 101 => some (printError printfmt)
  | 115 => some (printString putch spec)
  | 100 => some (printSigned putch spec)
  | 117 => some (printUnsigned putch 10 spec)
  | 111 => some (printUnsigned putch 8 spec)
  | 112 => some (printPointer putch spec)
  | 120 => some (printUnsigned putch 16 spec)
  | 37 => some fun ap putdat => do return (ap, ← putch 37 putdat)
  | _ => none

-- for (fmt--; fmt[-1] != '%'; fmt--), entered with `fmt` already decremented
def rescan (f : CString) : Nat → Outcome Fault Nat
  | 0 => .fault (.format (-1))
  | fmt + 1 => do
      if (← f.read fmt) = 37 then return fmt + 1 else rescan f fmt

structure Scanner (σ : Type) where
  fmt : Nat
  ap : List Arg
  putdat : σ

def vprintfmtPass (printfmt : CString → List Arg → σ → Outcome Fault σ) (f : CString)
    (state : Scanner σ) : Outcome Fault (Pass (Scanner σ) (Scanner σ)) := do
  let { fmt, ap, putdat } := state
  let ch ← f.read fmt
  let fmt := fmt + 1
  if ch ≠ 37 then
    if ch = 0 then return .leave { fmt, ap, putdat }
    else return .again { fmt, ap, putdat := ← putch ch.toNat putdat }
  else
    let (ch, { fmt, ap, spec }) ← reswitch f fmt ap
    match conversion putch printfmt ch spec with
    | some print =>
        let (ap, putdat) ← print ap putdat
        return .again { fmt, ap, putdat }
    | none =>
        let putdat ← putch 37 putdat
        let fmt ← rescan f (fmt - 1)
        return .again { fmt, ap, putdat }

-- `vprintfmt` and `printfmt` call each other; `depth` bounds how deep.
def vprintfmtAt : Nat → CString → List Arg → σ → Outcome Fault (Scanner σ)
  | 0, _, _, _ => .spin
  | depth + 1, f, ap, putdat =>
      let printfmt f ap putdat := do return (← vprintfmtAt depth f ap putdat).putdat
      Loop.run (vprintfmtPass putch printfmt f) (f.bytes.length + 1) { fmt := 0, ap, putdat }

def printfmtAt (depth : Nat) (f : CString) (ap : List Arg) (putdat : σ) : Outcome Fault σ := do
  return (← vprintfmtAt putch depth f ap putdat).putdat

-- What %e prints has no %e in it: two calls deep is all there is.
def vprintfmt (f : CString) (ap : List Arg) (putdat : σ) : Outcome Fault σ :=
  printfmtAt putch 2 f ap putdat

end Output

end JosLab.Printfmt
