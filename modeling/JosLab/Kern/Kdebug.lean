import JosLab.Inc.Stab
import JosLab.Lib.Strings
import JosLab.Shared.Scan

set_option autoImplicit false

namespace JosLab.Kdebug

def ulim : UInt32 := 0xef800000

structure Search where
  l : Int
  r : Int
  anyMatches : Bool
  regionLeft : Int
  regionRight : Int
  addr : UInt32
  deriving DecidableEq, Repr

def hasType (stabs : Stabs) (type : Int) (index : Int) : Outcome Fault Bool := do
  return ((← stabAt stabs index).nType : Int) = type

def binsearchPass (stabs : Stabs) (type : Int) (s : Search) :
    Outcome Fault (Pass Search Search) :=
  if s.l ≤ s.r then do
    let trueM := (s.l + s.r).tdiv 2
    let m ← Scan.down (hasType stabs type) s.l trueM
    if m < s.l then return .again { s with l := trueM + 1 }
    else
      let stab ← stabAt stabs m
      if stab.nValue < s.addr then
        return .again { s with anyMatches := true, regionLeft := m, l := trueM + 1 }
      else if s.addr < stab.nValue then
        return .again { s with anyMatches := true, regionRight := m - 1, r := m - 1 }
      else
        -- exact match for 'addr', but continue loop to find *region_right
        return .again { s with anyMatches := true, regionLeft := m, l := m, addr := s.addr + 1 }
  else return .leave s

-- An exact match may leave the range as it is, but not twice.
def searchFuel (left right : Int) : Nat := 2 * (right - left + 1).toNat + 2

def stabBinsearch (stabs : Stabs) (left right : Int) (type : Int) (addr : UInt32) :
    Outcome Fault (Int × Int) := do
  let s ← Loop.run (binsearchPass stabs type) (searchFuel left right)
    { l := left, r := right, anyMatches := false, regionLeft := left, regionRight := right, addr }
  if !s.anyMatches then return (s.regionLeft, s.regionLeft - 1)
  else
    let l ← Scan.down (hasType stabs type) (s.regionLeft + 1) s.regionRight
    return (l, s.regionRight)

inductive DebugName where
  | unknown
  | stabstr (offset : Nat)
  deriving DecidableEq, Repr

structure Eipdebuginfo where
  eipFile : DebugName
  eipLine : Int
  eipFnName : DebugName
  eipFnNamelen : Int
  eipFnAddr : UInt32
  eipFnNarg : Int
  deriving DecidableEq, Repr

structure DebugTables where
  stabs : List Stab
  stabstr : Chars
  deriving DecidableEq, Repr

def DebugTables.at (tables : DebugTables) : Stabs := tableStabs tables.stabs

def unknownChars : Chars := [60, 117, 110, 107, 110, 111, 119, 110, 62, 0]

def DebugTables.chars (tables : DebugTables) : DebugName → Chars
  | .unknown => unknownChars
  | .stabstr offset => tables.stabstr.drop offset

-- `n_strx` is used only when it lies inside the string table; else the name stays as it was.
def DebugTables.name (tables : DebugTables) (stab : Stab) (otherwise : DebugName) : DebugName :=
  if stab.nStrx.toNat < tables.stabstr.length then .stabstr stab.nStrx.toNat else otherwise

def initialInfo (addr : UInt32) : Eipdebuginfo :=
  { eipFile := .unknown, eipLine := 0, eipFnName := .unknown, eipFnNamelen := 9,
    eipFnAddr := addr, eipFnNarg := 0 }

def functionInfo (tables : DebugTables) (addr : UInt32) (lfile rfile lfun rfun : Int)
    (info : Eipdebuginfo) : Outcome Fault (Eipdebuginfo × UInt32 × Int × Int) := do
  if lfun ≤ rfun then
    let stab ← stabAt tables.at lfun
    return ({ info with eipFnName := tables.name stab info.eipFnName, eipFnAddr := stab.nValue },
      addr - stab.nValue, lfun, rfun)
  else
    -- Couldn't find function stab!  Maybe we're in an assembly file.
    return ({ info with eipFnAddr := addr }, addr, lfile, rfile)

theorem functionInfo_found (tables : DebugTables) (addr : UInt32) (lfile rfile lfun rfun : Int)
    (info : Eipdebuginfo) (stab : Stab) (found : lfun ≤ rfun)
    (read : stabAt tables.at lfun = .done stab) :
    functionInfo tables addr lfile rfile lfun rfun info = .done
      ({ info with eipFnName := tables.name stab info.eipFnName, eipFnAddr := stab.nValue },
        addr - stab.nValue, lfun, rfun) := by
  simp [functionInfo, found, read]

theorem functionInfo_missing (tables : DebugTables) (addr : UInt32) (lfile rfile lfun rfun : Int)
    (info : Eipdebuginfo) (missing : ¬ lfun ≤ rfun) :
    functionInfo tables addr lfile rfile lfun rfun info = .done
      ({ info with eipFnAddr := addr }, addr, lfile, rfile) := by
  simp [functionInfo, missing]

def namesFile (stabs : Stabs) (index : Int) : Outcome Fault Bool := do
  let stab ← stabAt stabs index
  return stab.nType = nSOL ∨ stab.nType = nSO ∧ stab.nValue ≠ 0

def fileInfo (tables : DebugTables) (lfile lline : Int) (info : Eipdebuginfo) :
    Outcome Fault Eipdebuginfo := do
  let lline ← Scan.down (namesFile tables.at) lfile lline
  if lfile ≤ lline then
    let stab ← stabAt tables.at lline
    return { info with eipFile := tables.name stab info.eipFile }
  else return info

def argumentPass (stabs : Stabs) (rfun : Int) (state : Int × Int) :
    Outcome Fault (Pass (Int × Int) Int) :=
  let (lline, narg) := state
  if lline < rfun then do
    if ← hasType stabs nPSYM lline then return .again (lline + 1, narg + 1)
    else return .leave narg
  else return .leave narg

def countArguments (stabs : Stabs) (lfun rfun narg : Int) : Outcome Fault Int :=
  if lfun < rfun then
    Loop.run (argumentPass stabs rfun) ((rfun - lfun).toNat + 1) (lfun + 1, narg)
  else return narg

def lineInfo (tables : DebugTables) (addr : UInt32) (lfile lfun rfun lline rline : Int)
    (info : Eipdebuginfo) : Outcome Fault (Int × Eipdebuginfo) := do
  let (lline, rline) ← stabBinsearch tables.at lline rline nSLINE addr
  if lline ≤ rline then
    let stab ← stabAt tables.at lline
    let info := { info with eipLine := stab.nDesc.toNat }
    let info ← fileInfo tables lfile lline info
    let narg ← countArguments tables.at lfun rfun info.eipFnNarg
    return (0, { info with eipFnNarg := narg })
  else return (-1, info)

def debuginfoEip (tables : DebugTables) (addr : UInt32) : Outcome Fault (Int × Eipdebuginfo) := do
  let info := initialInfo addr
  if addr < ulim then
    .fault .panic
  else if tables.stabstr.getLast? ≠ some 0 then return (-1, info)
  else
    let (lfile, rfile) ← stabBinsearch tables.at 0 (tables.stabs.length - 1) nSO addr
    if lfile = 0 then return (-1, info)
    else
      let (lfun, rfun) ← stabBinsearch tables.at lfile rfile nFUN addr
      let (info, addr, lline, rline) ← functionInfo tables addr lfile rfile lfun rfun info
      let namelen ← strfind (tables.chars info.eipFnName) 58
      lineInfo tables addr lfile lfun rfun lline rline { info with eipFnNamelen := namelen }

end JosLab.Kdebug
