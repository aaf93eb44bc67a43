import JosLab.Kern.StabBounds
import JosLab.Lib.StringField

set_option autoImplicit false

namespace JosLab.Kdebug

open Printfmt

def cstr (chars : Chars) : List UInt8 := chars.takeWhile (· ≠ 0)

theorem cstr_spells {chars : Chars} (terminated : 0 ∈ chars) : Spells (some chars) (cstr chars) := by
  refine ⟨fun nul => ?_, ?_⟩
  · have nonzero := List.mem_takeWhile_imp nul
    simp at nonzero
  · induction chars with
    | nil => cases terminated
    | cons byte chars ih =>
      by_cases zero : byte = 0
      next => exact ⟨chars, by simp [cstr, zero]⟩
      next =>
        obtain ⟨rest, split⟩ := ih (by simpa [Ne.symm zero] using terminated)
        have split : chars = cstr chars ++ 0 :: rest := split
        refine ⟨rest, ?_⟩
        have first : cstr (byte :: chars) = byte :: cstr chars := by simp [cstr, zero]
        rw [first, List.cons_append, ← split]
        rfl

variable {tables : DebugTables}

structure Named (tables : DebugTables) (info : Eipdebuginfo) : Prop where
  file : 0 ∈ tables.chars info.eipFile
  function : 0 ∈ tables.chars info.eipFnName
  namelen : ∃ n : Nat, info.eipFnNamelen = n ∧ n ≤ (cstr (tables.chars info.eipFnName)).length

def DebugTables.Valid (tables : DebugTables) : DebugName → Prop
  | .unknown => True
  | .stabstr offset => offset < tables.stabstr.length ∧ 0 ∈ tables.stabstr.drop offset

def DebugTables.nameLength (tables : DebugTables) (name : DebugName) : Nat :=
  (tables.chars name).findIdx fun byte => byte == 0 || byte == 58

structure ValidInfo (tables : DebugTables) (info : Eipdebuginfo) : Prop where
  file : tables.Valid info.eipFile
  function : tables.Valid info.eipFnName
  namelen : info.eipFnNamelen = tables.nameLength info.eipFnName

theorem DebugTables.Valid.terminated {name : DebugName} (valid : tables.Valid name) :
    0 ∈ tables.chars name := by
  cases name with
  | unknown => exact (by decide : 0 ∈ unknownChars)
  | stabstr offset => exact valid.2

theorem DebugTables.Valid.name {otherwise : DebugName} (valid : tables.Valid otherwise)
    (strings : tables.stabstr.getLast? = some 0) (stab : Stab) :
    tables.Valid (tables.name stab otherwise) := by
  have terminated := name_terminated tables strings stab otherwise valid.terminated
  unfold DebugTables.name at terminated ⊢
  split at terminated
  next inside =>
    rw [if_pos inside]
    exact ⟨inside, terminated⟩
  next outside =>
    rw [if_neg outside]
    exact valid

theorem initialInfo_valid (addr : UInt32) : ValidInfo tables (initialInfo addr) :=
  ⟨trivial, trivial, rfl⟩

theorem functionInfo_valid {addr addr' : UInt32} {lfile rfile lfun rfun lline rline : Int}
    {info info' : Eipdebuginfo} (strings : tables.stabstr.getLast? = some 0)
    (valid : ValidInfo tables info)
    (ran : functionInfo tables addr lfile rfile lfun rfun info = .done (info', addr', lline, rline)) :
    tables.Valid info'.eipFile ∧ tables.Valid info'.eipFnName := by
  unfold functionInfo at ran
  split at ran
  next =>
    obtain ⟨stab, -, same⟩ := (Outcome.bind_eq_done _ _ _).1 ran
    cases same
    exact ⟨valid.file, valid.function.name strings stab⟩
  next =>
    cases ran
    exact ⟨valid.file, valid.function⟩

theorem fileInfo_valid {lfile lline : Int} {info info' : Eipdebuginfo}
    (strings : tables.stabstr.getLast? = some 0) (valid : ValidInfo tables info)
    (ran : fileInfo tables lfile lline info = .done info') : ValidInfo tables info' := by
  obtain ⟨line, -, rest⟩ := (Outcome.bind_eq_done _ _ _).1 ran
  split at rest
  next =>
    obtain ⟨stab, -, same⟩ := (Outcome.bind_eq_done _ _ _).1 rest
    cases same
    exact ⟨valid.file.name strings stab, valid.function, valid.namelen⟩
  next =>
    cases rest
    exact valid

theorem lineInfo_valid {addr : UInt32} {lfile lfun rfun lline rline rc : Int}
    {info info' : Eipdebuginfo} (strings : tables.stabstr.getLast? = some 0)
    (valid : ValidInfo tables info)
    (ran : lineInfo tables addr lfile lfun rfun lline rline info = .done (rc, info')) :
    (rc = 0 ∨ rc = -1) ∧ ValidInfo tables info' := by
  obtain ⟨⟨left, right⟩, -, rest⟩ := (Outcome.bind_eq_done _ _ _).1 ran
  dsimp only at rest
  split at rest
  next =>
    simp only [Outcome.bind_eq_done] at rest
    obtain ⟨stab, -, info'', file, narg, -, same⟩ := rest
    cases same
    have start : ValidInfo tables { info with eipLine := stab.nDesc.toNat } :=
      ⟨valid.file, valid.function, valid.namelen⟩
    have kept := fileInfo_valid strings start file
    exact ⟨.inl rfl, kept.file, kept.function, kept.namelen⟩
  next =>
    cases rest
    exact ⟨.inr rfl, valid⟩

theorem debuginfoEip_valid {addr : UInt32} {rc : Int} {info : Eipdebuginfo}
    (ran : debuginfoEip tables addr = .done (rc, info)) :
    (rc = 0 ∨ rc = -1) ∧ ValidInfo tables info := by
  unfold debuginfoEip at ran
  split at ran
  next => cases ran
  split at ran
  next =>
    cases ran
    exact ⟨.inr rfl, initialInfo_valid addr⟩
  next strings =>
    have strings := not_not.1 strings
    obtain ⟨⟨lfile, rfile⟩, -, rest⟩ := (Outcome.bind_eq_done _ _ _).1 ran
    dsimp only at rest
    split at rest
    next =>
      cases rest
      exact ⟨.inr rfl, initialInfo_valid addr⟩
    next =>
      simp only [Outcome.bind_eq_done] at rest
      obtain ⟨⟨lfun, rfun⟩, -, ⟨info', addr', lline, rline⟩, function, namelen, found, line⟩ := rest
      obtain ⟨file, name⟩ := functionInfo_valid strings (initialInfo_valid addr) function
      rw [strfind_correct _ 58 name.terminated] at found
      cases found
      have valid : ValidInfo tables { info' with
          eipFnNamelen := (tables.nameLength info'.eipFnName : Int) } := ⟨file, name, rfl⟩
      exact lineInfo_valid strings valid line

theorem findIdx_le (chars : Chars) (terminated : 0 ∈ chars) :
    (chars.findIdx fun byte => byte == 0 || byte == 58) ≤ (cstr chars).length := by
  induction chars with
  | nil => cases terminated
  | cons byte chars ih =>
    rw [List.findIdx_cons]
    by_cases stops : (byte == 0 || byte == 58) = true
    next =>
      rw [stops]
      exact Nat.zero_le _
    next =>
      have goes : (byte == 0 || byte == 58) = false := by simpa using stops
      have zero : byte ≠ 0 := by
        rintro rfl
        exact stops rfl
      have later := ih (by simpa [Ne.symm zero] using terminated)
      rw [goes]
      simpa [cstr, zero] using later

theorem ValidInfo.named {info : Eipdebuginfo} (valid : ValidInfo tables info) :
    Named tables info :=
  ⟨valid.file.terminated, valid.function.terminated, _, valid.namelen,
    findIdx_le _ valid.function.terminated⟩

theorem debuginfoEip_named {addr : UInt32} {rc : Int} {info : Eipdebuginfo}
    (ran : debuginfoEip tables addr = .done (rc, info)) : Named tables info :=
  (debuginfoEip_valid ran).2.named

theorem DebugTables.Valid.nameLength_lt {name : DebugName} (valid : tables.Valid name) :
    tables.nameLength name < (tables.chars name).length :=
  List.findIdx_lt_length_of_exists ⟨0, valid.terminated, rfl⟩

theorem debuginfoEip_stays (addr : UInt32) (kernel : ulim ≤ addr)
    (stays : ∀ i, debuginfoEip tables addr ≠ .fault (.stab i)) :
    ∃ rc info, debuginfoEip tables addr = .done (rc, info) := by
  have in_table : ¬ Escapes tables addr := fun escapes =>
    stays (-1) (debuginfoEip_escapes tables addr kernel escapes)
  obtain ⟨⟨rc, info⟩, returned⟩ := debuginfoEip_returns tables addr kernel in_table
  exact ⟨rc, info, returned⟩

theorem debuginfoEip_strings (tables : DebugTables) (addr : UInt32) (kernel : ulim ≤ addr)
    (stays : ∀ i, debuginfoEip tables addr ≠ .fault (.stab i)) :
    ∃ rc info, debuginfoEip tables addr = .done (rc, info) ∧ (rc = 0 ∨ rc = -1) ∧
      ValidInfo tables info ∧ info.eipFnNamelen < (tables.chars info.eipFnName).length := by
  obtain ⟨rc, info, returned⟩ := debuginfoEip_stays addr kernel stays
  obtain ⟨code, valid⟩ := debuginfoEip_valid returned
  refine ⟨rc, info, returned, code, valid, ?_⟩
  rw [valid.namelen]
  exact Int.ofNat_lt.2 valid.function.nameLength_lt

def strayFile : DebugTables :=
  { stabs := [⟨0, 0, 0, 0⟩, ⟨0xffffffff, nSO, 0, 0xf0100000⟩, ⟨1, nFUN, 0, 0xf0100000⟩,
      ⟨0, nSLINE, 7, 2⟩]
    stabstr := [58, 102, 110, 58, 0] }

theorem strayFile_strings :
    ∃ rc info, debuginfoEip strayFile 0xf0100005 = .done (rc, info) ∧ (rc = 0 ∨ rc = -1) ∧
      ValidInfo strayFile info ∧ info.eipFnNamelen < (strayFile.chars info.eipFnName).length :=
  debuginfoEip_strings strayFile 0xf0100005 (by decide) (by
    have ran : debuginfoEip strayFile 0xf0100005 = .done (0,
        { eipFile := .unknown, eipLine := 7, eipFnName := .stabstr 1, eipFnNamelen := 2,
          eipFnAddr := 0xf0100000, eipFnNarg := 0 }) := by decide +kernel
    intro i fault
    rw [ran] at fault
    cases fault)

end JosLab.Kdebug
