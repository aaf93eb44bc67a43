import JosLab.Kern.StabSearch

set_option autoImplicit false

namespace JosLab.Kdebug

def entryOf (tables : DebugTables) (i : Int) : Stab := tables.stabs.getD i.toNat default

theorem at_eq_some (tables : DebugTables) (i : Int) (stab : Stab) :
    tables.at i = some stab ↔ 0 ≤ i ∧ i < tables.stabs.length ∧ entryOf tables i = stab := by
  unfold DebugTables.at tableStabs entryOf
  by_cases nonneg : 0 ≤ i
  · by_cases inside : i.toNat < tables.stabs.length
    · have below : i < tables.stabs.length := by omega
      simp [nonneg, inside, below]
    · have outside : ¬ i < tables.stabs.length := by omega
      simp [nonneg, outside]
  · simp [nonneg]

theorem at_holds (tables : DebugTables) :
    Holds tables.at (entryOf tables) 0 (tables.stabs.length - 1) := by
  intro i ge le
  exact (at_eq_some tables i _).2 ⟨ge, by omega, rfl⟩

theorem Holds.narrow {stabs : Stabs} {entry : Int → Stab} {low high : Int}
    (holds : Holds stabs entry low high) (low' high' : Int) (low_le : low ≤ low')
    (le_high : high' ≤ high) :
    Holds stabs entry low' high' :=
  fun i ge le => holds i (by omega) (by omega)

def LastStab (tables : DebugTables) (p : Int → Stab → Prop) (i : Int) (stab : Stab) : Prop :=
  tables.at i = some stab ∧ IsGreatest {j | ∃ other, tables.at j = some other ∧ p j other} i

def Region (tables : DebugTables) (opens : Stab → Prop) (first i : Int) : Prop :=
  first ≤ i ∧ i < tables.stabs.length ∧
    ∀ j stab, first < j → j ≤ i → tables.at j = some stab → ¬ opens stab

def FileRegion (tables : DebugTables) (file : Int) : Int → Prop :=
  Region tables (fun stab => stab.nType = nSO) file

def FunctionRegion (tables : DebugTables) (function : Int) : Int → Prop :=
  Region tables (fun stab => stab.nType = nSO ∨ stab.nType = nFUN) function

def Ascending (tables : DebugTables) (type : UInt8) (group : Int → Prop) : Prop :=
  ∀ i j a b, group i → group j → tables.at i = some a → tables.at j = some b →
    a.nType = type → b.nType = type →
    (i ≤ j → a.nValue ≤ b.nValue) ∧ b.nValue.toNat ≠ a.nValue.toNat + 1

structure WellFormed (tables : DebugTables) : Prop where
  strings : tables.stabstr.getLast? = some 0
  first : ∀ stab, tables.at 0 = some stab → stab.nType ≠ nSO
  files : Ascending tables nSO fun _ => True
  functions : ∀ i file, tables.at i = some file → file.nType = nSO →
    Ascending tables nFUN (FileRegion tables i)
  lines : ∀ i function, tables.at i = some function → function.nType = nFUN →
    Ascending tables nSLINE (FunctionRegion tables i)

theorem Ascending.sorted {tables : DebugTables} {type : UInt8} {group : Int → Prop}
    (ascending : Ascending tables type group) (low high : Int) (nonneg : 0 ≤ low)
    (inside : high < tables.stabs.length) (grouped : ∀ i, low ≤ i → i ≤ high → group i) :
    Sorted (entryOf tables) type low high := by
  have read (i : Int) (ge : low ≤ i) (le : i ≤ high) : tables.at i = some (entryOf tables i) :=
    (at_eq_some tables i _).2 ⟨by omega, by omega, rfl⟩
  constructor
  · intro i j ge le le_high typed typed'
    exact (ascending i j _ _ (grouped i ge (by omega)) (grouped j (by omega) le_high)
      (read i ge (by omega)) (read j (by omega) le_high) typed typed').1 le
  · intro i j ge le ge' le' typed typed'
    exact (ascending i j _ _ (grouped i ge le) (grouped j ge' le') (read i ge le)
      (read j ge' le') typed typed').2

theorem Brackets.region {tables : DebugTables} {type : UInt8} {low high left right : Int}
    {addr : UInt32} (brackets : Brackets (entryOf tables) type low high addr left right)
    (nonneg : 0 ≤ low) (opens : Stab → Prop) (first : Int) (first_le : first ≤ low)
    (outer : ∀ i, low ≤ i → (Region tables opens first i ↔ i ≤ high)) (i : Int) :
    Region tables (fun stab => opens stab ∨ stab.nType = type) left i ↔ left ≤ i ∧ i ≤ right := by
  have left_ge := brackets.greatest.1.1
  have right_le := brackets.right_le
  constructor
  · rintro ⟨ge, inside, none⟩
    refine ⟨ge, ?_⟩
    by_contra above
    rcases brackets.next with same | typed
    · have out : ¬ Region tables opens first i := by
        rw [outer i (by omega)]
        omega
      have inner : Region tables opens first right := by
        rw [outer right (by have := brackets.left_le; omega)]
        omega
      apply out
      refine ⟨by omega, inside, fun j stab gt le read opened => ?_⟩
      by_cases early : j ≤ right
      · exact inner.2.2 j stab gt early read opened
      · exact none j stab (by have := brackets.left_le; omega) le read (.inl opened)
    · have left_le := brackets.left_le
      exact none (right + 1) (entryOf tables (right + 1)) (by omega) (by omega)
        ((at_eq_some tables _ _).2 ⟨by omega, by omega, rfl⟩) (.inr typed)
  · rintro ⟨ge, le⟩
    have inner := (outer i (by omega)).2 (by omega)
    refine ⟨ge, inner.2.1, fun j stab gt le' read opened => ?_⟩
    rcases opened with opened | typed
    · exact inner.2.2 j stab (by omega) le' read opened
    · have same := ((at_eq_some tables j stab).1 read).2.2
      exact brackets.none_between j gt (by omega) (same ▸ typed)

theorem countArguments_correct {stabs : Stabs} {entry : Int → Stab} {low high : Int}
    (holds : Holds stabs entry low high) (lfun rfun stop : Int) (low_le : low ≤ lfun)
    (le_high : rfun ≤ high) (after : lfun < stop) (before : stop ≤ rfun)
    (other : (entry stop).nType ≠ nPSYM) :
    ∃ narg : Nat, countArguments stabs lfun rfun 0 = .done narg ∧
      lfun + 1 + narg ≤ stop ∧ (entry (lfun + 1 + narg)).nType ≠ nPSYM ∧
      ∀ k : Nat, k < narg → (entry (lfun + 1 + k)).nType = nPSYM := by
  let inv := fun state : Int × Int => 0 ≤ state.2 ∧ state.1 = lfun + 1 + state.2 ∧
    state.1 ≤ stop ∧ ∀ k : Int, 0 ≤ k → k < state.2 → (entry (lfun + 1 + k)).nType = nPSYM
  let post := fun narg : Int => 0 ≤ narg ∧ lfun + 1 + narg ≤ stop ∧
    (entry (lfun + 1 + narg)).nType ≠ nPSYM ∧
    ∀ k : Int, 0 ≤ k → k < narg → (entry (lfun + 1 + k)).nType = nPSYM
  have progress (state : Int × Int) (kept : inv state) :
      Loop.Progress (argumentPass stabs rfun) inv (fun state => (rfun - state.1).toNat) post
        state := by
    obtain ⟨lline, narg⟩ := state
    obtain ⟨nonneg, place, le_stop, run⟩ := kept
    dsimp only at nonneg place le_stop run
    by_cases inside : lline < rfun
    · have read : hasType stabs nPSYM lline = .done (decide ((entry lline).nType = nPSYM)) :=
        hasType_holds holds lline (by omega) (by omega)
      by_cases parameter : (entry lline).nType = nPSYM
      · left
        refine ⟨(lline + 1, narg + 1), by simp [argumentPass, inside, read, parameter],
          ⟨by dsimp only; omega, by dsimp only; omega, ?_, ?_⟩, by dsimp only; omega⟩
        · dsimp only
          by_contra past
          have same : lline = stop := by omega
          exact other (same ▸ parameter)
        · intro k ge lt
          dsimp only at lt
          by_cases last : k = narg
          · rw [last, ← place]
            exact parameter
          · exact run k ge (by omega)
      · right
        exact ⟨narg, by simp [argumentPass, inside, read, parameter], nonneg, by omega,
          by rw [← place]; exact parameter, run⟩
    · right
      have same : lline = stop := by omega
      exact ⟨narg, by simp [argumentPass, inside], nonneg, by omega,
        by rw [← place, same]; exact other, run⟩
  obtain ⟨narg, ran, nonneg, le_stop, ended, run⟩ :=
    Loop.run_correct inv (fun state => (rfun - state.1).toNat) post progress
      ((rfun - lfun).toNat + 1) (lfun + 1, 0)
      ⟨le_rfl, by dsimp only; omega, by dsimp only; omega,
        fun k ge lt => by dsimp only at lt; omega⟩ (by dsimp only; omega)
  obtain ⟨count, rfl⟩ := Int.eq_ofNat_of_zero_le nonneg
  refine ⟨count, ?_, le_stop, ended, fun k lt => run k (by omega) (by omega)⟩
  rw [countArguments, if_pos (by omega)]
  exact ran

theorem takeWhile_length {α : Type} (p : α → Bool) (xs : List α) (n : Nat) (short : n < xs.length)
    (run : ∀ k (inside : k < xs.length), k < n → p xs[k] = true) (ended : p xs[n] = false) :
    (xs.takeWhile p).length = n := by
  have place : xs.findIdx (fun x => !p x) = n := by
    rw [List.findIdx_eq short]
    exact ⟨by simp [ended], fun k lt => by simp [run k (by omega) lt]⟩
  rw [List.takeWhile_eq_take_findIdx_not, place, List.length_take]
  omega

def argumentRun (tables : DebugTables) (function : Int) : Nat :=
  ((tables.stabs.drop (function.toNat + 1)).takeWhile (·.nType == nPSYM)).length

theorem countArguments_run (tables : DebugTables) (lfun rfun stop : Int) (nonneg : 0 ≤ lfun)
    (inside : rfun < tables.stabs.length) (after : lfun < stop) (before : stop ≤ rfun)
    (other : (entryOf tables stop).nType ≠ nPSYM) :
    countArguments tables.at lfun rfun 0 = .done (argumentRun tables lfun) := by
  obtain ⟨narg, counted, le_stop, ended, run⟩ :=
    countArguments_correct (at_holds tables) lfun rfun stop nonneg (by omega) after before other
  have read (k : Nat) (lt : lfun.toNat + 1 + k < tables.stabs.length) :
      entryOf tables (lfun + 1 + k) = tables.stabs[lfun.toNat + 1 + k] := by
    have index : (lfun + 1 + k).toNat = lfun.toNat + 1 + k := by omega
    simp [entryOf, index, lt]
  rw [counted, argumentRun, takeWhile_length _ _ narg]
  · rw [List.length_drop]
    omega
  · intro k _ lt
    rw [List.getElem_drop, ← read k (by omega), beq_iff_eq]
    exact run k lt
  · rw [List.getElem_drop, ← read narg (by omega), beq_eq_false_iff_ne]
    exact ended

def NamesFile (stab : Stab) : Prop := stab.nType = nSOL ∨ stab.nType = nSO ∧ stab.nValue ≠ 0

instance (stab : Stab) : Decidable (NamesFile stab) :=
  inferInstanceAs (Decidable (stab.nType = nSOL ∨ stab.nType = nSO ∧ stab.nValue ≠ 0))

theorem namesFile_holds {stabs : Stabs} {entry : Int → Stab} {low high : Int}
    (holds : Holds stabs entry low high) (i : Int) (low_le : low ≤ i) (le_high : i ≤ high) :
    namesFile stabs i = .done (decide (NamesFile (entry i))) := by
  simp only [namesFile, stabAt, holds i low_le le_high, Outcome.need_some, Outcome.done_bind,
    Outcome.pure_eq]
  rfl

theorem fileInfo_correct (tables : DebugTables) (lfile lline : Int) (info : Eipdebuginfo)
    (nonneg : 0 ≤ lfile) (le : lfile ≤ lline) (inside : lline < tables.stabs.length)
    (named : NamesFile (entryOf tables lfile)) :
    ∃ k source, LastStab tables (fun i stab => i ≤ lline ∧ NamesFile stab) k source ∧
      fileInfo tables lfile lline info =
        .done { info with eipFile := tables.name source info.eipFile } := by
  have holds := at_holds tables
  obtain ⟨k, scanned, last⟩ := Scan.down_last (namesFile tables.at)
    (fun i => NamesFile (entryOf tables i)) lfile lline
    (fun i ge le => namesFile_holds holds i (by omega) (by omega))
  have found : lfile ≤ k := last.found_of_mem le_rfl le named
  have below := last.le_start
  have read := holds k (by omega) (by omega)
  refine ⟨k, entryOf tables k, ⟨read, ⟨⟨_, read, below, last.holds found⟩, ?_⟩⟩, ?_⟩
  · rintro j ⟨other, read', le', names⟩
    have same := ((at_eq_some tables j other).1 read').2.2
    by_cases early : j < lfile
    · omega
    · exact last.found_of_mem (by omega) le' (same ▸ names)
  · simp [fileInfo, scanned, found, stabAt, read]

theorem name_terminated (tables : DebugTables) (strings : tables.stabstr.getLast? = some 0)
    (stab : Stab) (otherwise : DebugName) (terminated : 0 ∈ tables.chars otherwise) :
    0 ∈ tables.chars (tables.name stab otherwise) := by
  unfold DebugTables.name
  split
  next inside =>
    have rest : (tables.stabstr.drop stab.nStrx.toNat).getLast? = some 0 := by
      rw [List.getLast?_drop, if_neg (by omega), strings]
    exact List.mem_of_getLast? rest
  next => exact terminated

theorem LastStab.inside {tables : DebugTables} {p : Int → Stab → Prop} {i : Int} {stab : Stab}
    (last : LastStab tables p i stab) :
    0 ≤ i ∧ i < tables.stabs.length ∧ entryOf tables i = stab ∧ p i stab := by
  obtain ⟨read, ⟨other, read', holds⟩, -⟩ := last
  obtain ⟨nonneg, below, same⟩ := (at_eq_some tables i stab).1 read
  rw [read] at read'
  cases read'
  exact ⟨nonneg, below, same, holds⟩

theorem search_last {tables : DebugTables} {type : UInt8} {low high : Int} {addr : UInt32}
    {p : Int → Stab → Prop} {i : Int} {stab : Stab} (last : LastStab tables p i stab)
    (nonneg : 0 ≤ low) (inside : high < tables.stabs.length) (low_le : low ≤ i) (le_high : i ≤ high)
    (typed : stab.nType = type) (small : stab.nValue ≤ addr) (room : addr.toNat < 4294967295)
    (sorted : Sorted (entryOf tables) type low high)
    (qualifies : ∀ j, i ≤ j → j ≤ high → (entryOf tables j).nType = type →
      (entryOf tables j).nValue ≤ addr → p j (entryOf tables j)) :
    ∃ right, stabBinsearch tables.at low high type addr = .done (i, right) ∧
      Brackets (entryOf tables) type low high addr i right := by
  have holds : Holds tables.at (entryOf tables) low high :=
    (at_holds tables).narrow _ _ nonneg (by omega)
  obtain ⟨-, -, same, -⟩ := last.inside
  have member : (entryOf tables i).nType = type ∧ (entryOf tables i).nValue ≤ addr := by
    rw [same]
    exact ⟨typed, small⟩
  obtain ⟨left, right, ran, brackets⟩ :=
    stabBinsearch_sorted holds nonneg addr room sorted ⟨i, low_le, le_high, member⟩
  have ge : i ≤ left := brackets.greatest.2 ⟨low_le, le_high, member⟩
  obtain ⟨-, le, typed', small'⟩ := brackets.greatest.1
  have le' : left ≤ i := last.2.2
    ⟨entryOf tables left, holds left (by omega) le, qualifies left ge le typed' small'⟩
  obtain rfl : left = i := by omega
  exact ⟨right, ran, brackets⟩

section Searches

variable {tables : DebugTables} (wellFormed : WellFormed tables) {addr : UInt32}
  (room : addr.toNat ≤ 2 ^ 32 - 2)

include wellFormed room

theorem fileSearch_correct {f : Int} {file : Stab}
    (lastFile : LastStab tables
      (fun _ stab => stab.nType = nSO ∧ 0 < stab.nValue ∧ stab.nValue ≤ addr) f file) :
    ∃ rfile, stabBinsearch tables.at 0 (tables.stabs.length - 1) nSO addr = .done (f, rfile) ∧
      rfile < tables.stabs.length ∧ ∀ i, FileRegion tables f i ↔ f ≤ i ∧ i ≤ rfile := by
  obtain ⟨nonneg, inside, same, typed, positive, small⟩ := lastFile.inside
  have sorted := wellFormed.files.sorted 0 (tables.stabs.length - 1) le_rfl (by omega)
    (fun _ _ _ => trivial)
  obtain ⟨rfile, ran, brackets⟩ := search_last lastFile le_rfl (by omega) nonneg
    (by omega) typed small (by omega) sorted (fun j ge le typed' small' => by
      refine ⟨typed', UInt32.lt_of_lt_of_le positive ?_, small'⟩
      rw [← same]
      exact sorted.mono f j nonneg ge le (by rw [same, typed]) typed')
  have right_le := brackets.right_le
  refine ⟨rfile, ran, by omega, fun i => ?_⟩
  have region := brackets.region le_rfl (fun _ => False) 0 le_rfl (fun i ge => by
    unfold Region
    simp only [not_false_eq_true, implies_true, and_true]
    omega) i
  simpa only [false_or, FileRegion] using region

theorem functionSearch_correct {f g rfile : Int} {file function : Stab}
    (read : tables.at f = some file) (typed : file.nType = nSO) (nonneg : 0 ≤ f)
    (inside : rfile < tables.stabs.length)
    (region : ∀ i, FileRegion tables f i ↔ f ≤ i ∧ i ≤ rfile)
    (lastFunction : LastStab tables
      (fun i stab => FileRegion tables f i ∧ stab.nType = nFUN ∧ stab.nValue ≤ addr) g function) :
    ∃ rfun, stabBinsearch tables.at f rfile nFUN addr = .done (g, rfun) ∧ g ≤ rfun ∧
      rfun ≤ rfile ∧ ∀ i, FunctionRegion tables g i ↔ g ≤ i ∧ i ≤ rfun := by
  obtain ⟨-, -, -, g_region, g_typed, g_small⟩ := lastFunction.inside
  obtain ⟨ge, le⟩ := (region g).1 g_region
  have sorted := (wellFormed.functions f file read typed).sorted f rfile nonneg
    (by omega) (fun i ge le => (region i).2 ⟨ge, le⟩)
  obtain ⟨rfun, ran, brackets⟩ := search_last lastFunction nonneg (by omega)
    ge le g_typed g_small (by omega) sorted
    (fun j ge le typed small => ⟨(region j).2 ⟨by omega, le⟩, typed, small⟩)
  refine ⟨rfun, ran, brackets.left_le, brackets.right_le, ?_⟩
  exact brackets.region nonneg (fun stab => stab.nType = nSO) f le_rfl (fun i ge => by
    have region := region i
    unfold FileRegion at region
    rw [region]
    omega)

theorem lineSearch_correct {g h rfun : Int} {function line : Stab}
    (read : tables.at g = some function) (typed : function.nType = nFUN)
    (small : function.nValue ≤ addr) (nonneg : 0 ≤ g) (inside : rfun < tables.stabs.length)
    (region : ∀ i, FunctionRegion tables g i ↔ g ≤ i ∧ i ≤ rfun)
    (lastLine : LastStab tables
      (fun i stab => FunctionRegion tables g i ∧ stab.nType = nSLINE ∧
        stab.nValue ≤ addr - function.nValue) h line) :
    ∃ rline, stabBinsearch tables.at g rfun nSLINE (addr - function.nValue) = .done (h, rline) ∧
      h ≤ rline ∧ g < h ∧ h ≤ rfun := by
  obtain ⟨-, -, same, h_region, h_typed, h_small⟩ := lastLine.inside
  obtain ⟨ge, le⟩ := (region h).1 h_region
  have sorted := (wellFormed.lines g function read typed).sorted g rfun nonneg
    (by omega) (fun i ge le => (region i).2 ⟨ge, le⟩)
  have below : (addr - function.nValue).toNat < 4294967295 := by
    rw [UInt32.toNat_sub_of_le _ _ small]
    omega
  obtain ⟨rline, ran, brackets⟩ := search_last lastLine nonneg (by omega) ge le h_typed h_small
    below sorted (fun j ge le typed small => ⟨(region j).2 ⟨by omega, le⟩, typed, small⟩)
  have later : g ≠ h := by
    rintro rfl
    have function_entry := ((at_eq_some tables g function).1 read).2.2
    rw [same] at function_entry
    rw [← function_entry, h_typed] at typed
    exact absurd typed (by decide)
  exact ⟨rline, ran, brackets.left_le, by omega, le⟩

end Searches

theorem debuginfoEip_symbolizes (tables : DebugTables) (wellFormed : WellFormed tables)
    (addr : UInt32) (kernel : ulim ≤ addr) (room : addr.toNat ≤ 2 ^ 32 - 2) (f g h : Int)
    (file function line : Stab)
    (lastFile : LastStab tables
      (fun _ stab => stab.nType = nSO ∧ 0 < stab.nValue ∧ stab.nValue ≤ addr) f file)
    (lastFunction : LastStab tables
      (fun i stab => FileRegion tables f i ∧ stab.nType = nFUN ∧ stab.nValue ≤ addr) g function)
    (lastLine : LastStab tables
      (fun i stab => FunctionRegion tables g i ∧ stab.nType = nSLINE ∧
        stab.nValue ≤ addr - function.nValue) h line) :
    ∃ k source, LastStab tables (fun i stab => i ≤ h ∧ NamesFile stab) k source ∧
      debuginfoEip tables addr = .done (0,
        { eipFile := tables.name source .unknown
          eipLine := line.nDesc.toNat
          eipFnName := tables.name function .unknown
          eipFnNamelen := (tables.chars (tables.name function .unknown)).findIdx
            fun byte => byte == 0 || byte == 58
          eipFnAddr := function.nValue
          eipFnNarg := argumentRun tables g }) := by
  obtain ⟨f_nonneg, f_inside, f_entry, f_typed, f_pos, -⟩ := lastFile.inside
  obtain ⟨-, -, -, g_region, g_typed, g_small⟩ := lastFunction.inside
  obtain ⟨-, -, h_entry, -, h_typed, -⟩ := lastLine.inside
  obtain ⟨rfile, file_ran, rfile_lt, f_region⟩ := fileSearch_correct wellFormed room lastFile
  obtain ⟨f_le_g, -⟩ := (f_region g).1 g_region
  obtain ⟨rfun, function_ran, g_le, rfun_le, g_region'⟩ := functionSearch_correct wellFormed room
    lastFile.1 f_typed f_nonneg rfile_lt f_region lastFunction
  obtain ⟨rline, line_ran, le_rline, g_lt_h, h_le⟩ := lineSearch_correct wellFormed room
    lastFunction.1 g_typed g_small (by omega) (by omega) g_region' lastLine
  have f_ne : f ≠ 0 := by
    rintro rfl
    exact wellFormed.first file lastFile.1 f_typed
  have not_parameter : (entryOf tables h).nType ≠ nPSYM := by
    rw [h_entry, h_typed]
    decide
  have file_names : NamesFile (entryOf tables f) := by
    refine .inr ⟨by rw [f_entry, f_typed], ?_⟩
    rw [f_entry]
    rintro zero
    rw [zero] at f_pos
    exact absurd f_pos (by decide)
  obtain ⟨k, source, lastSource, file_found⟩ := fileInfo_correct tables f h
    { eipFile := .unknown
      eipLine := line.nDesc.toNat
      eipFnName := tables.name function .unknown
      eipFnNamelen := (tables.chars (tables.name function .unknown)).findIdx
        fun byte => byte == 0 || byte == 58
      eipFnAddr := function.nValue
      eipFnNarg := 0 } f_nonneg (by omega) (by omega) file_names
  have counted := countArguments_run tables g rfun h (by omega) (by omega) g_lt_h h_le not_parameter
  have named := strfind_correct (tables.chars (tables.name function .unknown)) 58
    (name_terminated tables wellFormed.strings function .unknown
      (show 0 ∈ unknownChars by decide))
  have function_read : stabAt tables.at g = .done function := by
    simp [stabAt, lastFunction.1]
  have line_read : stabAt tables.at h = .done line := by
    simp [stabAt, lastLine.1]
  refine ⟨k, source, lastSource, ?_⟩
  have not_user : ¬ addr < ulim := UInt32.not_lt.mpr kernel
  simp [debuginfoEip, lineInfo, not_user, wellFormed.strings, file_ran, f_ne, function_ran, functionInfo,
    g_le, function_read, initialInfo, named, line_ran, le_rline,
    line_read, file_found, counted]

def sampleTables : DebugTables :=
  { stabs := [⟨0, 0, 0, 0⟩, ⟨1, nSO, 0, 0xf0100000⟩, ⟨3, nFUN, 0, 0xf0100000⟩, ⟨0, nSLINE, 7, 2⟩]
    stabstr := [0, 97, 0, 102, 58, 70, 0] }

theorem sampleTables_at (i : Int) (stab : Stab) (read : sampleTables.at i = some stab) :
    i = 0 ∧ stab = ⟨0, 0, 0, 0⟩ ∨ i = 1 ∧ stab = ⟨1, nSO, 0, 0xf0100000⟩ ∨
      i = 2 ∧ stab = ⟨3, nFUN, 0, 0xf0100000⟩ ∨ i = 3 ∧ stab = ⟨0, nSLINE, 7, 2⟩ := by
  obtain ⟨nonneg, below, rfl⟩ := (at_eq_some sampleTables i stab).1 read
  have four : sampleTables.stabs.length = 4 := rfl
  rw [four] at below
  interval_cases i <;> simp [entryOf, sampleTables]

theorem sampleTables_ascending (type : UInt8) (group : Int → Prop) :
    type ≠ 0 → Ascending sampleTables type group := by
  intro other i j a b _ _ read read' typed typed'
  rcases sampleTables_at i a read with ⟨rfl, rfl⟩ | ⟨rfl, rfl⟩ | ⟨rfl, rfl⟩ | ⟨rfl, rfl⟩ <;>
    rcases sampleTables_at j b read' with ⟨rfl, rfl⟩ | ⟨rfl, rfl⟩ | ⟨rfl, rfl⟩ | ⟨rfl, rfl⟩ <;>
    dsimp only at typed typed' <;> subst type <;>
    first | exact absurd typed' (by decide) | exact absurd rfl other | exact ⟨fun _ => by decide, by decide⟩

theorem sampleTables_wellFormed : WellFormed sampleTables where
  strings := rfl
  first := by
    rintro stab read
    cases read
    decide
  files := sampleTables_ascending nSO _ (by decide)
  functions := fun i _ _ _ => sampleTables_ascending nFUN _ (by decide)
  lines := fun i _ _ _ => sampleTables_ascending nSLINE _ (by decide)

theorem sampleTables_last (p : Int → Stab → Prop) (i : Int) (stab : Stab)
    (read : sampleTables.at i = some stab) (holds : p i stab) (type : UInt8)
    (typed : ∀ j other, p j other → other.nType = type) : LastStab sampleTables p i stab := by
  refine ⟨read, ⟨stab, read, holds⟩, ?_⟩
  rintro j ⟨other, read', holds'⟩
  have typed_i := typed i stab holds
  have typed_j := typed j other holds'
  rcases sampleTables_at i stab read with ⟨rfl, rfl⟩ | ⟨rfl, rfl⟩ | ⟨rfl, rfl⟩ | ⟨rfl, rfl⟩ <;>
    rcases sampleTables_at j other read' with ⟨rfl, rfl⟩ | ⟨rfl, rfl⟩ | ⟨rfl, rfl⟩ | ⟨rfl, rfl⟩ <;>
    dsimp only at typed_i typed_j <;> subst type <;>
    first | omega | exact absurd typed_j (by decide)

theorem sampleTables_file : LastStab sampleTables
    (fun _ stab => stab.nType = nSO ∧ 0 < stab.nValue ∧ stab.nValue ≤ 0xf0100005) 1
    ⟨1, nSO, 0, 0xf0100000⟩ :=
  sampleTables_last _ 1 _ rfl (by decide) nSO fun _ _ found => found.1

theorem sampleTables_function : LastStab sampleTables
    (fun i stab => FileRegion sampleTables 1 i ∧ stab.nType = nFUN ∧ stab.nValue ≤ 0xf0100005) 2
    ⟨3, nFUN, 0, 0xf0100000⟩ := by
  apply sampleTables_last _ 2 _ rfl _ nFUN fun _ _ found => found.2.1
  refine ⟨⟨by decide, by decide, fun j stab gt le read => ?_⟩, by decide⟩
  rcases sampleTables_at j stab read with ⟨rfl, rfl⟩ | ⟨rfl, rfl⟩ | ⟨rfl, rfl⟩ | ⟨rfl, rfl⟩ <;>
    first | omega | decide

theorem sampleTables_line : LastStab sampleTables
    (fun i stab => FunctionRegion sampleTables 2 i ∧ stab.nType = nSLINE ∧
      stab.nValue ≤ 0xf0100005 - 0xf0100000) 3 ⟨0, nSLINE, 7, 2⟩ := by
  apply sampleTables_last _ 3 _ rfl _ nSLINE fun _ _ found => found.2.1
  refine ⟨⟨by decide, by decide, fun j stab gt le read => ?_⟩, by decide⟩
  rcases sampleTables_at j stab read with ⟨rfl, rfl⟩ | ⟨rfl, rfl⟩ | ⟨rfl, rfl⟩ | ⟨rfl, rfl⟩ <;>
    first | omega | decide

theorem sampleTables_symbolized :
    ∃ k source, LastStab sampleTables (fun i stab => i ≤ 3 ∧ NamesFile stab) k source ∧
      debuginfoEip sampleTables 0xf0100005 = .done (0,
        { eipFile := sampleTables.name source .unknown
          eipLine := 7
          eipFnName := .stabstr 3
          eipFnNamelen := 1
          eipFnAddr := 0xf0100000
          eipFnNarg := 0 }) :=
  debuginfoEip_symbolizes sampleTables sampleTables_wellFormed 0xf0100005 (by decide) (by decide)
    1 2 3 _ _ _ sampleTables_file sampleTables_function sampleTables_line

def bareTables : DebugTables := { sampleTables with stabstr := [] }

theorem bareTables_missed :
    ulim ≤ (0xf0100005 : UInt32) ∧ (0xf0100005 : UInt32).toNat ≤ 2 ^ 32 - 2 ∧
    ((∀ stab, bareTables.at 0 = some stab → stab.nType ≠ nSO) ∧
      Ascending bareTables nSO (fun _ => True) ∧
      (∀ i file, bareTables.at i = some file → file.nType = nSO →
        Ascending bareTables nFUN (FileRegion bareTables i)) ∧
      ∀ i function, bareTables.at i = some function → function.nType = nFUN →
        Ascending bareTables nSLINE (FunctionRegion bareTables i)) ∧
    LastStab bareTables
      (fun _ stab => stab.nType = nSO ∧ 0 < stab.nValue ∧ stab.nValue ≤ 0xf0100005) 1
      ⟨1, nSO, 0, 0xf0100000⟩ ∧
    LastStab bareTables
      (fun i stab => FileRegion bareTables 1 i ∧ stab.nType = nFUN ∧ stab.nValue ≤ 0xf0100005) 2
      ⟨3, nFUN, 0, 0xf0100000⟩ ∧
    LastStab bareTables
      (fun i stab => FunctionRegion bareTables 2 i ∧ stab.nType = nSLINE ∧
        stab.nValue ≤ 0xf0100005 - 0xf0100000) 3 ⟨0, nSLINE, 7, 2⟩ ∧
    debuginfoEip bareTables 0xf0100005 = .done (-1, initialInfo 0xf0100005) :=
  ⟨by decide, by decide, ⟨sampleTables_wellFormed.first, sampleTables_wellFormed.files,
    sampleTables_wellFormed.functions, sampleTables_wellFormed.lines⟩, sampleTables_file,
    sampleTables_function, sampleTables_line, rfl⟩

end JosLab.Kdebug
