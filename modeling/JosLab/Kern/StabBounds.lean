import JosLab.Kern.Symbolize

set_option autoImplicit false

namespace JosLab.Kdebug

-- From the range `[l, r]` every probe finds a greater value, down to the entry at `l` itself,
-- so that the search ends with nothing left: its right end is `l - 1`.
inductive Falls (entry : Int → Stab) (type : UInt8) (l : Int) (key : UInt32) : Int → Prop where
  | bottom {r : Int} (hit : Hit entry type l r l) (more : key < (entry l).nValue) :
      Falls entry type l key r
  | left {r : Int} (m : Int) (hit : Hit entry type l r m) (more : key < (entry m).nValue)
      (rest : Falls entry type l key (m - 1)) : Falls entry type l key r

structure Wraps (entry : Int → Stab) (type : UInt8) (l r : Int) (key : UInt32) : Prop where
  hit : Hit entry type l r l
  same : (entry l).nValue = key
  top : key = 0xffffffff

variable {stabs : Stabs} {entry : Int → Stab} {type : UInt8} {low high : Int}

theorem Hit.unique {l r m n : Int} (first : Hit entry type l r m) (second : Hit entry type l r n) :
    m = n := by
  by_contra other
  rcases lt_or_gt_of_ne other with lt | gt
  · exact first.last n lt second.le second.typed
  · exact second.last m gt first.le first.typed

theorem Falls.first {l r : Int} {key : UInt32} (falls : Falls entry type l key r) :
    ∃ m, Hit entry type l r m ∧ key < (entry m).nValue := by
  cases falls with
  | bottom hit more => exact ⟨l, hit, more⟩
  | left m hit more rest => exact ⟨m, hit, more⟩

theorem Falls.last {l r : Int} {key : UInt32} (falls : Falls entry type l key r) :
    (entry l).nType = type ∧ key < (entry l).nValue := by
  induction falls with
  | bottom hit more => exact ⟨hit.typed, more⟩
  | left m hit more rest ih => exact ih

theorem Hit.falls_iff {l r m : Int} {key : UInt32} (hit : Hit entry type l r m) :
    Falls entry type l key r ↔
      key < (entry m).nValue ∧ (m = l ∨ Falls entry type l key (m - 1)) := by
  constructor
  · intro falls
    cases falls with
    | bottom hit' more =>
      obtain rfl := hit.unique hit'
      exact ⟨more, .inl rfl⟩
    | left n hit' more rest =>
      obtain rfl := hit.unique hit'
      exact ⟨more, .inr rest⟩
  · rintro ⟨more, rfl | rest⟩
    · exact .bottom hit more
    · exact .left m hit more rest

theorem Hit.wraps_iff {l r m : Int} {key : UInt32} (hit : Hit entry type l r m) :
    Wraps entry type l r key ↔ m = l ∧ (entry m).nValue = key ∧ key = 0xffffffff := by
  constructor
  · intro wraps
    obtain rfl := hit.unique wraps.hit
    exact ⟨rfl, wraps.same, wraps.top⟩
  · rintro ⟨rfl, same, top⟩
    exact ⟨hit, same, top⟩

theorem not_bottom {l r : Int} {key : UInt32}
    (none : ∀ i, l ≤ i → i ≤ (l + r) / 2 → (entry i).nType ≠ type) :
    ¬ (Falls entry type l key r ∨ Wraps entry type l r key) := by
  rintro (falls | wraps)
  · obtain ⟨m, hit, -⟩ := falls.first
    exact none m hit.ge hit.le hit.typed
  · exact none l wraps.hit.ge wraps.hit.le wraps.hit.typed

theorem lt_add_one_iff (a : UInt32) : a + 1 < a ↔ a = 0xffffffff := by
  rw [UInt32.lt_iff_toNat_lt, ← UInt32.toNat_inj, UInt32.toNat_add]
  have bound := a.toNat_lt
  simp only [UInt32.reduceToNat]
  omega

theorem not_top_lt (a : UInt32) : ¬ (0xffffffff : UInt32) < a := by
  rw [UInt32.lt_iff_toNat_lt]
  have bound := a.toNat_lt
  simp only [UInt32.reduceToNat]
  omega

theorem run_keeps (holds : Holds stabs entry low high) (nonneg : 0 ≤ low) (fuel : Nat)
    (s last : Search) (window : Window entry type low high s)
    (ran : Loop.run (binsearchPass stabs type) fuel s = .done last) (inv : Search → Prop)
    (initial : inv s)
    (preserved : ∀ t next, Window entry type low high t → inv t → t.l ≤ t.r →
      Probe entry type t next → inv next) :
    Window entry type low high last ∧ inv last ∧ last.l = last.r + 1 := by
  induction fuel generalizing s with
  | zero => simp [Loop.run] at ran
  | succ fuel ih =>
    by_cases opened : s.l ≤ s.r
    · obtain ⟨next, step, probe⟩ := binsearchPass_probe type holds s nonneg
        window.low_le window.le_high opened
      rw [Loop.run_again fuel step] at ran
      exact ih next (window.probe opened probe) ran (preserved s next window initial opened probe)
    · rw [Loop.run_leave fuel (binsearchPass_leave s (by omega))] at ran
      cases ran
      have near := window.near
      exact ⟨window, initial, by omega⟩

theorem run_right_ge (holds : Holds stabs entry low high) (nonneg : 0 ≤ low) (fuel : Nat)
    (s last : Search) (window : Window entry type low high s)
    (ran : Loop.run (binsearchPass stabs type) fuel s = .done last) : s.l - 1 ≤ last.r := by
  obtain ⟨-, grown, closed⟩ := run_keeps holds nonneg fuel s last window ran (fun t => s.l ≤ t.l)
    le_rfl (by
      intro t next _ grown opened probe
      cases probe with
      | miss none => dsimp only; omega
      | below m hit less => dsimp only; omega
      | above m hit less => exact grown
      | exact m hit same => exact grown.trans hit.ge)
  omega

theorem run_bottom (holds : Holds stabs entry low high) (nonneg : 0 ≤ low) (fuel : Nat)
    (s last : Search) (window : Window entry type low high s) (opened : s.l ≤ s.r)
    (ran : Loop.run (binsearchPass stabs type) fuel s = .done last) :
    last.r = s.l - 1 ↔ Falls entry type s.l s.addr s.r ∨ Wraps entry type s.l s.r s.addr := by
  induction fuel generalizing s with
  | zero => simp [Loop.run] at ran
  | succ fuel ih =>
    obtain ⟨next, step, probe⟩ := binsearchPass_probe type holds s nonneg
      window.low_le window.le_high opened
    rw [Loop.run_again fuel step] at ran
    have kept := window.probe opened probe
    have ge := run_right_ge holds nonneg fuel next last kept ran
    cases probe with
    | miss none =>
      dsimp only at ge
      have up : last.r ≠ s.l - 1 := by omega
      exact iff_of_false up (not_bottom none)
    | below m hit less =>
      dsimp only at ge
      have up : last.r ≠ s.l - 1 := by omega
      rw [hit.falls_iff, hit.wraps_iff]
      simp [up, UInt32.lt_asymm less, UInt32.ne_of_lt less]
    | above m hit less =>
      rw [hit.falls_iff, hit.wraps_iff]
      have other : (entry m).nValue ≠ s.addr := (UInt32.ne_of_lt less).symm
      have hit_ge := hit.ge
      by_cases bottom : m = s.l
      · have fell : last.r = s.l - 1 := by
          cases fuel with
          | zero => simp [Loop.run] at ran
          | succ fuel =>
            rw [Loop.run_leave fuel (binsearchPass_leave _ (by dsimp only; omega))] at ran
            cases ran
            dsimp only
            omega
        exact iff_of_true fell (.inl ⟨less, .inl bottom⟩)
      · have rest := ih _ kept (by dsimp only; omega) ran
        have inner : ¬ Wraps entry type s.l (m - 1) s.addr := by
          intro wraps
          rw [wraps.top] at less
          exact not_top_lt _ less
        dsimp only at rest
        rw [rest]
        simp [inner, less, bottom]
    | exact m hit same =>
      have hit_ge := hit.ge
      have not_falls : ¬ s.addr < (entry m).nValue := same ▸ UInt32.lt_irrefl _
      by_cases bottom : m = s.l
      · -- The same range again, with the key after this one.
        rw [hit.falls_iff, hit.wraps_iff]
        subst bottom
        have rest := ih _ kept (by dsimp only; exact opened) ran
        dsimp only at rest
        rw [rest, hit.falls_iff, hit.wraps_iff, same, lt_add_one_iff]
        simp
      · dsimp only at ge
        have up : last.r ≠ s.l - 1 := by omega
        rw [hit.falls_iff, hit.wraps_iff]
        simp [up, not_falls, bottom]

theorem stabBinsearch_bottom (holds : Holds stabs entry low high) (nonneg : 0 ≤ low)
    (addr : UInt32) (opened : low ≤ high) (left right : Int)
    (ran : stabBinsearch stabs low high type addr = .done (left, right)) :
    (left = low - 1 ↔ Falls entry type low addr high ∨ Wraps entry type low high addr) ∧
      (left = low - 1 → right = low - 1) := by
  obtain ⟨last, left', right', ran', ended, window, -, closed, outputs⟩ :=
    stabBinsearch_run type holds nonneg addr (by omega) (fun _ => True) trivial
      (fun _ _ _ _ _ _ => trivial)
  rw [ran] at ran'
  cases ran'
  have bottom : last.r = low - 1 ↔ Falls entry type low addr high ∨ Wraps entry type low high addr :=
    run_bottom holds nonneg _ _ last (Window.initial addr (by omega)) opened ended
  have low_le := window.low_le
  have left_ge := window.left_ge
  rw [← bottom]
  rcases outputs with ⟨fresh, rfl, rfl⟩ | ⟨-, rfl, scan⟩
  · have all := (window.fresh fresh).2.1
    constructor <;> omega
  · have le_start := scan.le_start
    have near_low := scan.near_low
    constructor <;> omega

structure TopFile (entry : Int → Stab) (type : UInt8) (l r : Int) : Prop where
  typed : (entry 2).nType = type
  top : (entry 2).nValue = 0xffffffff
  last : ∀ i, 2 < i → i ≤ (l + r) / 2 → (entry i).nType ≠ type
  falls : Falls entry type 2 0 r

theorem run_top_backward (holds : Holds stabs entry 0 high) (first : (entry 0).nType ≠ type)
    (second : (entry 1).nType ≠ type) (fuel : Nat) (s last : Search)
    (window : Window entry type 0 high s) (fresh : s.regionLeft = 0) (opened : s.l ≤ s.r)
    (ran : Loop.run (binsearchPass stabs type) fuel s = .done last)
    (right : last.r = 1) (left : last.regionLeft = 2) :
    s.addr = 0xffffffff ∧ TopFile entry type s.l s.r := by
  induction fuel generalizing s with
  | zero => simp [Loop.run] at ran
  | succ fuel ih =>
    obtain ⟨next, step, probe⟩ := binsearchPass_probe type holds s le_rfl
      window.low_le window.le_high opened
    rw [Loop.run_again fuel step] at ran
    have kept := window.probe opened probe
    have ge := run_right_ge holds le_rfl fuel next last kept ran
    have low_le := window.low_le
    have two_le (m : Int) (hit : Hit entry type s.l s.r m) : 2 ≤ m := by
      by_contra small
      have hit_ge := hit.ge
      rcases (by omega : m = 0 ∨ m = 1) with rfl | rfl
      · exact first hit.typed
      · exact second hit.typed
    have continues (unset : next.regionLeft = 0) : next.l ≤ next.r := by
      by_contra closed
      cases fuel with
      | zero => simp [Loop.run] at ran
      | succ fuel =>
        rw [Loop.run_leave fuel (binsearchPass_leave next (by omega))] at ran
        cases ran
        omega
    cases probe with
    | miss none =>
      dsimp only at ge
      obtain ⟨top, file⟩ := ih _ kept fresh (continues fresh) ran
      exact ⟨top, file.typed, file.top, fun i gt le => by omega, file.falls⟩
    | below m hit less =>
      have m_ge := two_le m hit
      have m_le := hit.le
      dsimp only at ge
      omega
    | above m hit less =>
      have top := (ih _ kept fresh (continues fresh) ran).1
      dsimp only at top
      rw [top] at less
      exact absurd less (not_top_lt _)
    | exact m hit same =>
      have m_ge := two_le m hit
      have m_le := hit.le
      dsimp only at ge
      obtain rfl : m = 2 := by omega
      have bottom := (run_bottom holds le_rfl fuel _ last kept (by dsimp only; omega) ran).1
        (by dsimp only; omega)
      dsimp only at bottom
      rcases bottom with falls | wraps
      · have top : s.addr = 0xffffffff := by
          rw [← lt_add_one_iff]
          have more := falls.last.2
          rwa [same] at more
        rw [top] at falls
        exact ⟨top, hit.typed, same.trans top, hit.last, falls⟩
      · have same' := wraps.same
        rw [same] at same'
        simp at same'

theorem binsearchPass_exact (holds : Holds stabs entry low high) (nonneg : 0 ≤ low) (s : Search)
    (window : Window entry type low high s) (m : Int) (hit : Hit entry type s.l s.r m)
    (same : (entry m).nValue = s.addr) :
    binsearchPass stabs type s = .done (.again (s.matched m)) := by
  have ge := hit.ge
  have le := hit.le
  obtain ⟨next, step, probe⟩ := binsearchPass_probe type holds s nonneg
    window.low_le window.le_high (by omega)
  cases probe with
  | miss none => exact absurd hit.typed (none m ge le)
  | below m' hit' less =>
    rw [← hit.unique hit', same] at less
    exact absurd less (UInt32.lt_irrefl _)
  | above m' hit' less =>
    rw [← hit.unique hit', same] at less
    exact absurd less (UInt32.lt_irrefl _)
  | exact m' hit' same' =>
    rw [step, hit.unique hit']
    rfl

theorem binsearchPass_miss (holds : Holds stabs entry low high) (nonneg : 0 ≤ low) (s : Search)
    (window : Window entry type low high s) (opened : s.l ≤ s.r)
    (none : ∀ i, s.l ≤ i → i ≤ (s.l + s.r) / 2 → (entry i).nType ≠ type) :
    binsearchPass stabs type s = .done (.again { s with l := (s.l + s.r) / 2 + 1 }) := by
  obtain ⟨next, step, probe⟩ := binsearchPass_probe type holds s nonneg
    window.low_le window.le_high opened
  cases probe with
  | miss none => exact step
  | below m hit less => exact absurd hit.typed (none m hit.ge hit.le)
  | above m hit less => exact absurd hit.typed (none m hit.ge hit.le)
  | exact m hit same => exact absurd hit.typed (none m hit.ge hit.le)

theorem run_matched (holds : Holds stabs entry low high) (nonneg : 0 ≤ low) (fuel : Nat)
    (s last : Search) (window : Window entry type low high s) (m : Int)
    (hit : Hit entry type s.l s.r m) (same : (entry m).nValue = s.addr)
    (falls : Falls entry type m (s.addr + 1) s.r)
    (ran : Loop.run (binsearchPass stabs type) fuel (s.matched m) = .done last) :
    last.r = m - 1 ∧ last.regionLeft = m ∧ last.anyMatches = true := by
  have ge := hit.ge
  have le := hit.le
  have kept : Window entry type low high (s.matched m) :=
    window.probe (by omega) (.exact m hit same)
  have opened : (s.matched m).l ≤ (s.matched m).r := by
    dsimp only [Search.matched]
    omega
  have right := (run_bottom holds nonneg fuel _ last kept opened ran).2 (.inl falls)
  obtain ⟨window', ⟨met, grown, left⟩, closed⟩ := run_keeps holds nonneg fuel _ last kept ran
    (fun t => t.anyMatches = true ∧ m ≤ t.l ∧ m ≤ t.regionLeft)
    ⟨rfl, le_rfl, le_rfl⟩ (by
      rintro t next _ ⟨met, grown, left⟩ opened probe
      cases probe with
      | miss none => exact ⟨met, by dsimp only; omega, left⟩
      | below m' hit less =>
        have := hit.ge
        exact ⟨rfl, by dsimp only; omega, by dsimp only; omega⟩
      | above m' hit less => exact ⟨rfl, grown, left⟩
      | exact m' hit same =>
        have := hit.ge
        exact ⟨rfl, by dsimp only; omega, by dsimp only; omega⟩)
  have left_le := window'.left_le
  dsimp only [Search.matched] at right
  exact ⟨right, by omega, met⟩

theorem run_top_exact (holds : Holds stabs entry 0 high) (fuel : Nat) (s last : Search)
    (window : Window entry type 0 high s) (hit : Hit entry type s.l s.r 2)
    (same : (entry 2).nValue = s.addr) (top : s.addr = 0xffffffff)
    (falls : Falls entry type 2 0 s.r)
    (ran : Loop.run (binsearchPass stabs type) (fuel + 1) s = .done last) :
    last.r = 1 ∧ last.regionLeft = 2 ∧ last.anyMatches = true := by
  rw [Loop.run_again fuel (binsearchPass_exact holds le_rfl s window 2 hit same)] at ran
  have falls' : Falls entry type 2 (s.addr + 1) s.r := by
    rw [top]
    exact falls
  exact run_matched holds le_rfl fuel s last window 2 hit same falls' ran

theorem run_top_forward (holds : Holds stabs entry 0 high) (first : (entry 0).nType ≠ type)
    (second : (entry 1).nType ≠ type) (fuel : Nat) (last : Search)
    (file : TopFile entry type 0 high)
    (ran : Loop.run (binsearchPass stabs type) (fuel + 2)
      (Search.initial 0 high 0xffffffff) = .done last) :
    last.r = 1 ∧ last.regionLeft = 2 ∧ last.anyMatches = true := by
  have two_le : 2 ≤ high := by
    obtain ⟨m, hit, -⟩ := file.falls.first
    have := hit.ge
    have := hit.le
    omega
  have window : Window entry type 0 high (Search.initial 0 high 0xffffffff) :=
    Window.initial _ (by omega)
  by_cases near : 2 ≤ (0 + high) / 2
  · exact run_top_exact holds (fuel + 1) _ last window ⟨by simp [Search.initial], near, file.typed,
      file.last⟩ file.top rfl file.falls ran
  · -- Only four entries at most: the first pass meets none of the type.
    have none (i : Int) (ge : 0 ≤ i) (le : i ≤ (0 + high) / 2) : (entry i).nType ≠ type := by
      rcases (by omega : i = 0 ∨ i = 1) with rfl | rfl
      · exact first
      · exact second
    have opened : (Search.initial 0 high 0xffffffff).l ≤ (Search.initial 0 high 0xffffffff).r := by
      dsimp only [Search.initial]
      omega
    rw [Loop.run_again (fuel + 1) (binsearchPass_miss holds le_rfl _ window opened none)] at ran
    have kept := window.probe opened (.miss none)
    refine run_top_exact holds fuel _ last kept ⟨?_, ?_, file.typed, ?_⟩ file.top rfl file.falls ran
    · dsimp only [Search.initial]
      omega
    · dsimp only [Search.initial]
      omega
    · intro i gt le
      dsimp only [Search.initial] at le
      omega

theorem stabBinsearch_top (holds : Holds stabs entry 0 high) (nonempty : 0 ≤ high)
    (first : (entry 0).nType ≠ type) (second : (entry 1).nType ≠ type) (addr : UInt32)
    (left right : Int) (ran : stabBinsearch stabs 0 high type addr = .done (left, right)) :
    (left = 1 ↔ addr = 0xffffffff ∧ TopFile entry type 0 high) ∧ (left = 1 → right = 1) := by
  obtain ⟨last, left', right', ran', ended, window, -, closed, outputs⟩ :=
    stabBinsearch_run type holds le_rfl addr (by omega) (fun _ => True) trivial
      (fun _ _ _ _ _ _ => trivial)
  rw [ran] at ran'
  cases ran'
  have fuel : searchFuel 0 high = 2 * (high - 0 + 1).toNat + 2 := rfl
  rcases outputs with ⟨fresh, rfl, rfl⟩ | ⟨-, rfl, scan⟩
  · refine ⟨⟨by omega, ?_⟩, by omega⟩
    rintro ⟨rfl, file⟩
    rw [fuel] at ended
    have met := (run_top_forward holds first second _ last file ended).2.2
    rw [fresh] at met
    cases met
  have le_start := scan.le_start
  have near_low := scan.near_low
  have left_le := window.left_le
  have left_ge := window.left_ge
  have cells : left = 1 ↔ last.r = 1 ∧ last.regionLeft = 2 := by
    constructor
    · rintro rfl
      have untyped : ¬ last.regionLeft + 1 ≤ 1 := fun found => second (scan.holds found)
      have other : last.regionLeft ≠ 1 := by
        intro one
        rcases window.left_type with zero | ⟨-, typed⟩
        · omega
        · rw [one] at typed
          exact second typed
      omega
    · rintro ⟨right, moved⟩
      omega
  refine ⟨?_, fun one => (cells.1 one).1⟩
  rw [cells]
  constructor
  · rintro ⟨right, moved⟩
    exact run_top_backward holds first second _ _ last (Window.initial addr (by omega)) rfl
      nonempty ended right moved
  · rintro ⟨rfl, file⟩
    rw [fuel] at ended
    obtain ⟨right, moved, -⟩ := run_top_forward holds first second _ last file ended
    exact ⟨right, moved⟩

structure TopTable (tables : DebugTables) (addr : UInt32) : Prop where
  key : addr = 0xffffffff
  line : (entryOf tables 0).nType = nSLINE
  far : 0x80000000 ≤ (entryOf tables 0).nValue
  function : (entryOf tables 1).nType = nFUN
  top : (entryOf tables 1).nValue = 0xffffffff
  file : TopFile (entryOf tables) nSO 0 (tables.stabs.length - 1)

def Escapes (tables : DebugTables) (addr : UInt32) : Prop :=
  tables.stabstr.getLast? = some 0 ∧
    (Falls (entryOf tables) nSO 0 addr (tables.stabs.length - 1) ∨
      Wraps (entryOf tables) nSO 0 (tables.stabs.length - 1) addr ∨ TopTable tables addr)

theorem stabBinsearch_before (tables : DebugTables) (type : UInt8) (addr : UInt32) :
    stabBinsearch tables.at (-1) (-1) type addr = .fault (.stab (-1)) := by
  have read : hasType tables.at type (-1) = .fault (.stab (-1)) := by
    simp [hasType, stabAt, DebugTables.at, tableStabs]
  have scanned : Scan.down (hasType tables.at type) (-1) (-1) = .fault (.stab (-1)) :=
    Loop.run_fault _ (by simp [Scan.downPass, read])
  have pass : binsearchPass tables.at type (Search.initial (-1) (-1) addr) =
      .fault (.stab (-1)) := by
    simp [binsearchPass, Search.initial, scanned]
  have ran : Loop.run (binsearchPass tables.at type) (searchFuel (-1) (-1))
      (Search.initial (-1) (-1) addr) = .fault (.stab (-1)) :=
    Loop.run_fault 3 pass
  rw [Search.initial] at ran
  simp [stabBinsearch, ran]

theorem fileInfo_done (tables : DebugTables) (lfile lline : Int) (info : Eipdebuginfo)
    (nonneg : 0 ≤ lfile) (inside : lline < tables.stabs.length) :
    ∃ result, fileInfo tables lfile lline info = .done result := by
  have holds := at_holds tables
  obtain ⟨k, scanned, last⟩ := Scan.down_last (namesFile tables.at)
    (fun i => NamesFile (entryOf tables i)) lfile lline
    (fun i ge le => namesFile_holds holds i (by omega) (by omega))
  by_cases found : lfile ≤ k
  · have below := last.le_start
    have read := holds k (by omega) (by omega)
    exact ⟨_, by simp [fileInfo, scanned, found, stabAt, read]; rfl⟩
  · exact ⟨info, by simp [fileInfo, scanned, found]⟩

theorem countArguments_done (tables : DebugTables) (lfun rfun narg : Int) (nonneg : 0 ≤ lfun)
    (inside : rfun < tables.stabs.length) :
    ∃ result, countArguments tables.at lfun rfun narg = .done result := by
  unfold countArguments
  split
  next opened =>
    have progress (state : Int × Int) (after : lfun < state.1) :
        Loop.Progress (argumentPass tables.at rfun) (fun state => lfun < state.1)
          (fun state => (rfun - state.1).toNat) (fun _ => True) state := by
      obtain ⟨lline, narg⟩ := state
      dsimp only at after
      by_cases before : lline < rfun
      · have read : hasType tables.at nPSYM lline =
            .done (decide ((entryOf tables lline).nType = nPSYM)) :=
          hasType_holds (at_holds tables) lline (by omega) (by omega)
        by_cases parameter : (entryOf tables lline).nType = nPSYM
        · exact .inl ⟨(lline + 1, narg + 1), by simp [argumentPass, before, read, parameter],
            by dsimp only; omega, by dsimp only; omega⟩
        · exact .inr ⟨narg, by simp [argumentPass, before, read, parameter], trivial⟩
      · exact .inr ⟨narg, by simp [argumentPass, before], trivial⟩
    obtain ⟨result, ran, -⟩ := Loop.run_correct _ _ _ progress ((rfun - lfun).toNat + 1)
      (lfun + 1, narg) (by dsimp only; omega) (by dsimp only; omega)
    exact ⟨result, ran⟩
  next => exact ⟨narg, rfl⟩

theorem lineInfo_done (tables : DebugTables) (addr : UInt32) (lfile lfun rfun lline rline : Int)
    (info : Eipdebuginfo) (lfile_nonneg : 0 ≤ lfile) (lfun_nonneg : 0 ≤ lfun)
    (rfun_inside : rfun < tables.stabs.length) (nonneg : 0 ≤ lline) (near : lline ≤ rline + 1)
    (inside : rline < tables.stabs.length)
    (stays : ∀ left right, stabBinsearch tables.at lline rline nSLINE addr = .done (left, right) →
      left ≤ right → 0 ≤ left) :
    ∃ result, lineInfo tables addr lfile lfun rfun lline rline info = .done result := by
  have holds := (at_holds tables).narrow lline rline nonneg (by omega)
  obtain ⟨left, right, ran, bounds⟩ := stabBinsearch_bounds nSLINE holds nonneg addr near
  by_cases found : left ≤ right
  · have left_nonneg := stays left right ran found
    have read : stabAt tables.at left = .done (entryOf tables left) := by
      simp [stabAt, at_holds tables left left_nonneg (by omega)]
    obtain ⟨info', named⟩ := fileInfo_done tables lfile left
      { info with eipLine := (entryOf tables left).nDesc.toNat } lfile_nonneg (by omega)
    obtain ⟨narg, counted⟩ := countArguments_done tables lfun rfun info'.eipFnNarg lfun_nonneg
      rfun_inside
    exact ⟨_, by simp [lineInfo, ran, found, read, named, counted]; rfl⟩
  · exact ⟨_, by simp [lineInfo, ran, found]; rfl⟩

theorem not_bottom_zero (addr value : UInt32) (more : addr - value < value)
    (top : addr = 0xffffffff) : 0x80000000 ≤ value := by
  rw [top, UInt32.lt_iff_toNat_lt, UInt32.toNat_sub] at more
  rw [UInt32.le_iff_toNat_le]
  have bound := value.toNat_lt
  simp only [UInt32.reduceToNat] at more ⊢
  omega

theorem bottom_zero (value : UInt32) (far : 0x80000000 ≤ value) : 0xffffffff - value < value := by
  rw [UInt32.le_iff_toNat_le] at far
  rw [UInt32.lt_iff_toNat_lt, UInt32.toNat_sub]
  have bound := value.toNat_lt
  simp only [UInt32.reduceToNat] at far ⊢
  omega

theorem lineSearch_top (tables : DebugTables) (addr : UInt32) (rfile lfun rfun left right : Int)
    (rfile_inside : rfile < tables.stabs.length) (opened : 1 ≤ rfile)
    (file_ran : stabBinsearch tables.at 0 (tables.stabs.length - 1) nSO addr = .done (1, rfile))
    (function_ran : stabBinsearch tables.at 1 rfile nFUN addr = .done (lfun, rfun)) (zero : lfun = 0)
    (line_ran : stabBinsearch tables.at lfun rfun nSLINE (addr - (entryOf tables 0).nValue) =
      .done (left, right)) (out : left = -1) : TopTable tables addr := by
  have holds := at_holds tables
  subst zero
  obtain ⟨function_bottom, function_right⟩ := stabBinsearch_bottom
    (holds.narrow 1 rfile (by omega) (by omega)) (by omega) addr opened 0 rfun
    function_ran
  obtain rfl : rfun = 0 := function_right rfl
  have falls_function := function_bottom.1 rfl
  have falls_line := (stabBinsearch_bottom (holds.narrow 0 0 le_rfl (by omega))
    le_rfl _ le_rfl left right line_ran).1.1 out
  have function : (entryOf tables 1).nType = nFUN := by
    rcases falls_function with falls | wraps
    · exact falls.last.1
    · exact wraps.hit.typed
  have line : (entryOf tables 0).nType = nSLINE := by
    rcases falls_line with falls | wraps
    · exact falls.last.1
    · exact wraps.hit.typed
  obtain ⟨key, file⟩ := (stabBinsearch_top holds (by omega) (by rw [line]; decide)
    (by rw [function]; decide) addr 1 rfile file_ran).1.1 rfl
  refine ⟨key, line, ?_, function, ?_, file⟩
  · rcases falls_line with falls | wraps
    · exact not_bottom_zero addr _ falls.last.2 key
    · have same := wraps.same
      rw [wraps.top] at same
      have difference := wraps.top
      rw [same, key] at difference
      exact absurd difference (by decide)
  · rcases falls_function with falls | wraps
    · have more := falls.last.2
      rw [key] at more
      exact absurd more (not_top_lt _)
    · exact wraps.same.trans key

theorem debuginfoEip_returns (tables : DebugTables) (addr : UInt32) (kernel : ulim ≤ addr)
    (stays : ¬ Escapes tables addr) : ∃ result, debuginfoEip tables addr = .done result := by
  have not_user : ¬ addr < ulim := UInt32.not_lt.mpr kernel
  by_cases strings : tables.stabstr.getLast? = some 0
  swap
  · exact ⟨_, by simp [debuginfoEip, not_user, strings]; rfl⟩
  have holds := at_holds tables
  obtain ⟨lfile, rfile, file_ran, file_bounds⟩ := stabBinsearch_bounds nSO holds le_rfl
    addr (by omega)
  by_cases none : lfile = 0
  · exact ⟨_, by simp [debuginfoEip, not_user, strings, file_ran, none]; rfl⟩
  obtain ⟨lfile_ge, lfile_le, rfile_le, e, e_ge, e_le, -⟩ := file_bounds.resolve_left (by omega)
  have lfile_pos : 1 ≤ lfile := by
    by_contra low
    have bottom := (stabBinsearch_bottom holds le_rfl addr (by omega) lfile rfile file_ran).1.1
      (by omega)
    exact stays ⟨strings, bottom.imp id .inl⟩
  have holds_file := holds.narrow lfile rfile (by omega) (by omega)
  obtain ⟨lfun, rfun, function_ran, function_bounds⟩ := stabBinsearch_bounds nFUN
    holds_file (by omega) addr (by omega)
  have tail (info : Eipdebuginfo) (addr' : UInt32) (lline rline : Int)
      (function : functionInfo tables addr lfile rfile lfun rfun (initialInfo addr) =
        .done (info, addr', lline, rline)) (terminated : 0 ∈ tables.chars info.eipFnName)
      (line : ∀ info, ∃ result, lineInfo tables addr' lfile lfun rfun lline rline info =
        .done result) : ∃ result, debuginfoEip tables addr = .done result := by
    obtain ⟨result, line⟩ := line { info with
      eipFnNamelen := (tables.chars info.eipFnName).findIdx fun byte => byte == 0 || byte == 58 }
    exact ⟨result, by simp [debuginfoEip, not_user, strings, file_ran, none, function_ran, function,
      strfind_correct _ 58 terminated, line]⟩
  by_cases found : lfun ≤ rfun
  · have lfun_ge : lfile - 1 ≤ lfun ∧ rfun ≤ rfile := by omega
    have read : stabAt tables.at lfun = .done (entryOf tables lfun) := by
      simp [stabAt, holds lfun (by omega) (by omega)]
    refine tail _ _ _ _ (functionInfo_found tables addr lfile rfile lfun rfun _ _ found read)
      (name_terminated tables strings _ _ (show 0 ∈ unknownChars by decide)) fun info => ?_
    refine lineInfo_done tables _ lfile lfun rfun lfun rfun info (by omega) (by omega) (by omega)
      (by omega) (by omega) (by omega) fun left right line_ran le => ?_
    by_contra out
    have line_bounds := stabBinsearch_bounds nSLINE
      (holds.narrow lfun rfun (by omega) (by omega)) (by omega)
      (addr - (entryOf tables lfun).nValue) (by omega)
    obtain ⟨left', right', line_ran', bounds⟩ := line_bounds
    rw [line_ran] at line_ran'
    cases line_ran'
    obtain rfl : lfun = 0 := by omega
    obtain rfl : lfile = 1 := by omega
    exact stays ⟨strings, .inr (.inr (lineSearch_top tables addr rfile 0 rfun left right (by omega)
      (by omega) file_ran function_ran rfl line_ran (by omega)))⟩
  · refine tail _ _ _ _ (functionInfo_missing tables addr lfile rfile lfun rfun _ found)
      (show 0 ∈ unknownChars by decide) fun info => ?_
    refine lineInfo_done tables addr lfile lfun rfun lfile rfile info (by omega) (by omega) (by omega)
      (by omega) (by omega) (by omega) fun left right line_ran le => ?_
    obtain ⟨left', right', line_ran', bounds⟩ := stabBinsearch_bounds nSLINE holds_file
      (by omega) addr (by omega)
    rw [line_ran] at line_ran'
    cases line_ran'
    omega

theorem debuginfoEip_escapes (tables : DebugTables) (addr : UInt32) (kernel : ulim ≤ addr)
    (escapes : Escapes tables addr) : debuginfoEip tables addr = .fault (.stab (-1)) := by
  have not_user : ¬ addr < ulim := UInt32.not_lt.mpr kernel
  have holds := at_holds tables
  obtain ⟨strings, out⟩ := escapes
  have nonempty : (0 : Int) ≤ tables.stabs.length - 1 := by
    have inside (l r m : Int) (hit : Hit (entryOf tables) nSO l r m) : l ≤ (l + r) / 2 :=
      hit.ge.trans hit.le
    rcases out with falls | wraps | top
    · obtain ⟨m, hit, -⟩ := falls.first
      have := inside _ _ m hit
      omega
    · have := inside _ _ 0 wraps.hit
      omega
    · obtain ⟨m, hit, -⟩ := top.file.falls.first
      have := inside _ _ m hit
      omega
  obtain ⟨lfile, rfile, file_ran, file_bounds⟩ := stabBinsearch_bounds nSO holds le_rfl
    addr (by omega)
  obtain ⟨file_bottom, file_right⟩ := stabBinsearch_bottom holds le_rfl addr nonempty lfile rfile
    file_ran
  by_cases first : lfile = 0 - 1
  · obtain rfl : rfile = 0 - 1 := file_right first
    subst first
    simp [debuginfoEip, not_user, strings, file_ran, stabBinsearch_before]
  have top : TopTable tables addr := by
    rcases out with falls | wraps | top
    · exact absurd (file_bottom.2 (.inl falls)) first
    · exact absurd (file_bottom.2 (.inr wraps)) first
    · exact top
  obtain ⟨file_top, file_right⟩ := stabBinsearch_top holds nonempty (by rw [top.line]; decide)
    (by rw [top.function]; decide) addr lfile rfile file_ran
  obtain rfl : lfile = 1 := file_top.2 ⟨top.key, top.file⟩
  obtain rfl : rfile = 1 := file_right rfl
  have rfile_le : (1 : Int) ≤ tables.stabs.length - 1 := by omega
  -- The function search comes down from entry 1, where it met its match.
  obtain ⟨lfun, rfun, function_ran, -⟩ := stabBinsearch_bounds nFUN
    (holds.narrow 1 1 (by omega) (by omega)) (by omega) addr (by omega)
  obtain ⟨function_bottom, function_right⟩ := stabBinsearch_bottom
    (holds.narrow 1 1 (by omega) (by omega)) (by omega) addr le_rfl lfun rfun
    function_ran
  obtain rfl : lfun = 0 := function_bottom.2 (.inr ⟨⟨le_rfl, by decide, top.function,
    fun i gt le => by omega⟩, top.top.trans top.key.symm, top.key⟩)
  obtain rfl : rfun = 0 := function_right rfl
  -- The line search comes down from entry 0, whose value is above the offset.
  obtain ⟨lline, rline, line_ran, -⟩ := stabBinsearch_bounds nSLINE
    (holds.narrow 0 0 (by omega) (by omega)) le_rfl
    (addr - (entryOf tables 0).nValue) (by omega)
  obtain ⟨line_bottom, line_right⟩ := stabBinsearch_bottom
    (holds.narrow 0 0 (by omega) (by omega)) le_rfl _ le_rfl lline rline line_ran
  have more : addr - (entryOf tables 0).nValue < (entryOf tables 0).nValue := by
    rw [top.key]
    exact bottom_zero _ top.far
  obtain rfl : lline = 0 - 1 := line_bottom.2 (.inl (.bottom ⟨le_rfl, by decide, top.line,
    fun i gt le => by omega⟩ more))
  obtain rfl : rline = 0 - 1 := line_right rfl
  have read : stabAt tables.at 0 = .done (entryOf tables 0) := by
    simp [stabAt, holds 0 le_rfl nonempty]
  have before : stabAt tables.at (-1) = .fault (.stab (-1)) := by
    simp [stabAt, DebugTables.at, tableStabs]
  have named := strfind_correct (tables.chars (tables.name (entryOf tables 0) .unknown)) 58
    (name_terminated tables strings _ .unknown (show 0 ∈ unknownChars by decide))
  simp [debuginfoEip, lineInfo, not_user, strings, file_ran, function_ran, functionInfo, read,
    initialInfo, named, line_ran, before]

end JosLab.Kdebug
