import JosLab.Kern.Kdebug

set_option autoImplicit false

namespace JosLab.Kdebug

def Holds (stabs : Stabs) (entry : Int → Stab) (low high : Int) : Prop :=
  ∀ i, low ≤ i → i ≤ high → stabs i = some (entry i)

structure Hit (entry : Int → Stab) (type : UInt8) (l r m : Int) : Prop where
  ge : l ≤ m
  le : m ≤ (l + r) / 2
  typed : (entry m).nType = type
  last : ∀ i, m < i → i ≤ (l + r) / 2 → (entry i).nType ≠ type

inductive Probe (entry : Int → Stab) (type : UInt8) (s : Search) : Search → Prop where
  | miss (none : ∀ i, s.l ≤ i → i ≤ (s.l + s.r) / 2 → (entry i).nType ≠ type) :
      Probe entry type s { s with l := (s.l + s.r) / 2 + 1 }
  | below (m : Int) (hit : Hit entry type s.l s.r m) (less : (entry m).nValue < s.addr) :
      Probe entry type s { s with anyMatches := true, regionLeft := m, l := (s.l + s.r) / 2 + 1 }
  | above (m : Int) (hit : Hit entry type s.l s.r m) (less : s.addr < (entry m).nValue) :
      Probe entry type s { s with anyMatches := true, regionRight := m - 1, r := m - 1 }
  | exact (m : Int) (hit : Hit entry type s.l s.r m) (same : (entry m).nValue = s.addr) :
      Probe entry type s
        { s with anyMatches := true, regionLeft := m, l := m, addr := s.addr + 1 }

def Search.matched (s : Search) (m : Int) : Search :=
  { s with anyMatches := true, regionLeft := m, l := m, addr := s.addr + 1 }

variable {stabs : Stabs} {entry : Int → Stab} {type : UInt8} {low high : Int}

theorem hasType_holds (holds : Holds stabs entry low high) (i : Int) (low_le : low ≤ i)
    (le_high : i ≤ high) :
    hasType stabs type i = .done (decide ((entry i).nType = type)) := by
  simp [hasType, stabAt, holds i low_le le_high, UInt8.toNat_inj]

variable (type) in
theorem scan_holds (holds : Holds stabs entry low high) (bottom start : Int)
    (low_le : low ≤ bottom) (le_high : start ≤ high) :
    ∃ index, Scan.down (hasType stabs type) bottom start = .done index ∧
      Scan.Last (fun i => (entry i).nType = type) bottom start index := by
  apply Scan.down_last
  intro i bottom_le le_start
  exact hasType_holds holds i (by omega) (by omega)

variable (type) in
theorem binsearchPass_probe (holds : Holds stabs entry low high) (s : Search) (nonneg : 0 ≤ low)
    (low_le : low ≤ s.l) (le_high : s.r ≤ high) (opened : s.l ≤ s.r) :
    ∃ next, binsearchPass stabs type s = .done (.again next) ∧ Probe entry type s next := by
  have middle : (s.l + s.r).tdiv 2 = (s.l + s.r) / 2 := Int.tdiv_eq_ediv_of_nonneg (by omega)
  obtain ⟨m, scanned, last⟩ :=
    scan_holds type holds s.l ((s.l + s.r) / 2) low_le (by omega)
  by_cases missed : m < s.l
  · refine ⟨_, ?_, .miss (fun i ge le => last.none_of_lt missed i ge le)⟩
    simp [binsearchPass, opened, middle, scanned, missed]
  have found : s.l ≤ m := by omega
  have read : stabAt stabs m = .done (entry m) := by
    simp [stabAt, holds m (by omega) (by have := last.le_start; omega)]
  have hit : Hit entry type s.l s.r m :=
    ⟨found, last.le_start, last.holds found, fun i above le => last.none_above i (by omega) above le⟩
  by_cases less : (entry m).nValue < s.addr
  · exact ⟨_, by simp [binsearchPass, opened, middle, scanned, missed, read, less], .below m hit less⟩
  by_cases more : s.addr < (entry m).nValue
  · exact ⟨_, by simp [binsearchPass, opened, middle, scanned, missed, read, less, more],
      .above m hit more⟩
  · have same : (entry m).nValue = s.addr :=
      UInt32.le_antisymm (UInt32.not_lt.mp more) (UInt32.not_lt.mp less)
    exact ⟨_, by simp [binsearchPass, opened, middle, scanned, missed, read, less, more],
      .exact m hit same⟩

theorem binsearchPass_leave (s : Search) (closed : s.r < s.l) :
    binsearchPass stabs type s = .done (.leave s) := by
  simp [binsearchPass, not_le.mpr closed]

structure Window (entry : Int → Stab) (type : UInt8) (low high : Int) (s : Search) : Prop where
  low_le : low ≤ s.l
  le_high : s.r ≤ high
  near : s.l ≤ s.r + 1
  right : s.regionRight = s.r
  left_ge : low ≤ s.regionLeft
  left_le : s.regionLeft ≤ s.l
  left_type : s.regionLeft = low ∨ s.regionLeft ≤ high ∧ (entry s.regionLeft).nType = type
  fresh : s.anyMatches = false → s.regionLeft = low ∧ s.r = high ∧
    ∀ i, low ≤ i → i < s.l → (entry i).nType ≠ type
  met : s.anyMatches = true → ∃ i, low ≤ i ∧ i ≤ high ∧ (entry i).nType = type

theorem Window.probe {s next : Search} (window : Window entry type low high s)
    (opened : s.l ≤ s.r) (probe : Probe entry type s next) : Window entry type low high next := by
  have low_le := window.low_le
  have le_high := window.le_high
  have left_le := window.left_le
  have left_ge := window.left_ge
  cases probe with
  | miss none =>
    refine { window with low_le := ?_, near := ?_, left_le := ?_, fresh := ?_ } <;> dsimp only
    · omega
    · omega
    · omega
    · intro fresh
      obtain ⟨left, right, before⟩ := window.fresh fresh
      refine ⟨left, right, fun i ge lt => ?_⟩
      by_cases old : i < s.l
      · exact before i ge old
      · exact none i (by omega) (by omega)
  | below m hit less =>
    have ge := hit.ge
    have le := hit.le
    exact
      { low_le := by dsimp only; omega
        le_high := window.le_high
        near := by dsimp only; omega
        right := window.right
        left_ge := by dsimp only; omega
        left_le := by dsimp only; omega
        left_type := Or.inr ⟨by dsimp only; omega, hit.typed⟩
        fresh := fun impossible => by simp at impossible
        met := fun _ => ⟨m, by omega, by omega, hit.typed⟩ }
  | above m hit less =>
    have ge := hit.ge
    have le := hit.le
    exact
      { low_le := window.low_le
        le_high := by dsimp only; omega
        near := by dsimp only; omega
        right := rfl
        left_ge := window.left_ge
        left_le := window.left_le
        left_type := window.left_type
        fresh := fun impossible => by simp at impossible
        met := fun _ => ⟨m, by omega, by omega, hit.typed⟩ }
  | exact m hit same =>
    have ge := hit.ge
    have le := hit.le
    exact
      { low_le := by dsimp only; omega
        le_high := window.le_high
        near := by dsimp only; omega
        right := window.right
        left_ge := by dsimp only; omega
        left_le := by dsimp only; omega
        left_type := Or.inr ⟨by dsimp only; omega, hit.typed⟩
        fresh := fun impossible => by simp at impossible
        met := fun _ => ⟨m, by omega, by omega, hit.typed⟩ }

-- An exact match at the bottom of the range leaves the range alone, but moves the key off it.
def searchMeasure (entry : Int → Stab) (type : UInt8) (s : Search) : Nat :=
  2 * (s.r - s.l + 1).toNat +
    if (entry s.l).nType = type ∧ (entry s.l).nValue = s.addr then 1 else 0

theorem Probe.decreases {s next : Search} (opened : s.l ≤ s.r) (probe : Probe entry type s next) :
    searchMeasure entry type next < searchMeasure entry type s := by
  unfold searchMeasure
  cases probe with
  | miss none =>
    dsimp only
    split <;> split <;> omega
  | below m hit less =>
    dsimp only
    split <;> split <;> omega
  | above m hit less =>
    have ge := hit.ge
    have le := hit.le
    dsimp only
    split <;> omega
  | exact m hit same =>
    have ge := hit.ge
    have le := hit.le
    dsimp only
    by_cases bottom : m = s.l
    · subst bottom
      simp [hit.typed, same]
    · split <;> split <;> omega

def Search.initial (low high : Int) (addr : UInt32) : Search :=
  { l := low, r := high, anyMatches := false, regionLeft := low, regionRight := high, addr }

theorem Window.initial (addr : UInt32) (near : low ≤ high + 1) :
    Window entry type low high (Search.initial low high addr) :=
  { low_le := le_rfl
    le_high := le_rfl
    near
    right := rfl
    left_ge := le_rfl
    left_le := le_rfl
    left_type := Or.inl rfl
    fresh := fun _ => ⟨rfl, rfl, fun i ge lt => by simp only [Search.initial] at lt; omega⟩
    met := fun impossible => by simp [Search.initial] at impossible }

theorem search_run (holds : Holds stabs entry low high) (nonneg : 0 ≤ low) (addr : UInt32)
    (near : low ≤ high + 1) (inv : Search → Prop) (initial : inv (Search.initial low high addr))
    (preserved : ∀ s next, Window entry type low high s → inv s → s.l ≤ s.r →
      Probe entry type s next → inv next) :
    ∃ last, Loop.run (binsearchPass stabs type) (searchFuel low high)
        (Search.initial low high addr) = .done last ∧
      Window entry type low high last ∧ inv last ∧ last.l = last.r + 1 := by
  refine Loop.run_correct (fun s => Window entry type low high s ∧ inv s)
    (searchMeasure entry type) _ ?_ _ _ ⟨Window.initial addr near, initial⟩ ?_
  · rintro s ⟨window, kept⟩
    by_cases opened : s.l ≤ s.r
    · left
      obtain ⟨next, step, probe⟩ :=
        binsearchPass_probe type holds s nonneg window.low_le window.le_high opened
      exact ⟨next, step, ⟨window.probe opened probe, preserved s next window kept opened probe⟩,
        probe.decreases opened⟩
    · right
      have closed := window.near
      exact ⟨s, binsearchPass_leave s (by omega), window, kept, by omega⟩
  · unfold searchMeasure searchFuel Search.initial
    dsimp only
    split <;> omega

def Outputs (entry : Int → Stab) (type : UInt8) (low : Int) (last : Search) (left right : Int) :
    Prop :=
  last.anyMatches = false ∧ left = low ∧ right = low - 1 ∨
    last.anyMatches = true ∧ right = last.r ∧
      Scan.Last (fun i => (entry i).nType = type) (last.regionLeft + 1) last.r left

variable (type) in
theorem stabBinsearch_run (holds : Holds stabs entry low high) (nonneg : 0 ≤ low) (addr : UInt32)
    (near : low ≤ high + 1) (inv : Search → Prop) (initial : inv (Search.initial low high addr))
    (preserved : ∀ s next, Window entry type low high s → inv s → s.l ≤ s.r →
      Probe entry type s next → inv next) :
    ∃ last left right, stabBinsearch stabs low high type addr = .done (left, right) ∧
      Loop.run (binsearchPass stabs type) (searchFuel low high)
        (Search.initial low high addr) = .done last ∧
      Window entry type low high last ∧ inv last ∧ last.l = last.r + 1 ∧
      Outputs entry type low last left right := by
  obtain ⟨last, ended, window, kept, closed⟩ :=
    search_run holds nonneg addr near inv initial preserved
  have ran := ended
  rw [Search.initial] at ran
  cases met : last.anyMatches with
  | false =>
    have left := (window.fresh met).1
    exact ⟨last, low, low - 1, by simp [stabBinsearch, ran, met, left], ended, window, kept, closed,
      .inl ⟨met, rfl, rfl⟩⟩
  | true =>
    obtain ⟨index, scanned, scan⟩ := scan_holds type holds (last.regionLeft + 1) last.r
      (by have := window.left_ge; omega) window.le_high
    exact ⟨last, index, last.r, by simp [stabBinsearch, ran, met, window.right, scanned], ended,
      window, kept, closed, .inr ⟨met, rfl, scan⟩⟩

variable (type) in
theorem stabBinsearch_bounds (holds : Holds stabs entry low high) (nonneg : 0 ≤ low)
    (addr : UInt32) (near : low ≤ high + 1) :
    ∃ left right, stabBinsearch stabs low high type addr = .done (left, right) ∧
      ((left = low ∧ right = low - 1 ∧ ∀ i, low ≤ i → i ≤ high → (entry i).nType ≠ type) ∨
        (low - 1 ≤ left ∧ left ≤ right ∧ right ≤ high ∧
          ∃ i, low ≤ i ∧ i ≤ high ∧ (entry i).nType = type)) := by
  obtain ⟨last, left, right, ran, -, window, -, closed, outputs⟩ :=
    stabBinsearch_run type holds nonneg addr near (fun _ => True) trivial
      (fun _ _ _ _ _ _ => trivial)
  refine ⟨left, right, ran, ?_⟩
  rcases outputs with ⟨fresh, rfl, rfl⟩ | ⟨met, rfl, scan⟩
  · obtain ⟨-, all, before⟩ := window.fresh fresh
    exact .inl ⟨rfl, rfl, fun i ge le => before i ge (by omega)⟩
  · have low_le := window.low_le
    have left_ge := window.left_ge
    have near_low := scan.near_low
    exact .inr ⟨by omega, scan.le_start, window.le_high, window.met met⟩

def Nondecreasing (entry : Int → Stab) (type : UInt8) (low high : Int) : Prop :=
  ∀ i j, low ≤ i → i ≤ j → j ≤ high → (entry i).nType = type → (entry j).nType = type →
    (entry i).nValue ≤ (entry j).nValue

structure Sorted (entry : Int → Stab) (type : UInt8) (low high : Int) : Prop where
  mono : ∀ i j, low ≤ i → i ≤ j → j ≤ high → (entry i).nType = type → (entry j).nType = type →
    (entry i).nValue ≤ (entry j).nValue
  apart : ∀ i j, low ≤ i → i ≤ high → low ≤ j → j ≤ high → (entry i).nType = type →
    (entry j).nType = type → (entry j).nValue.toNat ≠ (entry i).nValue.toNat + 1

structure Narrows (entry : Int → Stab) (type : UInt8) (low high : Int) (addr : UInt32)
    (s : Search) : Prop where
  below : ∀ i, low ≤ i → i < s.l → (entry i).nType = type → (entry i).nValue ≤ addr
  above : ∀ i, s.r < i → i ≤ high → (entry i).nType = type → addr < (entry i).nValue
  next : s.r = high ∨ (entry (s.r + 1)).nType = type ∧ low ≤ s.r + 1
  left : s.regionLeft = low ∨ (entry s.regionLeft).nType = type ∧ (entry s.regionLeft).nValue ≤ addr
  key : s.addr = addr ∨ s.addr = addr + 1 ∧
    ∃ i, low ≤ i ∧ i ≤ high ∧ (entry i).nType = type ∧ (entry i).nValue = addr

theorem toNat_succ (a : UInt32) (room : a.toNat < 4294967295) : (a + 1).toNat = a.toNat + 1 := by
  rw [UInt32.toNat_add]
  simp only [UInt32.reduceToNat]
  omega

theorem Narrows.lt_key {s : Search} {addr : UInt32} (narrows : Narrows entry type low high addr s)
    (room : s.addr = addr ∨ addr.toNat < 4294967295) (m : Int) :
    ((entry m).nValue < s.addr → (entry m).nValue ≤ addr) ∧
      (s.addr < (entry m).nValue → addr < (entry m).nValue) := by
  simp only [UInt32.lt_iff_toNat_lt, UInt32.le_iff_toNat_le]
  rcases narrows.key with same | ⟨succ, -⟩
  · rw [same]
    omega
  · rcases room with same | room
    · rw [same]
      omega
    · rw [succ, toNat_succ addr room]
      omega

theorem Narrows.initial (addr : UInt32) :
    Narrows entry type low high addr (Search.initial low high addr) :=
  { below := fun i ge lt _ => by simp only [Search.initial] at lt; omega
    above := fun i gt le _ => by simp only [Search.initial] at gt; omega
    next := .inl rfl
    left := .inl rfl
    key := .inl rfl }

-- Only a second exact match, now with the successor, would spoil what the first one settled.
theorem Narrows.probe {s next : Search} {addr : UInt32} (mono : Nondecreasing entry type low high)
    (room : s.addr = addr ∨ addr.toNat < 4294967295) (window : Window entry type low high s)
    (narrows : Narrows entry type low high addr s) (opened : s.l ≤ s.r)
    (once : ∀ m, Hit entry type s.l s.r m → (entry m).nValue = s.addr → s.addr = addr)
    (probe : Probe entry type s next) : Narrows entry type low high addr next := by
  have low_le := window.low_le
  have le_high := window.le_high
  have upTo (m : Int) (hit : Hit entry type s.l s.r m) (small : (entry m).nValue ≤ addr) (i : Int)
      (ge : low ≤ i) (le : i ≤ (s.l + s.r) / 2) (typed : (entry i).nType = type) :
      (entry i).nValue ≤ addr := by
    by_cases later : m < i
    · exact absurd typed (hit.last i later le)
    · have := hit.le
      exact UInt32.le_trans (mono i m ge (by omega) (by omega) typed hit.typed) small
  cases probe with
  | miss none =>
    refine { narrows with below := fun i ge lt typed => ?_ }
    by_cases old : i < s.l
    · exact narrows.below i ge old typed
    · exact absurd typed (none i (by omega) (by dsimp only at lt; omega))
  | below m hit less =>
    have ge := hit.ge
    have le := hit.le
    have small := (narrows.lt_key room m).1 less
    exact
      { narrows with
        below := fun i ge lt typed => upTo m hit small i ge (by dsimp only at lt; omega) typed
        left := .inr ⟨hit.typed, small⟩ }
  | above m hit less =>
    have ge := hit.ge
    have le := hit.le
    have large := (narrows.lt_key room m).2 less
    refine { narrows with above := fun i gt le' typed => ?_, next := .inr ?_ }
    · dsimp only at gt
      exact UInt32.lt_of_lt_of_le large (mono m i (by omega) (by omega) le' hit.typed typed)
    · dsimp only
      rw [Int.sub_add_cancel]
      exact ⟨hit.typed, by omega⟩
  | exact m hit same =>
    have ge := hit.ge
    have le := hit.le
    have key := once m hit same
    have small : (entry m).nValue ≤ addr := by
      rw [same, key]
      exact UInt32.le_refl addr
    exact
      { narrows with
        below := fun i ge lt typed => upTo m hit small i ge (by dsimp only at lt; omega) typed
        left := .inr ⟨hit.typed, small⟩
        key := .inr ⟨by dsimp only; rw [key], m, by omega, by omega, hit.typed, by rw [same, key]⟩ }

structure Brackets (entry : Int → Stab) (type : UInt8) (low high : Int) (addr : UInt32)
    (left right : Int) : Prop where
  greatest : IsGreatest
    {i | low ≤ i ∧ i ≤ high ∧ (entry i).nType = type ∧ (entry i).nValue ≤ addr} left
  left_le : left ≤ right
  right_le : right ≤ high
  none_between : ∀ i, left < i → i ≤ right → (entry i).nType ≠ type
  next : right = high ∨ (entry (right + 1)).nType = type

theorem Narrows.brackets {last : Search} {addr : UInt32} {left right : Int}
    (narrows : Narrows entry type low high addr last) (window : Window entry type low high last)
    (closed : last.l = last.r + 1) (outputs : Outputs entry type low last left right)
    (found : ∃ i, low ≤ i ∧ i ≤ high ∧ (entry i).nType = type ∧ (entry i).nValue ≤ addr) :
    Brackets entry type low high addr left right := by
  obtain ⟨e, e_ge, e_le, e_typed, e_small⟩ := found
  have notAbove (i : Int) (le : i ≤ high) (typed : (entry i).nType = type)
      (small : (entry i).nValue ≤ addr) : i ≤ last.r := by
    by_contra above
    exact UInt32.not_lt.mpr small (narrows.above i (by omega) le typed)
  have e_below := notAbove e e_le e_typed e_small
  rcases outputs with ⟨fresh, -, -⟩ | ⟨met, rfl, scan⟩
  · exact absurd e_typed ((window.fresh fresh).2.2 e e_ge (by omega))
  have left_le := scan.le_start
  have le_high := window.le_high
  have left_ge := window.left_ge
  -- The scan starts above a matching entry, or above the bottom of the range.
  have bottom : low ≤ left ∧ (entry left).nType = type := by
    by_cases moved : last.regionLeft + 1 ≤ left
    · exact ⟨by omega, scan.holds moved⟩
    have near_low := scan.near_low
    rcases narrows.left with same | ⟨typed, small⟩
    · have e_same : e = low := by
        by_contra other
        have := scan.found_of_mem (by omega) e_below e_typed
        omega
      have stays : left = e := by omega
      exact ⟨by omega, stays ▸ e_typed⟩
    · have left_in : last.regionLeft ≤ high := by
        rcases window.left_type with same | ⟨le, -⟩
        · omega
        · exact le
      have := notAbove last.regionLeft left_in typed small
      have stays : left = last.regionLeft := by omega
      exact ⟨by omega, stays ▸ typed⟩
  refine ⟨⟨⟨bottom.1, by omega, bottom.2, narrows.below left bottom.1 (by omega) bottom.2⟩, ?_⟩,
    left_le, le_high, ?_, ?_⟩
  · rintro i ⟨ge, le, typed, small⟩
    have below := notAbove i le typed small
    by_cases high_enough : last.regionLeft + 1 ≤ i
    · exact scan.found_of_mem high_enough below typed
    · have near_low := scan.near_low
      omega
  · intro i gt le
    have near_low := scan.near_low
    exact scan.none_above i (by omega) gt le
  · exact narrows.next.imp id And.left

theorem Sorted.once (sorted : Sorted entry type low high) {addr : UInt32} {s : Search}
    (room : addr.toNat < 4294967295) (window : Window entry type low high s)
    (narrows : Narrows entry type low high addr s) (m : Int) (hit : Hit entry type s.l s.r m)
    (same : (entry m).nValue = s.addr) : s.addr = addr := by
  rcases narrows.key with unchanged | ⟨succ, i, low_le, le_high, typed, value⟩
  · exact unchanged
  · have ge := hit.ge
    have le := hit.le
    have m_ge := window.low_le
    have m_le := window.le_high
    have apart := sorted.apart i m low_le le_high (by omega) (by omega) typed hit.typed
    rw [same, value, succ, toNat_succ addr room] at apart
    exact absurd rfl apart

theorem stabBinsearch_sorted (holds : Holds stabs entry low high) (nonneg : 0 ≤ low)
    (addr : UInt32) (room : addr.toNat < 4294967295) (sorted : Sorted entry type low high)
    (found : ∃ i, low ≤ i ∧ i ≤ high ∧ (entry i).nType = type ∧ (entry i).nValue ≤ addr) :
    ∃ left right, stabBinsearch stabs low high type addr = .done (left, right) ∧
      Brackets entry type low high addr left right := by
  have opened : low ≤ high := found.elim fun _ entry => entry.1.trans entry.2.1
  obtain ⟨last, left, right, ran, -, window, narrows, closed, outputs⟩ :=
    stabBinsearch_run type holds nonneg addr (by omega) (Narrows entry type low high addr)
      (Narrows.initial addr) (fun _ _ window narrows opened probe =>
        narrows.probe sorted.mono (.inr room) window opened (sorted.once room window narrows) probe)
  exact ⟨left, right, ran, narrows.brackets window closed outputs found⟩

end JosLab.Kdebug
