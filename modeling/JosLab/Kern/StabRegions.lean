import JosLab.Kern.StabBounds
import Mathlib.Logic.Relation

set_option autoImplicit false

namespace JosLab.Kdebug

def matching (entry : Int → Stab) (type : UInt8) (low high : Int) (holds : UInt32 → Prop) :
    Set Int :=
  {i | low ≤ i ∧ i ≤ high ∧ (entry i).nType = type ∧ holds (entry i).nValue}

def RightEnd (entry : Int → Stab) (type : UInt8) (low high : Int) (addr : UInt32) (right : Int) :
    Prop :=
  (∃ first, IsLeast (matching entry type low high (addr < ·)) first ∧ right = first - 1) ∨
    matching entry type low high (addr < ·) = ∅ ∧ right = high

structure LinearScan (entry : Int → Stab) (type : UInt8) (low high : Int) (addr : UInt32)
    (left right : Int) : Prop where
  left : IsGreatest (matching entry type low high (· ≤ addr)) left
  right : RightEnd entry type low high addr right

variable {stabs : Stabs} {entry : Int → Stab} {type : UInt8} {low high : Int}

theorem Brackets.linearScan {addr : UInt32} {left right : Int}
    (brackets : Brackets entry type low high addr left right)
    (mono : Nondecreasing entry type low high) : LinearScan entry type low high addr left right := by
  obtain ⟨left_ge, left_high, left_typed, left_small⟩ := brackets.greatest.1
  have left_le := brackets.left_le
  have right_le := brackets.right_le
  have later (i : Int) (above : i ∈ matching entry type low high (addr < ·)) : right < i := by
    obtain ⟨ge, le, typed, large⟩ := above
    by_contra early
    by_cases after : left < i
    · exact brackets.none_between i after (by omega) typed
    · have small := mono i left ge (by omega) left_high typed left_typed
      exact UInt32.not_lt.mpr (UInt32.le_trans small left_small) large
  refine ⟨brackets.greatest, ?_⟩
  rcases lt_or_ge right high with inside | whole
  · have typed := brackets.next.resolve_left (by omega)
    refine .inl ⟨right + 1, ⟨⟨by omega, by omega, typed, ?_⟩, fun i above => later i above⟩, by omega⟩
    by_contra small
    have early := brackets.greatest.2 ⟨by omega, by omega, typed, UInt32.not_lt.mp small⟩
    omega
  · refine .inr ⟨Set.eq_empty_of_forall_notMem fun i above => ?_, by omega⟩
    have after := later i above
    have le := above.2.1
    omega

theorem stabBinsearch_inside (holds : Holds stabs entry low high) (nonneg : 0 ≤ low)
    (mono : Nondecreasing entry type low high) (addr : UInt32)
    (inside : (matching entry type low high (· < addr)).Nonempty)
    (absent : matching entry type low high (· = addr) = ∅) :
    ∃ left right, stabBinsearch stabs low high type addr = .done (left, right) ∧
      IsGreatest (matching entry type low high (· < addr)) left ∧
      RightEnd entry type low high addr right := by
  obtain ⟨e, e_ge, e_le, e_typed, e_less⟩ := inside
  have never (i : Int) (ge : low ≤ i) (le : i ≤ high) (typed : (entry i).nType = type) :
      (entry i).nValue ≠ addr := by
    intro same
    have member : i ∈ matching entry type low high (· = addr) := ⟨ge, le, typed, same⟩
    rw [absent] at member
    exact member
  obtain ⟨last, left, right, ran, -, window, ⟨narrows, key⟩, closed, outputs⟩ :=
    stabBinsearch_run type holds nonneg addr (by omega)
      (fun s => Narrows entry type low high addr s ∧ s.addr = addr) ⟨Narrows.initial addr, rfl⟩ (by
        rintro s next window ⟨narrows, key⟩ opened probe
        refine ⟨narrows.probe mono (.inl key) window opened (fun _ _ _ => key) probe, ?_⟩
        have low_le := window.low_le
        have le_high := window.le_high
        cases probe with
        | miss none => exact key
        | below m hit less => exact key
        | above m hit less => exact key
        | exact m hit same =>
          have ge := hit.ge
          have le := hit.le
          rw [key] at same
          exact absurd same (never m (by omega) (by omega) hit.typed))
  have scan := (narrows.brackets window closed outputs
    ⟨e, e_ge, e_le, e_typed, UInt32.le_of_lt e_less⟩).linearScan mono
  have same : matching entry type low high (· ≤ addr) = matching entry type low high (· < addr) := by
    ext i
    constructor
    · rintro ⟨ge, le, typed, small⟩
      exact ⟨ge, le, typed, UInt32.lt_of_le_of_ne small (never i ge le typed)⟩
    · rintro ⟨ge, le, typed, less⟩
      exact ⟨ge, le, typed, UInt32.le_of_lt less⟩
  exact ⟨left, right, ran, same ▸ scan.left, scan.right⟩

def spacedLines : DebugTables :=
  { stabs := [⟨0, nSLINE, 0, 5⟩, ⟨0, nFUN, 0, 1⟩, ⟨0, nSLINE, 0, 9⟩], stabstr := [] }

theorem spacedLines_inside :
    ∃ left right, stabBinsearch spacedLines.at 0 2 nSLINE 7 = .done (left, right) ∧
      IsGreatest (matching (entryOf spacedLines) nSLINE 0 2 (· < 7)) left ∧
      RightEnd (entryOf spacedLines) nSLINE 0 2 7 right := by
  have holds : Holds spacedLines.at (entryOf spacedLines) 0 2 := at_holds spacedLines
  refine stabBinsearch_inside holds le_rfl ?_ 7 ⟨0, le_rfl, by decide, rfl, by decide⟩ ?_
  · intro i j i_ge i_le j_le
    obtain rfl | rfl | rfl : i = 0 ∨ i = 1 ∨ i = 2 := by omega
    all_goals obtain rfl | rfl | rfl : j = 0 ∨ j = 1 ∨ j = 2 := by omega
    all_goals first | omega | decide
  · refine Set.eq_empty_of_forall_notMem fun i member => ?_
    obtain ⟨ge, le, typed, same⟩ := member
    obtain rfl | rfl | rfl : i = 0 ∨ i = 1 ∨ i = 2 := by omega
    all_goals revert typed same; decide

theorem stabBinsearch_notFound (holds : Holds stabs entry low high) (nonneg : 0 ≤ low)
    (type : UInt8) (addr : UInt32) :
    ∃ left right, stabBinsearch stabs low high type addr = .done (left, right) ∧
      (right < left ↔ ∀ i, low ≤ i → i ≤ high → (entry i).nType ≠ type) := by
  by_cases near : low ≤ high + 1
  · obtain ⟨left, right, ran, bounds⟩ := stabBinsearch_bounds type holds nonneg addr near
    refine ⟨left, right, ran, ?_⟩
    rcases bounds with ⟨rfl, rfl, none⟩ | ⟨-, left_le, -, i, ge, le, typed⟩
    · exact ⟨fun _ => none, fun _ => by omega⟩
    · exact ⟨fun missing => by omega, fun none => absurd typed (none i ge le)⟩
  · refine ⟨low, low - 1, ?_, fun _ i ge le => by omega, fun _ => by omega⟩
    have left : binsearchPass stabs type (Search.initial low high addr) =
        .done (.leave (Search.initial low high addr)) :=
      binsearchPass_leave _ (by dsimp only [Search.initial]; omega)
    have ran := Loop.run_leave (2 * (high - low + 1).toNat + 1) left
    rw [Search.initial] at ran
    simp [stabBinsearch, searchFuel, ran]

def adjacentLines : DebugTables :=
  { stabs := [⟨0, nSLINE, 0, 5⟩, ⟨0, nSLINE, 0, 6⟩], stabstr := [] }

-- Both lines start above the address, and the range that comes back is not empty.
theorem adjacentLines_found :
    stabBinsearch adjacentLines.at 0 1 nSLINE 4 = .done (-1, -1) ∧ ¬ (-1 : Int) < -1 := by
  decide +kernel

theorem adjacentLines_notFound :
    ∃ left right, stabBinsearch adjacentLines.at 0 1 nSLINE 4 = .done (left, right) ∧
      (right < left ↔ ∀ i, 0 ≤ i → i ≤ 1 → (entryOf adjacentLines i).nType ≠ nSLINE) :=
  stabBinsearch_notFound (at_holds adjacentLines) le_rfl nSLINE 4

inductive Moves (entry : Int → Stab) (type : UInt8) (key : UInt32) : Int × Int → Int × Int → Prop
  | miss {l r : Int} (opened : l ≤ r)
      (none : ∀ i, l ≤ i → i ≤ (l + r) / 2 → (entry i).nType ≠ type) :
      Moves entry type key (l, r) ((l + r) / 2 + 1, r)
  | below {l r : Int} (m : Int) (hit : Hit entry type l r m) (less : (entry m).nValue < key) :
      Moves entry type key (l, r) ((l + r) / 2 + 1, r)
  | above {l r : Int} (m : Int) (hit : Hit entry type l r m) (more : key < (entry m).nValue) :
      Moves entry type key (l, r) (l, m - 1)

def Reaches (entry : Int → Stab) (type : UInt8) (key : UInt32) : Int × Int → Int × Int → Prop :=
  Relation.ReflTransGen (Moves entry type key)

def Compared (entry : Int → Stab) (type : UInt8) (key : UInt32) (l r m : Int) : Prop :=
  ∃ l' r', Reaches entry type key (l, r) (l', r') ∧ Hit entry type l' r' m

theorem Hit.opened {l r m : Int} (hit : Hit entry type l r m) : l ≤ r := by
  have ge := hit.ge
  have le := hit.le
  omega

theorem Hit.exists_of_typed {l r : Int} (opened : l ≤ r) (typed : (entry l).nType = type) :
    ∃ m, Hit entry type l r m := by
  obtain ⟨m, ⟨⟨ge, le⟩, found⟩, greatest⟩ := Int.exists_greatest_of_bdd
    (P := fun i => (l ≤ i ∧ i ≤ (l + r) / 2) ∧ (entry i).nType = type)
    ⟨(l + r) / 2, fun i inside => inside.1.2⟩ ⟨l, ⟨le_rfl, by omega⟩, typed⟩
  refine ⟨m, ge, le, found, fun i gt le' typed' => ?_⟩
  have := greatest i ⟨⟨by omega, le'⟩, typed'⟩
  omega

theorem Moves.unique {key : UInt32} : Relator.RightUnique (Moves entry type key) := by
  rintro ⟨l, r⟩ _ _ (⟨opened, none⟩ | ⟨m, hit, less⟩ | ⟨m, hit, more⟩) second
  · cases second with
    | miss => rfl
    | below m' hit' => rfl
    | above m' hit' => exact absurd hit'.typed (none m' hit'.ge hit'.le)
  · cases second with
    | miss => rfl
    | below m' hit' => rfl
    | above m' hit' more' =>
      rw [← hit.unique hit'] at more'
      exact absurd more' (UInt32.lt_asymm less)
  · cases second with
    | miss opened' none' => exact absurd hit.typed (none' m hit.ge hit.le)
    | below m' hit' less' =>
      rw [← hit.unique hit'] at less'
      exact absurd less' (UInt32.lt_asymm more)
    | above m' hit' => rw [hit.unique hit']

theorem Hit.stops {key : UInt32} {l r m : Int} (hit : Hit entry type l r m)
    (same : (entry m).nValue = key) (next : Int × Int) : ¬ Moves entry type key (l, r) next := by
  intro moves
  cases moves with
  | miss opened none => exact none m hit.ge hit.le hit.typed
  | below m' hit' less =>
    rw [← hit.unique hit', same] at less
    exact UInt32.lt_irrefl _ less
  | above m' hit' more =>
    rw [← hit.unique hit', same] at more
    exact UInt32.lt_irrefl _ more

theorem Moves.keeps {key : UInt32} {start finish : Int × Int} {e : Int}
    (mono : Nondecreasing entry type low high) (moves : Moves entry type key start finish)
    (low_le : low ≤ start.1) (le_high : start.2 ≤ high) (ge : start.1 ≤ e) (le : e ≤ start.2)
    (typed : (entry e).nType = type) (same : (entry e).nValue = key) :
    finish.1 ≤ e ∧ e ≤ finish.2 := by
  cases moves with
  | miss opened none =>
    refine ⟨?_, le⟩
    by_contra early
    exact none e ge (by dsimp only at early; omega) typed
  | below m hit less =>
    have m_ge := hit.ge
    have m_le := hit.le
    dsimp only at low_le le_high ge le ⊢
    refine ⟨?_, le⟩
    by_contra early
    by_cases after : m < e
    · exact hit.last e after (by omega) typed
    · have small := mono e m (by omega) (by omega) (by omega) typed hit.typed
      rw [same] at small
      exact UInt32.not_lt.mpr small less
  | above m hit more =>
    have m_ge := hit.ge
    have m_le := hit.le
    dsimp only at low_le le_high ge le ⊢
    refine ⟨ge, ?_⟩
    by_contra late
    have large := mono m e (by omega) (by omega) (by omega) hit.typed typed
    rw [same] at large
    exact UInt32.not_lt.mpr large more

theorem Reaches.right_le {key : UInt32} {a b : Int × Int} (reaches : Reaches entry type key a b) :
    b.2 ≤ a.2 := by
  induction reaches with
  | refl => exact le_rfl
  | tail _ moves ih =>
    refine le_trans ?_ ih
    cases moves with
    | miss => exact le_rfl
    | below => exact le_rfl
    | above m hit =>
      have opened := hit.opened
      have le := hit.le
      dsimp only
      omega

theorem Reaches.before {key : UInt32} {a b : Int × Int} {l r m : Int}
    (first : Reaches entry type key a b) (second : Reaches entry type key a (l, r))
    (hit : Hit entry type l r m) (same : (entry m).nValue = key) :
    Reaches entry type key b (l, r) := by
  rcases Relation.ReflTransGen.total_of_right_unique Moves.unique first second with on | back
  · exact on
  · rcases Relation.ReflTransGen.cases_head back with rfl | ⟨next, moves, -⟩
    · exact .refl
    · exact absurd moves (hit.stops same next)

theorem Compared.of_match {key : UInt32} {l r l' r' m first : Int}
    (compared : Compared entry type key l r first) (reaches : Reaches entry type key (l, r) (l', r'))
    (hit : Hit entry type l' r' m) (same : (entry m).nValue = key) :
    first = m ∨ key < (entry first).nValue ∧ r' < first ∨ (entry first).nValue < key := by
  obtain ⟨l₁, r₁, there, hit₁⟩ := compared
  rcases Relation.ReflTransGen.cases_head (there.before reaches hit same) with
    equal | ⟨next, moves, rest⟩
  · cases equal
    exact .inl (hit₁.unique hit)
  · cases moves with
    | miss opened none => exact absurd hit₁.typed (none first hit₁.ge hit₁.le)
    | below m' hit' less =>
      rw [hit'.unique hit₁] at less
      exact .inr (.inr less)
    | above m' hit' more =>
      have right_le := Reaches.right_le rest
      rw [hit'.unique hit₁] at more right_le
      dsimp only at right_le
      exact .inr (.inl ⟨more, by omega⟩)

theorem Reaches.compared {key : UInt32} {start finish : Int × Int} {first : Int}
    (reaches : Reaches entry type key start finish) (low_le : low ≤ start.1)
    (le_high : start.2 ≤ high) (least : IsLeast (matching entry type low high (key < ·)) first)
    (inside : first ≤ start.2) (outside : finish.2 < first) :
    Compared entry type key start.1 start.2 first := by
  induction reaches using Relation.ReflTransGen.head_induction_on with
  | refl => omega
  | head moves rest ih =>
    have extend {l r l' r' : Int} (moves : Moves entry type key (l, r) (l', r'))
        (compared : Compared entry type key l' r' first) : Compared entry type key l r first := by
      obtain ⟨l₁, r₁, reaches, hit⟩ := compared
      exact ⟨l₁, r₁, .head moves reaches, hit⟩
    cases moves with
    | miss opened none =>
      refine extend (.miss opened none) (ih ?_ le_high inside)
      dsimp only at low_le ⊢
      omega
    | below m hit less =>
      have opened := hit.opened
      refine extend (.below m hit less) (ih ?_ le_high inside)
      dsimp only at low_le ⊢
      omega
    | @above l r m hit more =>
      have opened := hit.opened
      have ge := hit.ge
      have le := hit.le
      dsimp only at low_le le_high
      have first_le := least.2 ⟨by omega, by omega, hit.typed, more⟩
      by_cases same : first = m
      · exact ⟨l, r, .refl, same ▸ hit⟩
      · exact extend (.above m hit more) (ih low_le (by dsimp only; omega) (by dsimp only; omega))

theorem Falls.of_all_above {key : UInt32} (l r : Int) (opened : l ≤ r)
    (typed : (entry l).nType = type)
    (above : ∀ i, l ≤ i → i ≤ r → (entry i).nType = type → key < (entry i).nValue) :
    Falls entry type l key r := by
  obtain ⟨m, hit⟩ := Hit.exists_of_typed opened typed
  have ge := hit.ge
  have le := hit.le
  have more := above m ge (by omega) hit.typed
  by_cases bottom : m = l
  · subst bottom
    exact .bottom hit more
  · exact .left m hit more
      (Falls.of_all_above l (m - 1) (by omega) typed fun i ge le => above i ge (by omega))
termination_by (r - l).toNat

structure Meets (entry : Int → Stab) (type : UInt8) (low high : Int) (key : UInt32) (l r : Int)
    (t : Search) (m : Int) : Prop where
  window : Window entry type low high t
  sought : t.addr = key
  reaches : Reaches entry type key (l, r) (t.l, t.r)
  hit : Hit entry type t.l t.r m
  same : (entry m).nValue = key

theorem run_meets (holds : Holds stabs entry low high) (nonneg : 0 ≤ low)
    (mono : Nondecreasing entry type low high) (fuel : Nat) (s last : Search)
    (window : Window entry type low high s)
    (present : ∃ e, s.l ≤ e ∧ e ≤ s.r ∧ (entry e).nType = type ∧ (entry e).nValue = s.addr)
    (ran : Loop.run (binsearchPass stabs type) fuel s = .done last) (inv : Search → Prop)
    (initial : inv s)
    (preserved : ∀ t next, Window entry type low high t → inv t → t.l ≤ t.r →
      (∀ m, Hit entry type t.l t.r m → (entry m).nValue ≠ t.addr) →
      Probe entry type t next → inv next) :
    ∃ rest t m, inv t ∧ Meets entry type low high s.addr s.l s.r t m ∧
      Loop.run (binsearchPass stabs type) rest (t.matched m) = .done last := by
  induction fuel generalizing s with
  | zero => simp [Loop.run] at ran
  | succ fuel ih =>
    obtain ⟨e, e_ge, e_le, e_typed, e_same⟩ := present
    have opened : s.l ≤ s.r := e_ge.trans e_le
    have low_le := window.low_le
    have le_high := window.le_high
    obtain ⟨next, step, probe⟩ := binsearchPass_probe type holds s nonneg low_le le_high opened
    rw [Loop.run_again fuel step] at ran
    have kept := window.probe opened probe
    have further (moves : Moves entry type s.addr (s.l, s.r) (next.l, next.r))
        (key : next.addr = s.addr) :
        ∃ rest t m, inv t ∧ Meets entry type low high s.addr s.l s.r t m ∧
          Loop.run (binsearchPass stabs type) rest (t.matched m) = .done last := by
      obtain ⟨le, ge⟩ := moves.keeps mono low_le le_high e_ge e_le e_typed e_same
      obtain ⟨rest, t, m, inv', meets, ended⟩ := ih next kept
        ⟨e, le, ge, e_typed, e_same.trans key.symm⟩ ran
        (preserved s next window initial opened (fun m hit same => hit.stops same _ moves) probe)
      rw [key] at meets
      exact ⟨rest, t, m, inv', { meets with reaches := .head moves meets.reaches }, ended⟩
    cases probe with
    | miss none => exact further (.miss opened none) rfl
    | below m hit less => exact further (.below m hit less) rfl
    | above m hit more => exact further (.above m hit more) rfl
    | exact m hit same => exact ⟨fuel, s, m, initial, ⟨window, rfl, .refl, hit, same⟩, ran⟩

-- The last key before the search wraps around: its successor is the greatest address, and a match
-- with that one throws the rest away, which is right if it is the entry just after the left end.
def TopNeighbour (entry : Int → Stab) (type : UInt8) (low high first : Int) : Prop :=
  (entry (first - 1)).nType = type ∧ ∃ m l r,
    Reaches entry type 0xfffffffe (low, high) (l, r) ∧ Hit entry type l r m ∧
      (entry m).nValue = 0xfffffffe ∧ Compared entry type 0xffffffff m r first

-- An entry one byte above `addr` does no harm if it was compared with `addr` before the match.
def Separates (entry : Int → Stab) (type : UInt8) (low high : Int) (addr : UInt32) : Prop :=
  addr ≠ 0xffffffff ∧ ∀ first, IsLeast (matching entry type low high (addr < ·)) first →
    (entry first).nValue = addr + 1 → Compared entry type addr low high first ∨
      addr = 0xfffffffe ∧ TopNeighbour entry type low high first

theorem Meets.inside {key : UInt32} {l r m : Int} {t : Search}
    (meets : Meets entry type low high key l r t m) : low ≤ m ∧ m ≤ t.r ∧ t.r ≤ high := by
  have ge := meets.hit.ge
  have le := meets.hit.le
  have low_le := meets.window.low_le
  have le_high := meets.window.le_high
  omega

theorem Meets.matched {key : UInt32} {l r m : Int} {t : Search}
    (meets : Meets entry type low high key l r t m) : Window entry type low high (t.matched m) :=
  meets.window.probe meets.hit.opened (.exact m meets.hit (meets.same.trans meets.sought.symm))

theorem toNat_lt_top (a : UInt32) (room : a ≠ 0xffffffff) : a.toNat < 4294967295 := by
  have bound := a.toNat_lt
  simp only [ne_eq, ← UInt32.toNat_inj, UInt32.reduceToNat] at room
  omega

theorem Meets.linearScan {addr : UInt32} {m left right : Int} {rest : Nat} {t last : Search}
    (holds : Holds stabs entry low high) (nonneg : 0 ≤ low)
    (mono : Nondecreasing entry type low high) (room : addr ≠ 0xffffffff)
    (meets : Meets entry type low high addr low high t m)
    (narrows : Narrows entry type low high addr t)
    (alone : ∀ i, m ≤ i → i ≤ t.r → (entry i).nType = type → (entry i).nValue ≠ addr + 1)
    (ran : Loop.run (binsearchPass stabs type) rest (t.matched m) = .done last)
    (outputs : Outputs entry type low last left right) :
    LinearScan entry type low high addr left right := by
  have below := toNat_lt_top addr room
  obtain ⟨ge, le, le_high⟩ := meets.inside
  have same := meets.same.trans meets.sought.symm
  have narrows' : Narrows entry type low high addr (t.matched m) :=
    narrows.probe mono (.inl meets.sought) meets.window meets.hit.opened (fun _ _ _ => meets.sought)
      (.exact m meets.hit same)
  obtain ⟨window, ⟨kept, -⟩, closed⟩ := run_keeps holds nonneg rest _ last meets.matched ran
    (fun u => Narrows entry type low high addr u ∧ u.addr = addr + 1 ∧ m ≤ u.l ∧ u.r ≤ t.r)
    ⟨narrows', by simp [Search.matched, meets.sought], le_rfl, le_rfl⟩ (by
      rintro u next window ⟨narrows, key, m_le, le_r⟩ opened probe
      have never (i : Int) (hit : Hit entry type u.l u.r i) : (entry i).nValue ≠ u.addr := by
        have ge := hit.ge
        have le := hit.le
        rw [key]
        exact alone i (by omega) (by omega) hit.typed
      refine ⟨narrows.probe mono (.inr below) window opened
        (fun i hit same => absurd same (never i hit)) probe, ?_⟩
      cases probe with
      | miss none => exact ⟨key, by dsimp only; omega, le_r⟩
      | below i hit less => exact ⟨key, by dsimp only; omega, le_r⟩
      | above i hit more =>
        have le := hit.le
        exact ⟨key, m_le, by dsimp only; omega⟩
      | exact i hit same => exact absurd same (never i hit))
  refine (kept.brackets window closed outputs ⟨m, ge, by omega, meets.hit.typed, ?_⟩).linearScan mono
  rw [meets.same]
  exact UInt32.le_refl addr

theorem Meets.le_right {key : UInt32} {l r m : Int} {rest : Nat} {t last : Search}
    (meets : Meets entry type low high key l r t m) (holds : Holds stabs entry low high)
    (nonneg : 0 ≤ low) (room : key ≠ 0xffffffff)
    (ran : Loop.run (binsearchPass stabs type) rest (t.matched m) = .done last) : m ≤ last.r := by
  have opened : (t.matched m).l ≤ (t.matched m).r := meets.inside.2.1
  have ge := run_right_ge holds nonneg rest _ last meets.matched ran
  have bottom := (run_bottom holds nonneg rest _ last meets.matched opened ran).1
  dsimp only [Search.matched] at ge bottom
  by_contra below
  rcases bottom (by omega) with falls | wraps
  · have more := falls.last.2
    rw [meets.same, meets.sought] at more
    exact room ((lt_add_one_iff key).1 more)
  · have same := wraps.same
    rw [meets.same, meets.sought] at same
    simp at same

theorem Meets.wrapped {l r m left right : Int} {rest : Nat} {t last : Search}
    (meets : Meets entry type low high 0xffffffff l r t m) (holds : Holds stabs entry low high)
    (nonneg : 0 ≤ low) (mono : Nondecreasing entry type low high)
    (ran : Loop.run (binsearchPass stabs type) rest (t.matched m) = .done last)
    (outputs : Outputs entry type low last left right) : left = m - 1 ∧ right = m - 1 := by
  obtain ⟨ge, le, le_high⟩ := meets.inside
  have zero : t.addr + 1 = 0 := by
    rw [meets.sought]
    rfl
  have falls : Falls entry type m (t.addr + 1) t.r := by
    refine .of_all_above m t.r le meets.hit.typed fun i ge' le' typed => ?_
    rw [zero]
    have large := mono m i ge ge' (by omega) meets.hit.typed typed
    rw [meets.same] at large
    exact UInt32.lt_of_lt_of_le (by decide) large
  obtain ⟨right_eq, left_eq, met⟩ := run_matched holds nonneg rest t last meets.window m meets.hit
    (meets.same.trans meets.sought.symm) falls ran
  rcases outputs with ⟨fresh, -, -⟩ | ⟨-, rfl, scan⟩
  · rw [met] at fresh
    cases fresh
  · have le_start := scan.le_start
    have near_low := scan.near_low
    omega

theorem RightEnd.eq {addr : UInt32} {first right : Int}
    (ends : RightEnd entry type low high addr right)
    (least : IsLeast (matching entry type low high (addr < ·)) first) : right = first - 1 := by
  rcases ends with ⟨other, least', rfl⟩ | ⟨empty, -⟩
  · rw [least'.unique least]
  · have member := least.1
    rw [empty] at member
    exact absurd member (Set.notMem_empty first)

theorem exists_first {addr : UInt32} {i : Int}
    (above : i ∈ matching entry type low high (addr < ·)) :
    ∃ first, IsLeast (matching entry type low high (addr < ·)) first := by
  obtain ⟨first, member, least⟩ := Int.exists_least_of_bdd
    (P := fun i => i ∈ matching entry type low high (addr < ·)) ⟨low, fun i member => member.1⟩
    ⟨i, above⟩
  exact ⟨first, member, least⟩

theorem Outputs.right_eq {last : Search} {i left right : Int}
    (outputs : Outputs entry type low last left right) (window : Window entry type low high last)
    (closed : last.l = last.r + 1) (ge : low ≤ i) (le : i ≤ high) (typed : (entry i).nType = type) :
    right = last.r := by
  rcases outputs with ⟨fresh, -, -⟩ | ⟨-, right_eq, -⟩
  · obtain ⟨-, whole, before⟩ := window.fresh fresh
    exact absurd typed (before i ge (by omega))
  · exact right_eq

theorem Meets.not_compared {addr : UInt32} {m first : Int} {t : Search}
    (meets : Meets entry type low high addr low high t m)
    (least : IsLeast (matching entry type low high (addr < ·)) first) (inside : first ≤ t.r) :
    ¬ Compared entry type addr low high first := by
  intro compared
  have more := least.1.2.2.2
  rcases compared.of_match meets.reaches meets.hit meets.same with rfl | ⟨-, outside⟩ | less
  · rw [meets.same] at more
    exact UInt32.lt_irrefl _ more
  · omega
  · exact UInt32.lt_asymm less more

theorem Meets.topNeighbour {m m' first : Int} {t t' : Search}
    (meets : Meets entry type low high 0xfffffffe low high t m)
    (again : Meets entry type low high 0xffffffff m t.r t' m')
    (successor : (entry first).nValue = 0xffffffff) :
    TopNeighbour entry type low high first ↔ (entry (first - 1)).nType = type ∧ first = m' := by
  constructor
  · rintro ⟨typed, n, l, r, reaches, hit, same, compared⟩
    refine ⟨typed, ?_⟩
    have before := reaches.before meets.reaches meets.hit meets.same
    rcases Relation.ReflTransGen.cases_head before with equal | ⟨next, moves, -⟩
    · cases equal
      rw [hit.unique meets.hit] at compared
      rcases compared.of_match again.reaches again.hit again.same with met | ⟨more, -⟩ | less
      · exact met
      · rw [successor] at more
        exact absurd more (UInt32.lt_irrefl _)
      · rw [successor] at less
        exact absurd less (UInt32.lt_irrefl _)
    · exact absurd moves (hit.stops same next)
  · rintro ⟨typed, rfl⟩
    exact ⟨typed, m, t.l, t.r, meets.reaches, meets.hit, meets.same, t'.l, t'.r, again.reaches,
      again.hit⟩

theorem Meets.before_first {addr : UInt32} {m first : Int} {t : Search}
    (meets : Meets entry type low high addr low high t m) (mono : Nondecreasing entry type low high)
    (least : IsLeast (matching entry type low high (addr < ·)) first) : m < first := by
  obtain ⟨m_ge, m_le, r_le⟩ := meets.inside
  obtain ⟨ge, le, typed, more⟩ := least.1
  by_contra early
  have small := mono first m ge (by omega) (by omega) typed meets.hit.typed
  rw [meets.same] at small
  exact UInt32.not_lt.mpr small more

theorem Meets.separates {addr : UInt32} {m : Int} {t : Search}
    (meets : Meets entry type low high addr low high t m) (mono : Nondecreasing entry type low high)
    (top : addr ≠ 0xffffffff)
    (alone : ∀ i, m ≤ i → i ≤ t.r → (entry i).nType = type → (entry i).nValue ≠ addr + 1) :
    Separates entry type low high addr := by
  refine ⟨top, fun first least successor => .inl ?_⟩
  have after := meets.before_first mono least
  obtain ⟨ge, le, typed, more⟩ := least.1
  refine Reaches.compared meets.reaches le_rfl le_rfl least le ?_
  by_contra inside
  exact alone first (by omega) (by omega) typed successor

theorem lt_successor {addr : UInt32} (top : addr ≠ 0xffffffff) : addr < addr + 1 := by
  rw [UInt32.lt_iff_toNat_lt, toNat_succ addr (toNat_lt_top addr top)]
  omega

theorem first_successor {addr : UInt32} {first i : Int} (mono : Nondecreasing entry type low high)
    (top : addr ≠ 0xffffffff) (least : IsLeast (matching entry type low high (addr < ·)) first)
    (above : i ∈ matching entry type low high (addr < ·)) (same : (entry i).nValue = addr + 1) :
    (entry first).nValue = addr + 1 := by
  have small := mono first i least.1.1 (least.2 above) above.2.1 least.1.2.2.1 above.2.2.1
  have more := least.1.2.2.2
  rw [same, UInt32.le_iff_toNat_le, toNat_succ addr (toNat_lt_top addr top)] at small
  rw [UInt32.lt_iff_toNat_lt] at more
  rw [← UInt32.toNat_inj, toNat_succ addr (toNat_lt_top addr top)]
  omega

theorem linearScan_before_first {addr : UInt32} {first : Int}
    (mono : Nondecreasing entry type low high)
    (least : IsLeast (matching entry type low high (addr < ·)) first) (inside : low < first)
    (typed : (entry (first - 1)).nType = type) :
    LinearScan entry type low high addr (first - 1) (first - 1) := by
  obtain ⟨ge, le, first_typed, more⟩ := least.1
  refine ⟨⟨⟨by omega, by omega, typed, ?_⟩, ?_⟩, .inl ⟨first, least, rfl⟩⟩
  · refine UInt32.not_lt.mp fun more => ?_
    have early := least.2 ⟨by omega, by omega, typed, more⟩
    omega
  · rintro i ⟨i_ge, i_le, i_typed, small⟩
    by_contra late
    have large := mono first i ge (by omega) i_le first_typed i_typed
    exact UInt32.not_lt.mpr (UInt32.le_trans large small) more

theorem stabBinsearch_exact (holds : Holds stabs entry low high) (nonneg : 0 ≤ low)
    (mono : Nondecreasing entry type low high) (addr : UInt32)
    (present : (matching entry type low high (· = addr)).Nonempty) :
    ∃ left right, stabBinsearch stabs low high type addr = .done (left, right) ∧
      (LinearScan entry type low high addr left right ↔
        Separates entry type low high addr) := by
  obtain ⟨e, e_ge, e_le, e_typed, e_same⟩ := present
  obtain ⟨last, left, right, ran, searched, window, -, closed, outputs⟩ :=
    stabBinsearch_run type holds nonneg addr (by omega) (fun _ => True) trivial
      (fun _ _ _ _ _ _ => trivial)
  obtain ⟨rest, t, m, ⟨narrows, key⟩, meets, ended⟩ :=
    run_meets holds nonneg mono _ _ last (Window.initial addr (by omega))
      ⟨e, e_ge, e_le, e_typed, e_same⟩ searched
      (fun u => Narrows entry type low high addr u ∧ u.addr = addr) ⟨Narrows.initial addr, rfl⟩ (by
        rintro u next window ⟨narrows, key⟩ opened others probe
        refine ⟨narrows.probe mono (.inl key) window opened (fun _ _ _ => key) probe, ?_⟩
        cases probe with
        | miss none => exact key
        | below i hit less => exact key
        | above i hit more => exact key
        | exact i hit same => exact absurd same (others i hit))
  obtain ⟨m_ge, m_le, r_le⟩ := meets.inside
  refine ⟨left, right, ran, ?_⟩
  by_cases top : addr = 0xffffffff
  · -- The key has wrapped around: the rest of the range is lost, though nothing is above `addr`.
    subst top
    obtain ⟨-, rfl⟩ := meets.wrapped holds nonneg mono ended outputs
    refine ⟨fun scan => ?_, fun separates => absurd rfl separates.1⟩
    rcases scan.right with ⟨first, ⟨member, -⟩, -⟩ | ⟨-, whole⟩
    · exact absurd member.2.2.2 (not_top_lt _)
    · omega
  by_cases alone : ∀ i, m ≤ i → i ≤ t.r → (entry i).nType = type → (entry i).nValue ≠ addr + 1
  · exact ⟨fun _ => meets.separates mono top alone, fun _ =>
      meets.linearScan holds nonneg mono top narrows alone ended outputs⟩
  -- The successor is still in the range, so the search meets it too.
  push Not at alone
  obtain ⟨s, s_ge, s_le, s_typed, successor⟩ := alone
  have key' : (t.matched m).addr = addr + 1 := by simp [Search.matched, key]
  obtain ⟨rest', t', m', -, again, ended'⟩ :=
    run_meets holds nonneg mono rest _ last meets.matched
      ⟨s, s_ge, s_le, s_typed, successor.trans key'.symm⟩ ended (fun _ => True) trivial
      (fun _ _ _ _ _ _ _ => trivial)
  rw [key'] at again
  obtain ⟨m'_ge, m'_le, r'_le⟩ := again.inside
  have above : s ∈ matching entry type low high (addr < ·) :=
    ⟨by omega, by omega, s_typed, successor ▸ lt_successor top⟩
  obtain ⟨first, least⟩ := exists_first above
  have first_le := least.2 above
  have first_succ := first_successor mono top least above successor
  have not_compared := meets.not_compared least (by omega)
  have separates_iff : Separates entry type low high addr ↔
      addr = 0xfffffffe ∧ TopNeighbour entry type low high first := by
    constructor
    · exact fun separates => (separates.2 first least first_succ).resolve_left not_compared
    · exact fun top' => ⟨top, fun other least' _ => .inr (least'.unique least ▸ top')⟩
  rw [separates_iff]
  by_cases wraps : addr = 0xfffffffe
  · subst wraps
    obtain ⟨rfl, rfl⟩ := again.wrapped holds nonneg mono ended' outputs
    rw [meets.topNeighbour again first_succ]
    constructor
    · intro scan
      have right_eq := scan.right.eq least
      obtain rfl : first = m' := by omega
      exact ⟨rfl, scan.left.1.2.2.1, rfl⟩
    · rintro ⟨-, typed, rfl⟩
      have after := meets.before_first mono least
      exact linearScan_before_first mono least (by omega) typed
  · have inside := again.le_right holds nonneg
      (fun succ => wraps (by rw [← UInt32.add_left_inj 1, succ]; rfl)) ended'
    have right_eq := outputs.right_eq window closed m_ge (by omega) meets.hit.typed
    have first_le' := least.2 ⟨m'_ge, by omega, again.hit.typed, again.same ▸ lt_successor top⟩
    constructor
    · intro scan
      have right_eq' := scan.right.eq least
      omega
    · exact fun top' => absurd top'.1 wraps

theorem adjacentLines_spoiled :
    stabBinsearch adjacentLines.at 0 1 nSLINE 5 = .done (1, 1) ∧
      ¬ LinearScan (entryOf adjacentLines) nSLINE 0 1 5 1 1 :=
  ⟨by decide +kernel, fun scan => absurd scan.left.1.2.2.2 (by decide)⟩

theorem adjacentLines_nondecreasing : Nondecreasing (entryOf adjacentLines) nSLINE 0 1 := by
  intro i j i_ge i_le j_le
  obtain rfl | rfl : i = 0 ∨ i = 1 := by omega
  all_goals obtain rfl | rfl : j = 0 ∨ j = 1 := by omega
  all_goals first | omega | decide

theorem adjacentLines_separates : Separates (entryOf adjacentLines) nSLINE 0 1 6 := by
  refine ⟨by decide, fun first least => ?_⟩
  obtain ⟨ge, le, -, above⟩ := least.1
  obtain rfl | rfl : first = 0 ∨ first = 1 := by omega
  all_goals exact absurd above (by decide)

theorem adjacentLines_exact :
    (∃ left right, stabBinsearch adjacentLines.at 0 1 nSLINE 5 = .done (left, right) ∧
      (LinearScan (entryOf adjacentLines) nSLINE 0 1 5 left right ↔
        Separates (entryOf adjacentLines) nSLINE 0 1 5)) ∧
    ∃ left right, stabBinsearch adjacentLines.at 0 1 nSLINE 6 = .done (left, right) ∧
      LinearScan (entryOf adjacentLines) nSLINE 0 1 6 left right := by
  have holds : Holds adjacentLines.at (entryOf adjacentLines) 0 1 := at_holds adjacentLines
  constructor
  · exact stabBinsearch_exact holds le_rfl adjacentLines_nondecreasing 5
      ⟨0, le_rfl, by decide, rfl, rfl⟩
  · obtain ⟨left, right, ran, exact_iff⟩ :=
      stabBinsearch_exact holds le_rfl adjacentLines_nondecreasing 6 ⟨1, by decide, le_rfl, rfl, rfl⟩
    exact ⟨left, right, ran, exact_iff.2 adjacentLines_separates⟩

end JosLab.Kdebug
