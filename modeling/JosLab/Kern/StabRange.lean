import JosLab.Kern.StabSearch

set_option autoImplicit false

namespace JosLab.Kdebug

variable {low high : Int}

def markedType : UInt8 := 1

def mark (type : Int) (stab : Stab) : Stab :=
  { stab with nType := if (stab.nType : Int) = type then markedType else 0 }

theorem mark_type (type : Int) (stab : Stab) :
    (mark type stab).nType = markedType ↔ (stab.nType : Int) = type := by
  by_cases same : (stab.nType : Int) = type
  · simp [mark, same]
  · simp [mark, same, markedType]

def marked (stabs : Stabs) (type : Int) : Stabs := fun index => (stabs index).map (mark type)

theorem hasType_marked (stabs : Stabs) (type : Int) :
    hasType (marked stabs type) markedType = hasType stabs type := by
  funext index
  cases read : stabs index with
  | none => simp [hasType, stabAt, marked, read]
  | some stab => simp [hasType, stabAt, marked, read, UInt8.toNat_inj, mark_type]

theorem binsearchPass_marked (stabs : Stabs) (type : Int) :
    binsearchPass (marked stabs type) markedType = binsearchPass stabs type := by
  funext s
  unfold binsearchPass
  rw [hasType_marked]
  cases scanned : Scan.down (hasType stabs type) s.l ((s.l + s.r).tdiv 2) with
  | done m =>
    -- The entry the pass compares has the same value in both tables.
    cases read : stabs m with
    | none => simp [scanned, stabAt, marked, read]
    | some stab => simp [scanned, stabAt, marked, mark, read]
  | fault error => simp [scanned]
  | spin => simp [scanned]

theorem stabBinsearch_marked (stabs : Stabs) (type : Int) (addr : UInt32) :
    stabBinsearch (marked stabs type) low high markedType addr =
      stabBinsearch stabs low high type addr := by
  unfold stabBinsearch
  rw [binsearchPass_marked, hasType_marked]

section Extends

variable {small large : Stabs} (known : ∀ i stab, small i = some stab → large i = some stab)
include known

theorem stabAt_extends (index : Int) :
    Outcome.Extends (stabAt small index) (stabAt large index) :=
  Outcome.need_extends _ (known index)

theorem hasType_extends (type index : Int) :
    Outcome.Extends (hasType small type index) (hasType large type index) :=
  (stabAt_extends known index).bind fun _ => .refl _

theorem binsearchPass_extends (type : Int) (s : Search) :
    Outcome.Extends (binsearchPass small type s) (binsearchPass large type s) := by
  unfold binsearchPass
  split
  · refine (Scan.down_extends (hasType_extends known type) _ _).bind fun m => ?_
    split
    · exact .refl _
    · exact (stabAt_extends known m).bind fun _ => .refl _
  · exact .refl _

theorem stabBinsearch_extends (type : Int) (addr : UInt32) :
    Outcome.Extends (stabBinsearch small low high type addr)
      (stabBinsearch large low high type addr) := by
  refine (Loop.run_extends (binsearchPass_extends known type) _ _).bind fun s => ?_
  split
  · exact .refl _
  · exact (Scan.down_extends (hasType_extends known type) _ _).bind fun _ => .refl _

end Extends

def between (table : List Stab) (low high : Int) : Stabs := fun index =>
  if low ≤ index ∧ index ≤ high then tableStabs table index else none

theorem tableStabs_getD (table : List Stab) (i : Int) (nonneg : 0 ≤ i) (lt : i < table.length) :
    tableStabs table i = some (table.getD i.toNat default) := by
  have inside : i.toNat < table.length := by omega
  simp [tableStabs, nonneg, inside]

structure InRange (table : List Stab) (low high type left right : Int) : Prop where
  left_ge : low - 1 ≤ left
  right_ge : low - 1 ≤ right
  right_le : right ≤ high
  none_met : left = right + 1 ↔
    ∀ i, low ≤ i → i ≤ high → ((table.getD i.toNat default).nType : Int) ≠ type
  met : left ≠ right + 1 → left ≤ right

theorem stabBinsearch_inRange (table : List Stab) (low high : Int) (nonneg : 0 ≤ low)
    (near : low ≤ high + 1) (inside : high < table.length) (type : Int) (addr : UInt32) :
    ∃ left right, InRange table low high type left right ∧
      ∀ stabs : Stabs, (∀ i, low ≤ i → i ≤ high → stabs i = tableStabs table i) →
        stabBinsearch stabs low high type addr = .done (left, right) := by
  let entry : Int → Stab := fun i => mark type (table.getD i.toNat default)
  have holds : Holds (marked (between table low high) type) entry low high := by
    intro i ge le
    have read := tableStabs_getD table i (by omega) (by omega)
    simp [marked, between, ge, le, read, entry]
  obtain ⟨left, right, ran, bounds⟩ := stabBinsearch_bounds markedType holds nonneg addr near
  rw [stabBinsearch_marked] at ran
  simp only [entry, ne_eq, mark_type] at bounds
  refine ⟨left, right, ?_, fun stabs agrees => ?_⟩
  · rcases bounds with ⟨rfl, rfl, missing⟩ | ⟨left_ge, left_le, right_le, i, ge, le, typed⟩
    · exact ⟨by omega, le_rfl, by omega, ⟨fun _ => missing, fun _ => by omega⟩, by omega⟩
    · refine ⟨left_ge, by omega, right_le, ⟨by omega, fun missing => ?_⟩, fun _ => left_le⟩
      exact absurd typed (missing i ge le)
  · refine stabBinsearch_extends (fun i stab read => ?_) type addr _ ran
    by_cases around : low ≤ i ∧ i ≤ high
    · rw [between, if_pos around] at read
      rw [agrees i around.1 around.2, read]
    · rw [between, if_neg around] at read
      cases read

def unsortedLines : List Stab :=
  [⟨0, nSO, 0, 9⟩, ⟨0, nSLINE, 1, 0xffffffff⟩, ⟨0, nFUN, 0, 3⟩, ⟨0, nSLINE, 2, 4⟩,
    ⟨0, nSLINE, 3, 1⟩]

theorem unsortedLines_inRange :
    ∃ left right, InRange unsortedLines 1 3 nSLINE left right ∧
      ∀ stabs : Stabs, (∀ i, 1 ≤ i → i ≤ 3 → stabs i = tableStabs unsortedLines i) →
        stabBinsearch stabs 1 3 nSLINE 0xffffffff = .done (left, right) :=
  stabBinsearch_inRange unsortedLines 1 3 (by decide) (by decide) (by decide) nSLINE 0xffffffff

end JosLab.Kdebug
