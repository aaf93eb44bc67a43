import JosLab.Shared.Outcome

set_option autoImplicit false

-- A memory of which only some cells are mapped: any access to another cell is a fault.
structure Memory (α β : Type) where
  mapped : α → Bool
  value : α → β

namespace Memory

variable {ε α β : Type} [DecidableEq α]

omit [DecidableEq α] in
@[ext] theorem ext {m n : Memory α β} (mapped : ∀ a, m.mapped a = n.mapped a)
    (value : ∀ a, m.value a = n.value a) : m = n := by
  obtain ⟨m_mapped, m_value⟩ := m
  obtain ⟨n_mapped, n_value⟩ := n
  obtain rfl : m_mapped = n_mapped := funext mapped
  obtain rfl : m_value = n_value := funext value
  rfl

def load (oops : α → ε) (m : Memory α β) (a : α) : Outcome ε β :=
  if m.mapped a then .done (m.value a) else .fault (oops a)

def set (m : Memory α β) (a : α) (b : β) : Memory α β :=
  { m with value := fun x => if x = a then b else m.value x }

def store (oops : α → ε) (m : Memory α β) (a : α) (b : β) : Outcome ε (Memory α β) :=
  if m.mapped a then .done (m.set a b) else .fault (oops a)

@[simp] theorem set_mapped (m : Memory α β) (a x : α) (b : β) :
    (m.set a b).mapped x = m.mapped x := rfl

@[simp] theorem set_value (m : Memory α β) (a x : α) (b : β) :
    (m.set a b).value x = if x = a then b else m.value x := rfl

omit [DecidableEq α] in
theorem load_mapped (oops : α → ε) (m : Memory α β) (a : α) (mapped : m.mapped a = true) :
    m.load oops a = .done (m.value a) := by
  simp [load, mapped]

theorem store_mapped (oops : α → ε) (m : Memory α β) (a : α) (b : β)
    (mapped : m.mapped a = true) : m.store oops a b = .done (m.set a b) := by
  simp [store, mapped]

end Memory

namespace Memory

variable {β : Type}

def Maps (m : Memory Nat β) (low high : Nat) : Prop :=
  ∀ a, low ≤ a → a < high → m.mapped a = true

theorem Maps.narrow {m : Memory Nat β} {low high low' high' : Nat} (maps : m.Maps low high)
    (low_le : low ≤ low') (le_high : high' ≤ high) : m.Maps low' high' :=
  fun a ge lt => maps a (by omega) (by omega)

def blit (m : Memory Nat β) (base count : Nat) (cell : Nat → β) : Memory Nat β :=
  { m with value := fun a => if base ≤ a ∧ a < base + count then cell (a - base) else m.value a }

@[simp] theorem blit_mapped (m : Memory Nat β) (base count : Nat) (cell : Nat → β) (a : Nat) :
    (m.blit base count cell).mapped a = m.mapped a := rfl

theorem blit_maps (m : Memory Nat β) (base count low high : Nat) (cell : Nat → β) :
    (m.blit base count cell).Maps low high ↔ m.Maps low high := Iff.rfl

theorem blit_inside (m : Memory Nat β) (base count i : Nat) (cell : Nat → β) (lt : i < count) :
    (m.blit base count cell).value (base + i) = cell i := by
  have inside : base ≤ base + i ∧ base + i < base + count := by omega
  simp [blit, inside]

theorem blit_outside (m : Memory Nat β) (base count a : Nat) (cell : Nat → β)
    (outside : a < base ∨ base + count ≤ a) :
    (m.blit base count cell).value a = m.value a := by
  have out : ¬ (base ≤ a ∧ a < base + count) := by omega
  simp [blit, out]

theorem blit_zero (m : Memory Nat β) (base : Nat) (cell : Nat → β) : m.blit base 0 cell = m := by
  ext a
  · rfl
  · exact blit_outside m base 0 a cell (by omega)

theorem blit_congr (m : Memory Nat β) (base count : Nat) (cell cell' : Nat → β)
    (same : ∀ i < count, cell i = cell' i) : m.blit base count cell = m.blit base count cell' := by
  ext a
  · rfl
  by_cases inside : base ≤ a ∧ a < base + count
  · obtain ⟨i, rfl⟩ := Nat.exists_eq_add_of_le inside.1
    rw [blit_inside _ _ _ _ _ (by omega), blit_inside _ _ _ _ _ (by omega), same i (by omega)]
  · rw [blit_outside _ _ _ _ _ (by omega), blit_outside _ _ _ _ _ (by omega)]

theorem blit_same (m : Memory Nat β) (base count : Nat) (cell : Nat → β)
    (same : ∀ i < count, cell i = m.value (base + i)) : m.blit base count cell = m := by
  ext a
  · rfl
  by_cases inside : base ≤ a ∧ a < base + count
  · obtain ⟨i, rfl⟩ := Nat.exists_eq_add_of_le inside.1
    rw [blit_inside _ _ _ _ _ (by omega), same i (by omega)]
  · rw [blit_outside _ _ _ _ _ (by omega)]

theorem blit_blit (m : Memory Nat β) (base first second : Nat) (cell : Nat → β) :
    (m.blit base first cell).blit (base + first) second (fun i => cell (first + i)) =
      m.blit base (first + second) cell := by
  ext a
  · rfl
  by_cases early : base ≤ a ∧ a < base + first
  · obtain ⟨i, rfl⟩ := Nat.exists_eq_add_of_le early.1
    rw [blit_outside _ _ _ _ _ (by omega), blit_inside _ _ _ _ _ (by omega),
      blit_inside _ _ _ _ _ (by omega)]
  by_cases late : base + first ≤ a ∧ a < base + first + second
  · obtain ⟨i, rfl⟩ := Nat.exists_eq_add_of_le late.1
    rw [blit_inside _ _ _ _ _ (by omega), Nat.add_assoc base first i,
      blit_inside _ _ _ _ _ (by omega)]
  · rw [blit_outside _ _ _ _ _ (by omega), blit_outside _ _ _ _ _ (by omega),
      blit_outside _ _ _ _ _ (by omega)]

theorem blit_blit_below (m : Memory Nat β) (base first second : Nat) (cell : Nat → β) :
    (m.blit (base + first) second fun i => cell (first + i)).blit base first cell =
      m.blit base (first + second) cell := by
  rw [← blit_blit]
  ext a
  · rfl
  by_cases early : base ≤ a ∧ a < base + first
  · obtain ⟨i, rfl⟩ := Nat.exists_eq_add_of_le early.1
    rw [blit_inside _ _ _ _ _ (by omega), blit_outside _ _ _ _ _ (by omega),
      blit_inside _ _ _ _ _ (by omega)]
  · have outside : a < base ∨ base + first ≤ a := by omega
    rw [blit_outside _ _ _ _ _ outside]
    unfold blit
    simp [early]

theorem set_eq_blit (m : Memory Nat β) (a : Nat) (cell : Nat → β) :
    m.set a (cell 0) = m.blit a 1 cell := by
  ext x
  · rfl
  by_cases same : x = a
  · subst same
    have inside := blit_inside m x 1 0 cell (by omega)
    simpa using inside.symm
  · rw [blit_outside _ _ _ _ _ (by omega)]
    simp [same]

structure Block (β : Type) where
  base : Nat
  count : Nat
  cell : Nat → β

def Block.Covers (block : Block β) (a : Nat) : Prop :=
  block.base ≤ a ∧ a < block.base + block.count

def lay (m : Memory Nat β) (blocks : List (Block β)) : Memory Nat β :=
  blocks.foldl (fun m block => m.blit block.base block.count block.cell) m

@[simp] theorem lay_mapped (m : Memory Nat β) (blocks : List (Block β)) (a : Nat) :
    (m.lay blocks).mapped a = m.mapped a := by
  induction blocks generalizing m with
  | nil => rfl
  | cons block rest ih => exact ih _

theorem lay_outside (m : Memory Nat β) (blocks : List (Block β)) (a : Nat)
    (outside : ∀ block ∈ blocks, ¬ block.Covers a) : (m.lay blocks).value a = m.value a := by
  induction blocks generalizing m with
  | nil => rfl
  | cons block rest ih =>
    have here := outside block (by simp)
    have first : (m.blit block.base block.count block.cell).value a = m.value a := by
      unfold Block.Covers at here
      exact blit_outside _ _ _ _ _ (by omega)
    exact (ih _ fun other member => outside other (by simp [member])).trans first

theorem lay_last (m : Memory Nat β) (before after : List (Block β)) (block : Block β) (a : Nat)
    (covers : block.Covers a) (last : ∀ later ∈ after, ¬ later.Covers a) :
    (m.lay (before ++ block :: after)).value a = block.cell (a - block.base) := by
  have split : m.lay (before ++ block :: after) =
      ((m.lay before).blit block.base block.count block.cell).lay after := by
    simp [lay, List.foldl_append]
  obtain ⟨i, rfl⟩ := Nat.exists_eq_add_of_le covers.1
  have inside : i < block.count := by
    have := covers.2
    omega
  rw [split, lay_outside _ _ _ last, blit_inside _ _ _ _ _ inside, Nat.add_sub_cancel_left]

end Memory
