import Mathlib

set_option autoImplicit false

-- The writer never looks at where the reader is, and the reader takes the ring for empty wherever
-- the two positions meet.
structure RingBuffer (α : Type) (size : Nat) where
  slot : Nat → α
  rpos : Fin size
  wpos : Fin size

namespace RingBuffer

variable {α : Type} {size : Nat}

def next (pos : Fin size) : Fin size :=
  if inside : pos + 1 < size then ⟨pos + 1, inside⟩ else ⟨0, pos.pos⟩

def push (ring : RingBuffer α size) (value : α) : RingBuffer α size :=
  { ring with
    slot := Function.update ring.slot ring.wpos value
    wpos := next ring.wpos }

def pushes (ring : RingBuffer α size) (values : List α) : RingBuffer α size :=
  values.foldl push ring

def pop (ring : RingBuffer α size) : RingBuffer α size := { ring with rpos := next ring.rpos }

def readable (ring : RingBuffer α size) : Nat :=
  if ring.rpos ≤ ring.wpos then ring.wpos - ring.rpos else ring.wpos + size - ring.rpos

theorem next_val (pos : Fin size) : (next pos).val = if pos.val + 1 < size then pos.val + 1 else 0 := by
  by_cases inside : pos.val + 1 < size <;> simp [next, inside]

theorem next_mod (pos : Fin size) (i : Nat) (here : pos.val = i % size) :
    (next pos).val = (i + 1) % size := by
  have inside : i % size < size := Nat.mod_lt _ pos.pos
  rw [next_val, here, ← Nat.mod_add_mod]
  by_cases room : i % size + 1 < size
  next => rw [if_pos room, Nat.mod_eq_of_lt room]
  next =>
    have wraps : i % size + 1 = size := by omega
    rw [if_neg room, wraps, Nat.mod_self]

theorem readable_lt (ring : RingBuffer α size) : ring.readable < size := by
  have rpos := ring.rpos.isLt
  have wpos := ring.wpos.isLt
  simp only [readable, Fin.le_def]
  split <;> omega

theorem readable_eq_zero (ring : RingBuffer α size) :
    ring.readable = 0 ↔ ring.rpos = ring.wpos := by
  have rpos := ring.rpos.isLt
  have wpos := ring.wpos.isLt
  simp only [readable, Fin.le_def, Fin.ext_iff]
  split <;> omega

theorem pop_readable (ring : RingBuffer α size) (waiting : ring.rpos ≠ ring.wpos) :
    ring.pop.readable + 1 = ring.readable := by
  have rpos := ring.rpos.isLt
  have wpos := ring.wpos.isLt
  simp only [readable, pop, Fin.le_def, next_val]
  simp only [ne_eq, Fin.ext_iff] at waiting
  split_ifs <;> omega

theorem push_readable (ring : RingBuffer α size) (value : α) :
    (ring.push value).readable = (ring.readable + 1) % size := by
  have rpos := ring.rpos.isLt
  have wpos := ring.wpos.isLt
  have below := ring.readable_lt
  by_cases full : ring.readable + 1 = size
  next =>
    rw [full, Nat.mod_self, readable_eq_zero, Fin.ext_iff]
    simp only [readable, Fin.le_def] at full
    simp only [push, next_val]
    split_ifs at full ⊢ <;> omega
  next =>
    rw [Nat.mod_eq_of_lt (by omega)]
    simp only [readable, Fin.le_def] at full
    simp only [readable, push, Fin.le_def, next_val]
    split_ifs at full ⊢ <;> omega

theorem pushes_readable (ring : RingBuffer α size) (values : List α) :
    (ring.pushes values).readable = (ring.readable + values.length) % size := by
  induction values generalizing ring with
  | nil => exact (Nat.mod_eq_of_lt ring.readable_lt).symm
  | cons value rest ih =>
    have after := ih (ring.push value)
    rw [push_readable, Nat.mod_add_mod] at after
    rw [List.length_cons, Nat.add_comm rest.length, ← Nat.add_assoc]
    exact after

structure Holds (ring : RingBuffer α size) (written : List α) (first : Nat) : Prop where
  reached : first ≤ written.length
  near : written.length < first + size
  rpos : ring.rpos.val = first % size
  wpos : ring.wpos.val = written.length % size
  slots : ∀ i, first ≤ i → i < written.length → written[i]? = some (ring.slot (i % size))

theorem mod_eq_near {i j : Nat} (le : i ≤ j) (near : j < i + size) (same : i % size = j % size) :
    i = j := by
  have divides := (Nat.modEq_iff_dvd' le).1 same
  have small := Nat.eq_zero_of_dvd_of_lt divides (by omega)
  omega

def contents (ring : RingBuffer α size) : List α :=
  (List.range ring.readable).map fun i => ring.slot ((ring.rpos + i) % size)

theorem wpos_eq (ring : RingBuffer α size) :
    ring.wpos.val = (ring.rpos + ring.readable) % size := by
  have rpos := ring.rpos.isLt
  have wpos := ring.wpos.isLt
  simp only [readable, Fin.le_def]
  split
  next => rw [Nat.mod_eq_of_lt (by omega)]; omega
  next =>
    have lap : ring.rpos.val + (ring.wpos + size - ring.rpos) = ring.wpos + size := by omega
    rw [lap, Nat.add_mod_right, Nat.mod_eq_of_lt wpos]

theorem push_contents (ring : RingBuffer α size) (value : α) (room : ring.readable + 1 < size) :
    (ring.push value).contents = ring.contents ++ [value] := by
  have longer : (ring.push value).readable = ring.readable + 1 := by
    rw [push_readable, Nat.mod_eq_of_lt room]
  have last : (ring.push value).slot ((ring.rpos + ring.readable) % size) = value := by
    simp [push, ring.wpos_eq]
  have earlier : ∀ i ∈ List.range ring.readable,
      (ring.push value).slot ((ring.rpos + i) % size) = ring.slot ((ring.rpos + i) % size) := by
    intro i member
    have below := List.mem_range.1 member
    have other : (ring.rpos + i) % size ≠ ring.wpos := by
      rw [ring.wpos_eq]
      intro same
      have := mod_eq_near (by omega) (by omega) same
      omega
    exact Function.update_of_ne other ..
  have rpos : (ring.push value).rpos = ring.rpos := rfl
  simp only [contents, longer, rpos, List.range_succ, List.map_append, List.map_singleton, last]
  rw [List.map_congr_left earlier]

theorem pushes_contents (ring : RingBuffer α size) (values : List α)
    (room : ring.readable + values.length < size) :
    (ring.pushes values).contents = ring.contents ++ values := by
  induction values generalizing ring with
  | nil => simp [pushes]
  | cons value rest ih =>
    rw [List.length_cons] at room
    have longer : (ring.push value).readable = ring.readable + 1 := by
      rw [push_readable, Nat.mod_eq_of_lt (by omega)]
    have after := ih (ring.push value) (by omega)
    rw [push_contents ring value (by omega)] at after
    simpa [pushes] using after

theorem Holds.empty_iff {ring : RingBuffer α size} {written : List α} {first : Nat}
    (holds : ring.Holds written first) : ring.rpos = ring.wpos ↔ first = written.length := by
  rw [Fin.ext_iff, holds.rpos, holds.wpos]
  constructor
  next =>
    intro same
    exact mod_eq_near holds.reached holds.near same
  next =>
    intro same
    rw [same]

theorem Holds.pop {ring : RingBuffer α size} {written : List α} {first : Nat}
    (holds : ring.Holds written first) (waiting : ring.rpos ≠ ring.wpos) :
    written[first]? = some (ring.slot ring.rpos) ∧ ring.pop.Holds written (first + 1) := by
  have reached := holds.reached
  have near := holds.near
  have more : first ≠ written.length := fun empty => waiting (holds.empty_iff.2 empty)
  constructor
  next =>
    rw [holds.rpos]
    exact holds.slots first le_rfl (by omega)
  next =>
    exact {
      reached := by omega
      near := by omega
      rpos := next_mod _ _ holds.rpos
      wpos := holds.wpos
      slots := fun i ge lt => holds.slots i (by omega) lt }

theorem Holds.push {ring : RingBuffer α size} {written : List α} {first : Nat}
    (holds : ring.Holds written first) (value : α) :
    (ring.push value).Holds (written ++ [value])
      (if written.length + 1 < first + size then first else first + size) := by
  have reached := holds.reached
  have near := holds.near
  have some := ring.rpos.pos
  have slots (i : Nat) (ge : first ≤ i) (lt : i < (written ++ [value]).length)
      (fresh : written.length < i + size) :
      (written ++ [value])[i]? = Option.some ((ring.push value).slot (i % size)) := by
    rw [List.length_append, List.length_singleton] at lt
    simp only [RingBuffer.push, holds.wpos]
    by_cases last : i = written.length
    next => simp [last]
    next =>
      have other : i % size ≠ written.length % size := fun same =>
        last (mod_eq_near (by omega) (by omega) same)
      rw [List.getElem?_append_left (by omega), Function.update_of_ne other]
      exact holds.slots i ge (by omega)
  have wpos : (ring.push value).wpos.val = (written ++ [value]).length % size := by
    rw [List.length_append]
    exact next_mod _ _ holds.wpos
  have length : (written ++ [value]).length = written.length + 1 := by simp
  by_cases room : written.length + 1 < first + size
  next =>
    rw [if_pos room]
    exact ⟨by omega, by omega, holds.rpos, wpos, fun i ge lt => slots i ge lt (by omega)⟩
  next =>
    rw [if_neg room]
    refine ⟨by omega, by omega, ?_, wpos, fun i ge lt => slots i (by omega) lt (by omega)⟩
    rw [Nat.add_mod_right]
    exact holds.rpos

def Reads (ring : RingBuffer α size) (written read : List α) : Prop :=
  ∃ first, ring.Holds written first ∧ read.Sublist (written.take first)

theorem Reads.sublist {ring : RingBuffer α size} {written read : List α}
    (reads : ring.Reads written read) : read.Sublist written := by
  obtain ⟨first, -, order⟩ := reads
  exact order.trans (List.take_sublist ..)

theorem Reads.push {ring : RingBuffer α size} {written read : List α}
    (reads : ring.Reads written read) (value : α) :
    (ring.push value).Reads (written ++ [value]) read := by
  obtain ⟨first, holds, order⟩ := reads
  have kept (later : Nat) (ge : first ≤ later) : read.Sublist ((written ++ [value]).take later) :=
    order.trans ((List.take_sublist_take_left ge).trans
      ((List.prefix_append written [value]).take later).sublist)
  by_cases room : written.length + 1 < first + size
  next => exact ⟨first, by simpa [room] using holds.push value, kept first le_rfl⟩
  next => exact ⟨first + size, by simpa [room] using holds.push value, kept _ (by omega)⟩

theorem Reads.pushes {ring : RingBuffer α size} {written read : List α}
    (reads : ring.Reads written read) (values : List α) :
    (ring.pushes values).Reads (written ++ values) read := by
  induction values generalizing ring written with
  | nil => simpa [RingBuffer.pushes] using reads
  | cons value rest ih => simpa [RingBuffer.pushes] using ih (reads.push value)

theorem Reads.pop {ring : RingBuffer α size} {written read : List α}
    (reads : ring.Reads written read) (waiting : ring.rpos ≠ ring.wpos) :
    ring.pop.Reads written (read ++ [ring.slot ring.rpos]) := by
  obtain ⟨first, holds, order⟩ := reads
  obtain ⟨here, popped⟩ := holds.pop waiting
  refine ⟨first + 1, popped, ?_⟩
  rw [List.take_add_one, here]
  exact order.append (List.Sublist.refl _)

def KeepsUp (ring : RingBuffer α size) (written read : List α) : Prop :=
  ring.Holds written read.length ∧ read = written.take read.length

theorem KeepsUp.prefix {ring : RingBuffer α size} {written read : List α}
    (keeps : ring.KeepsUp written read) : read <+: written :=
  List.prefix_iff_eq_take.2 keeps.2

theorem KeepsUp.empty_iff {ring : RingBuffer α size} {written read : List α}
    (keeps : ring.KeepsUp written read) : ring.rpos = ring.wpos ↔ read = written := by
  rw [keeps.1.empty_iff]
  constructor
  next =>
    intro all
    rw [keeps.2, all, List.take_length]
  next =>
    intro all
    rw [all]

theorem KeepsUp.push {ring : RingBuffer α size} {written read : List α}
    (keeps : ring.KeepsUp written read) (value : α)
    (room : written.length + 1 < read.length + size) :
    (ring.push value).KeepsUp (written ++ [value]) read := by
  have holds := keeps.1.push value
  rw [if_pos room] at holds
  refine ⟨holds, ?_⟩
  rw [List.take_append_of_le_length keeps.1.reached]
  exact keeps.2

theorem KeepsUp.pushes {ring : RingBuffer α size} {written read : List α}
    (keeps : ring.KeepsUp written read) (values : List α)
    (room : written.length + values.length < read.length + size) :
    (ring.pushes values).KeepsUp (written ++ values) read := by
  induction values generalizing ring written with
  | nil => simpa [RingBuffer.pushes] using keeps
  | cons value rest ih =>
    rw [List.length_cons] at room
    have pushed := keeps.push value (by omega)
    have rest_pushed := ih pushed (by
      rw [List.length_append, List.length_singleton]
      omega)
    simpa [RingBuffer.pushes] using rest_pushed

theorem KeepsUp.pop {ring : RingBuffer α size} {written read : List α}
    (keeps : ring.KeepsUp written read) (waiting : ring.rpos ≠ ring.wpos) :
    ring.pop.KeepsUp written (read ++ [ring.slot ring.rpos]) := by
  obtain ⟨here, popped⟩ := keeps.1.pop waiting
  constructor
  next => simpa using popped
  next =>
    rw [List.length_append, List.length_singleton, List.take_add_one, here, ← keeps.2]
    rfl

def Waits (ring : RingBuffer α size) (pending : List α) : Prop :=
  ∃ read, ring.KeepsUp (read ++ pending) read

theorem Waits.pushes {ring : RingBuffer α size} {pending : List α} (waits : ring.Waits pending)
    (values : List α) (room : pending.length + values.length < size) :
    (ring.pushes values).Waits (pending ++ values) := by
  obtain ⟨read, keeps⟩ := waits
  have pushed := keeps.pushes values (by
    rw [List.length_append]
    omega)
  rw [List.append_assoc] at pushed
  exact ⟨read, pushed⟩

theorem Waits.empty_iff {ring : RingBuffer α size} {pending : List α}
    (waits : ring.Waits pending) : ring.rpos = ring.wpos ↔ pending = [] := by
  obtain ⟨read, keeps⟩ := waits
  rw [keeps.empty_iff, List.self_eq_append_right]

theorem Waits.pop {ring : RingBuffer α size} {value : α} {pending : List α}
    (waits : ring.Waits (value :: pending)) :
    ring.slot ring.rpos = value ∧ ring.pop.Waits pending := by
  have waiting : ring.rpos ≠ ring.wpos := fun met => by cases waits.empty_iff.1 met
  obtain ⟨read, keeps⟩ := waits
  have here := (keeps.1.pop waiting).1
  rw [List.getElem?_append_right le_rfl, Nat.sub_self] at here
  have first : value = ring.slot ring.rpos := by simpa using here
  refine ⟨first.symm, read ++ [value], ?_⟩
  rw [List.append_assoc]
  have popped := keeps.pop waiting
  rw [← first] at popped
  exact popped

end RingBuffer
