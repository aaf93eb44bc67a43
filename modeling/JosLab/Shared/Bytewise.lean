import JosLab.Shared.Memory

set_option autoImplicit false

namespace Bytewise

variable {ε : Type}

def load (read : UInt32 → Outcome ε UInt8) (la : UInt32) : Nat → Outcome ε (List UInt8)
  | 0 => .done []
  | count + 1 => do
      let byte ← read la
      let rest ← load read (la + 1) count
      return byte :: rest

def store (write : UInt32 → UInt8 → Memory Nat UInt8 → Outcome ε (Memory Nat UInt8)) :
    List UInt8 → UInt32 → Memory Nat UInt8 → Outcome ε (Memory Nat UInt8)
  | [], _, mem => .done mem
  | byte :: rest, la, mem => do
      let mem ← write la byte mem
      store write rest (la + 1) mem

theorem next_address (la : UInt32) (i : Nat) :
    la + UInt32.ofNat (i + 1) = la + 1 + UInt32.ofNat i := by
  rw [UInt32.ofNat_add, UInt32.add_comm (UInt32.ofNat i), ← UInt32.add_assoc]
  rfl

section Load

variable {read : UInt32 → Outcome ε UInt8} {la : UInt32}

theorem load_read {bytes : List UInt8}
    (reads : ∀ i byte, bytes[i]? = some byte → read (la + UInt32.ofNat i) = .done byte) :
    load read la bytes.length = .done bytes := by
  induction bytes generalizing la with
  | nil => rfl
  | cons byte rest ih =>
    have first := reads 0 byte rfl
    have here : la + UInt32.ofNat 0 = la := UInt32.add_zero la
    have later : load read (la + 1) rest.length = .done rest := by
      apply ih
      intro i other found
      rw [← next_address]
      exact reads (i + 1) other (by simpa using found)
    rw [here] at first
    simp only [List.length_cons, load, first, later, Outcome.done_bind, Outcome.pure_eq]

theorem load_append {first second : List UInt8}
    (loaded : load read la (first ++ second).length = .done (first ++ second)) :
    load read la first.length = .done first ∧
      load read (la + UInt32.ofNat first.length) second.length = .done second := by
  induction first generalizing la with
  | nil => exact ⟨rfl, by simpa using loaded⟩
  | cons byte rest ih =>
    simp only [List.cons_append, List.length_cons, load, Outcome.bind_eq_done, Outcome.pure_eq,
      Outcome.done.injEq, List.cons.injEq] at loaded
    obtain ⟨cell, here, more, loaded, rfl, rfl⟩ := loaded
    obtain ⟨head, tail⟩ := ih loaded
    refine ⟨?_, ?_⟩
    · simp only [List.length_cons, load, here, head, Outcome.done_bind, Outcome.pure_eq]
    · rw [List.length_cons, next_address]
      exact tail

end Load

theorem store_blit {write : UInt32 → UInt8 → Memory Nat UInt8 → Outcome ε (Memory Nat UInt8)}
    (inv : Memory Nat UInt8 → Prop) (bytes : List UInt8) (la : UInt32) (base : Nat)
    (mem : Memory Nat UInt8) (start : inv mem)
    (writes : ∀ i < bytes.length, ∀ mem byte, inv mem →
      write (la + UInt32.ofNat i) byte mem = .done (mem.set (base + i) byte) ∧
        inv (mem.set (base + i) byte)) :
    store write bytes la mem = .done (mem.blit base bytes.length fun i => bytes.getD i 0) ∧
      inv (mem.blit base bytes.length fun i => bytes.getD i 0) := by
  induction bytes generalizing la base mem with
  | nil =>
    rw [List.length_nil, Memory.blit_zero]
    exact ⟨rfl, start⟩
  | cons byte rest ih =>
    obtain ⟨reached, kept⟩ := writes 0 (Nat.zero_lt_succ _) mem byte start
    have here : la + UInt32.ofNat 0 = la := UInt32.add_zero la
    rw [here, Nat.add_zero] at reached
    rw [Nat.add_zero] at kept
    have later := ih (la + 1) (base + 1) (mem.set base byte) kept (by
      intro i lt mem other holds
      have next := writes (i + 1) (Nat.succ_lt_succ lt) mem other holds
      rwa [next_address, Nat.add_comm i, ← Nat.add_assoc] at next)
    have whole : (mem.set base byte).blit (base + 1) rest.length (fun i => rest.getD i 0) =
        mem.blit base (byte :: rest).length fun i => (byte :: rest).getD i 0 := by
      have first : mem.set base byte = mem.blit base 1 fun i => (byte :: rest).getD i 0 :=
        Memory.set_eq_blit mem base fun i => (byte :: rest).getD i 0
      have shift : (fun i => rest.getD i 0) = fun i => (byte :: rest).getD (1 + i) 0 := by
        funext i
        rw [Nat.add_comm, List.getD_cons_succ]
      rw [first, shift, Memory.blit_blit, List.length_cons, Nat.add_comm]
    rw [whole] at later
    rw [store, reached, Outcome.done_bind]
    exact later

end Bytewise
