import JosLab.Inc.Stdarg
import JosLab.Shared.Loop

set_option autoImplicit false

namespace JosLab

def memsetAsm (v : Nat) (c : UInt32) (n : Nat) (cpu : Cpu) : Outcome Fault (Nat × Cpu) :=
  if n = 0 then return (v, cpu)
  else if wordAligned v ∧ n % 4 = 0 then do
    let c := c &&& 0xFF
    let c := (c <<< 24) ||| (c <<< 16) ||| (c <<< 8) ||| c
    return (v, ← cpu.cld.repStosl v c (n / 4))
  else do
    return (v, ← cpu.cld.repStosb v c n)

-- while (--m >= 0) *p++ = c;
def memsetPass (c : UInt32) (state : Int × Nat × Mem) :
    Outcome Fault (Pass (Int × Nat × Mem) Mem) := do
  let (m, p, mem) := state
  let m := int32 (m - 1)
  if 0 ≤ m then
    return .again (m, wrap (p + 1), ← mem.store .store p c.toUInt8)
  else return .leave mem

def memsetPlain (v : Nat) (c : UInt32) (n : Nat) (cpu : Cpu) : Outcome Fault (Nat × Cpu) := do
  let m := int32 n
  return (v, { cpu with mem := ← Loop.run (memsetPass c) (n + 1) (m, v, cpu.mem) })

theorem littleEndian_lanes (c : UInt32) :
    Cpu.littleEndian ((c &&& 0xFF) <<< 24 ||| (c &&& 0xFF) <<< 16 ||| (c &&& 0xFF) <<< 8 |||
      (c &&& 0xFF)) = List.replicate 4 c.toUInt8 := by
  have word : ∀ i < 32, (255#32).getLsbD i = decide (i < 8) := by decide
  have lane : ∀ i < 8, (255#8).getLsbD i = true := by decide
  simp only [Cpu.littleEndian, List.replicate, List.cons.injEq, and_true, ← UInt8.toBitVec_inj]
  refine ⟨?_, ?_, ?_, ?_⟩
  all_goals
    ext i lt
    have in_word := word i (by omega)
    have in_lane := lane i lt
    simp
    grind

theorem memsetAsm_correct (v : Nat) (c : UInt32) (n : Nat) (cpu : Cpu) (bound : v + n ≤ 2 ^ 32)
    (maps : cpu.mem.Maps v (v + n)) :
    ∃ df, memsetAsm v c n cpu =
      .done (v, { mem := cpu.mem.blit v n fun _ => c.toUInt8, df }) := by
  by_cases none : n = 0
  next =>
    subst none
    exact ⟨cpu.df, by simp [memsetAsm, Memory.blit_zero]⟩
  by_cases words : wordAligned v ∧ n % 4 = 0
  next =>
    have size : 4 * (n / 4) = n := by omega
    have stored := repStos_forward 4 (n / 4) v c.toUInt8 cpu.mem (by decide)
    rw [size, ← littleEndian_lanes c] at stored
    refine ⟨false, ?_⟩
    simp only [memsetAsm, if_neg none, if_pos words, Cpu.repStosl, Cpu.cld, stored bound maps,
      Outcome.done_bind, Outcome.pure_eq]
  next =>
    have stored := repStos_forward 1 n v c.toUInt8 cpu.mem (by decide)
    rw [Nat.one_mul] at stored
    refine ⟨false, ?_⟩
    simp only [memsetAsm, if_neg none, if_neg words, Cpu.repStosb, Cpu.cld]
    rw [← List.replicate_one, stored bound maps]
    rfl

theorem memset_run (c : UInt32) (k : Nat) (m : Int) (p : Nat) (mem : Mem) (fuel : Nat)
    (counts : int32 (m - 1) = k - 1) (bound : p + k ≤ 2 ^ 32) (maps : mem.Maps p (p + k))
    (enough : k < fuel) :
    Loop.run (memsetPass c) fuel (m, p, mem) = .done (mem.blit p k fun _ => c.toUInt8) := by
  induction k generalizing m p mem fuel with
  | zero =>
    obtain ⟨fuel, rfl⟩ := Loop.one_more enough
    have negative : ¬ 0 ≤ int32 (m - 1) := by omega
    rw [Memory.blit_zero]
    exact Loop.run_leave _ (by simp [memsetPass, negative])
  | succ k ih =>
    obtain ⟨fuel, rfl⟩ := Loop.one_more enough
    have small : int32 (m - 1) = k := by
      rw [counts]
      omega
    have below := int32_lt (m - 1)
    have step : memsetPass c (m, p, mem) =
        .done (.again ((k : Int), wrap (p + 1), mem.blit p 1 fun _ => c.toUInt8)) := by
      simp [memsetPass, small, Memory.store_mapped _ _ _ _ (maps p le_rfl (by omega)),
        ← Memory.set_eq_blit]
    rw [Loop.run_again _ step, Nat.add_comm k 1, ← Memory.blit_blit]
    cases k with
    | zero =>
      have last := ih 0 (wrap (p + 1)) (mem.blit p 1 fun _ => c.toUInt8) fuel (by decide)
        (wrap_lt (p + 1)).le (fun _ ge lt => absurd lt (by omega)) (by omega)
      rw [Memory.blit_zero] at last ⊢
      exact last
    | succ k =>
      rw [wrap_of_lt _ (by omega)]
      exact ih _ _ _ _ (int32_of_lt _ (by omega) (by omega)) (by omega)
        ((Memory.blit_maps ..).2 (maps.narrow (by omega) (by omega))) (by omega)

-- Up to 2^31 bytes the `int` counts them all: at 2^31 its first decrement wraps, to 2^31 - 1.
theorem memsetPlain_correct (v : Nat) (c : UInt32) (n : Nat) (cpu : Cpu) (bound : v + n ≤ 2 ^ 32)
    (maps : cpu.mem.Maps v (v + n)) (counted : n ≤ 2 ^ 31) :
    memsetPlain v c n cpu = .done (v, { cpu with mem := cpu.mem.blit v n fun _ => c.toUInt8 }) := by
  have counts : int32 (int32 n - 1) = n - 1 := by
    rw [int32_int32_sub]
    exact int32_of_lt _ (by omega) (by omega)
  simp only [memsetPlain]
  rw [memset_run c n _ v cpu.mem (n + 1) counts bound maps (Nat.lt_succ_self n)]
  rfl

theorem memsetPlain_large (v : Nat) (c : UInt32) (n : Nat) (cpu : Cpu) (large : 2 ^ 31 < n)
    (size : n < 2 ^ 32) : memsetPlain v c n cpu = .done (v, cpu) := by
  have negative : ¬ 0 ≤ int32 (int32 n - 1) := by
    rw [int32_int32_sub, int32_of_ge _ (by omega) (by omega)]
    omega
  have leave : memsetPass c (int32 n, v, cpu.mem) = .done (.leave cpu.mem) := by
    simp [memsetPass, negative]
  simp only [memsetPlain]
  rw [Loop.run_leave n leave]
  rfl

structure Filled (mem : Mem) (v n : Nat) (byte : UInt8) (after : Mem) : Prop where
  filled : ∀ i < n, after.value (v + i) = byte
  kept : ∀ a, a < v ∨ v + n ≤ a → after.value a = mem.value a
  mapped : ∀ a, after.mapped a = mem.mapped a

theorem blit_filled (mem : Mem) (v n : Nat) (byte : UInt8) :
    Filled mem v n byte (mem.blit v n fun _ => byte) where
  filled _ lt := Memory.blit_inside _ _ _ _ _ lt
  kept _ outside := Memory.blit_outside _ _ _ _ _ outside
  mapped _ := rfl

def Sets (memset : Nat → UInt32 → Nat → Cpu → Outcome Fault (Nat × Cpu)) (v : Nat) (c : UInt32)
    (n : Nat) (cpu : Cpu) : Prop :=
  ∃ cpu', memset v c n cpu = .done (v, cpu') ∧ Filled cpu.mem v n c.toUInt8 cpu'.mem

theorem sets_plain_iff (v : Nat) (c : UInt32) (n : Nat) (cpu : Cpu) (bound : v + n ≤ 2 ^ 32)
    (size : n < 2 ^ 32) (maps : cpu.mem.Maps v (v + n)) :
    Sets memsetPlain v c n cpu ↔
      n ≤ 2 ^ 31 ∨ ∀ i < n, cpu.mem.value (v + i) = c.toUInt8 := by
  by_cases counted : n ≤ 2 ^ 31
  next =>
    have sets := memsetPlain_correct v c n cpu bound maps counted
    simp only [counted, true_or, iff_true]
    exact ⟨_, sets, blit_filled cpu.mem v n c.toUInt8⟩
  next =>
    have unchanged := memsetPlain_large v c n cpu (by omega) size
    simp only [counted, false_or, Sets, unchanged]
    constructor
    next =>
      rintro ⟨_, ran, filled⟩
      cases ran
      exact filled.filled
    next => exact fun already => ⟨cpu, rfl, already, fun _ _ => rfl, fun _ => rfl⟩

theorem memset_versions (v : Nat) (c : UInt32) (n : Nat) (cpu : Cpu) (bound : v + n ≤ 2 ^ 32)
    (size : n < 2 ^ 32) (maps : cpu.mem.Maps v (v + n)) :
    Sets memsetAsm v c n cpu ∧
      (Sets memsetPlain v c n cpu ↔
        n ≤ 2 ^ 31 ∨ ∀ i < n, cpu.mem.value (v + i) = c.toUInt8) := by
  constructor
  next =>
    obtain ⟨df, fast⟩ := memsetAsm_correct v c n cpu bound maps
    exact ⟨_, fast, blit_filled cpu.mem v n c.toUInt8⟩
  next => exact sets_plain_iff v c n cpu bound size maps

def cleared : Cpu where
  mem := { mapped := fun _ => true, value := fun _ => 0 }
  df := false

theorem memset_versions_word :
    Sets memsetAsm 0x1000 0x1FF 4 cleared ∧
      (Sets memsetPlain 0x1000 0x1FF 4 cleared ↔
        4 ≤ 2 ^ 31 ∨ ∀ i < 4, cleared.mem.value (0x1000 + i) = (0x1FF : UInt32).toUInt8) :=
  memset_versions 0x1000 0x1FF 4 cleared (by decide) (by decide) fun _ _ _ => rfl

theorem memsetPlain_half :
    ¬ (Sets memsetAsm 0 1 (2 ^ 31 + 1) cleared ∧ Sets memsetPlain 0 1 (2 ^ 31 + 1) cleared) := by
  rintro ⟨_, _, ran, filled⟩
  rw [memsetPlain_large 0 1 (2 ^ 31 + 1) cleared (by decide) (by decide)] at ran
  cases ran
  exact absurd (filled.filled 0 (by decide)) (by decide)

end JosLab
