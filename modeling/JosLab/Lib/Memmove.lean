import JosLab.Lib.Strings

set_option autoImplicit false

namespace JosLab

def memmoveAsm (dst src n : Nat) (cpu : Cpu) : Outcome Fault (Nat × Cpu) :=
  if src < dst ∧ wrap (src + n) > dst then do
    let s := wrap (src + n)
    let d := wrap (dst + n)
    let cpu ←
      if wordAligned s ∧ wordAligned d ∧ n % 4 = 0 then
        cpu.std.repMovs 4 (wrap (d + 2 ^ 32 - 4)) (wrap (s + 2 ^ 32 - 4)) (n / 4)
      else cpu.std.repMovs 1 (wrap (d + 2 ^ 32 - 1)) (wrap (s + 2 ^ 32 - 1)) n
    return (dst, cpu.cld)
  else do
    let cpu ←
      if wordAligned src ∧ wordAligned dst ∧ n % 4 = 0 then cpu.cld.repMovs 4 dst src (n / 4)
      else cpu.cld.repMovs 1 dst src n
    return (dst, cpu)

-- while (n-- > 0) *--d = *--s;
def copyDown : Nat → Nat → Nat → Mem → Outcome Fault Mem
  | 0, _, _, mem => return mem
  | n + 1, d, s, mem => do
      let s := wrap (s + 2 ^ 32 - 1)
      let d := wrap (d + 2 ^ 32 - 1)
      let mem ← mem.store .store d (← mem.load .load s)
      copyDown n d s mem

-- while (n-- > 0) *d++ = *s++;
def copyUp : Nat → Nat → Nat → Mem → Outcome Fault Mem
  | 0, _, _, mem => return mem
  | n + 1, d, s, mem => do
      let mem ← mem.store .store d (← mem.load .load s)
      copyUp n (wrap (d + 1)) (wrap (s + 1)) mem

def memmovePlain (dst src n : Nat) (cpu : Cpu) : Outcome Fault (Nat × Cpu) :=
  if src < dst ∧ wrap (src + n) > dst then do
    let s := wrap (src + n)
    let d := wrap (dst + n)
    return (dst, { cpu with mem := ← copyDown n d s cpu.mem })
  else do
    return (dst, { cpu with mem := ← copyUp n dst src cpu.mem })

def memcpy (memmove : Nat → Nat → Nat → Cpu → Outcome Fault (Nat × Cpu)) (dst src n : Nat)
    (cpu : Cpu) : Outcome Fault (Nat × Cpu) :=
  memmove dst src n cpu

theorem repMovs_bind {α : Type} (unit edi esi ecx : Nat) (cpu : Cpu)
    (next : Cpu → Outcome Fault α) :
    cpu.repMovs unit edi esi ecx >>= next =
      repMovs cpu.df unit ecx edi esi cpu.mem >>= fun mem => next { cpu with mem } :=
  Outcome.bind_assoc ..

theorem memmoveAsm_eq (dst src n : Nat) (cpu : Cpu) :
    memmoveAsm dst src n cpu =
      memmove cpu.mem dst src n >>= fun mem => .done (dst, { mem, df := false }) := by
  by_cases overlap : src < dst ∧ dst < wrap (src + n)
  next =>
    by_cases words : wordAligned (wrap (src + n)) ∧ wordAligned (wrap (dst + n)) ∧ n % 4 = 0
    next =>
      simp only [memmoveAsm, memmove, gt_iff_lt, if_pos overlap, if_pos words, repMovs_bind]
      simp only [Cpu.std, Cpu.cld, Outcome.pure_eq]
    next =>
      simp only [memmoveAsm, memmove, gt_iff_lt, if_pos overlap, if_neg words, repMovs_bind]
      simp only [Cpu.std, Cpu.cld, Outcome.pure_eq]
  next =>
    by_cases words : wordAligned src ∧ wordAligned dst ∧ n % 4 = 0
    next =>
      simp only [memmoveAsm, memmove, gt_iff_lt, if_neg overlap, if_pos words, repMovs_bind]
      simp only [Cpu.cld, Outcome.pure_eq]
    next =>
      simp only [memmoveAsm, memmove, gt_iff_lt, if_neg overlap, if_neg words, repMovs_bind]
      simp only [Cpu.cld, Outcome.pure_eq]

theorem movs_byte (mem : Mem) (edi esi : Nat) :
    movs 1 mem edi esi = mem.load .load esi >>= mem.store .store edi := by
  cases load : Memory.load Fault.load mem esi with
  | done byte => simp [movs, loadBytes, storeBytes, load]
  | fault error => simp [movs, loadBytes, load]
  | spin => simp [movs, loadBytes, load]

theorem copyDown_eq (n d s : Nat) (mem : Mem) :
    copyDown n d s mem = repMovs true 1 n (wrap (d + 2 ^ 32 - 1)) (wrap (s + 2 ^ 32 - 1)) mem := by
  induction n generalizing d s mem with
  | zero => rfl
  | succ n ih =>
    rw [repMovs, movs_byte, Outcome.bind_assoc, copyDown]
    simp only [ih, advance, if_true]

theorem copyUp_eq (n d s : Nat) (mem : Mem) :
    copyUp n d s mem = repMovs false 1 n d s mem := by
  induction n generalizing d s mem with
  | zero => rfl
  | succ n ih =>
    rw [repMovs, movs_byte, Outcome.bind_assoc, copyUp]
    simp only [ih, advance, Bool.false_eq_true, if_false]

theorem memmovePlain_correct (dst src n : Nat) (cpu : Cpu) (src_bound : src + n ≤ 2 ^ 32)
    (dst_bound : dst + n ≤ 2 ^ 32) (src_maps : cpu.mem.Maps src (src + n))
    (dst_maps : cpu.mem.Maps dst (dst + n)) :
    memmovePlain dst src n cpu =
      .done (dst, { cpu with mem := cpu.mem.blit dst n fun i => cpu.mem.value (src + i) }) := by
  by_cases overlap : src < dst ∧ dst < wrap (src + n)
  next =>
    have copied := repMovs_from_end 1 n dst src cpu.mem (by decide) (by omega)
    rw [Nat.one_mul] at copied
    simp only [memmovePlain, gt_iff_lt, if_pos overlap, copyDown_eq]
    rw [copied dst_bound src_maps dst_maps]
    rfl
  next =>
    have apart : dst ≤ src ∨ src + n ≤ dst := by
      unfold wrap at overlap
      omega
    have copied := repMovs_forward 1 n dst src cpu.mem (by decide)
    rw [Nat.one_mul] at copied
    simp only [memmovePlain, gt_iff_lt, if_neg overlap, copyUp_eq]
    rw [copied apart dst_bound src_bound dst_maps src_maps]
    rfl

structure Copied (mem : Mem) (dst src n : Nat) (after : Mem) : Prop where
  copied : ∀ i < n, after.value (dst + i) = mem.value (src + i)
  kept : ∀ a, a < dst ∨ dst + n ≤ a → after.value a = mem.value a
  mapped : ∀ a, after.mapped a = mem.mapped a

theorem blit_copied (mem : Mem) (dst src n : Nat) :
    Copied mem dst src n (mem.blit dst n fun i => mem.value (src + i)) where
  copied _ lt := Memory.blit_inside _ _ _ _ _ lt
  kept _ outside := Memory.blit_outside _ _ _ _ _ outside
  mapped _ := rfl

theorem memmove_versions (mem : Mem) (dst src n : Nat) (src_bound : src + n ≤ 2 ^ 32)
    (dst_bound : dst + n ≤ 2 ^ 32) (src_maps : mem.Maps src (src + n))
    (dst_maps : mem.Maps dst (dst + n)) :
    ∃ after, Copied mem dst src n after ∧
      (∀ df, memmoveAsm dst src n { mem, df } = .done (dst, { mem := after, df := false })) ∧
      memmovePlain dst src n { mem, df := false } = .done (dst, { mem := after, df := false }) ∧
      ∀ version ∈ [memmoveAsm, memmovePlain],
        memcpy version dst src n { mem, df := false } =
          .done (dst, { mem := after, df := false }) := by
  have fast (df : Bool) : memmoveAsm dst src n { mem, df } = .done (dst,
      { mem := mem.blit dst n fun i => mem.value (src + i), df := false }) := by
    rw [memmoveAsm_eq, memmove_correct mem dst src n src_bound dst_bound src_maps dst_maps]
    rfl
  have plain := memmovePlain_correct dst src n { mem, df := false } src_bound dst_bound src_maps
    dst_maps
  refine ⟨_, blit_copied mem dst src n, fast, plain, fun version compiled => ?_⟩
  rcases List.mem_pair.1 compiled with rfl | rfl
  next => exact fast false
  next => exact plain

def numbered : Mem where
  mapped _ := true
  value a := UInt8.ofNat a

theorem memmove_versions_overlap :
    ∃ after, Copied numbered 0x1004 0x1000 12 after ∧
      (∀ df, memmoveAsm 0x1004 0x1000 12 { mem := numbered, df } =
        .done (0x1004, { mem := after, df := false })) ∧
      memmovePlain 0x1004 0x1000 12 { mem := numbered, df := false } =
        .done (0x1004, { mem := after, df := false }) ∧
      ∀ version ∈ [memmoveAsm, memmovePlain],
        memcpy version 0x1004 0x1000 12 { mem := numbered, df := false } =
          .done (0x1004, { mem := after, df := false }) :=
  memmove_versions numbered 0x1004 0x1000 12 (by decide) (by decide) (fun _ _ _ => rfl)
    fun _ _ _ => rfl

end JosLab
