import JosLab.Inc.X86

set_option autoImplicit false

namespace JosLab

-- From the place a `const char *` points at to the end of its object; reading past that is a fault.
abbrev Chars := List UInt8

def strnlen : Chars → Nat → Outcome Fault Nat
  | _, 0 => return 0
  | [], _ + 1 => .fault .char
  | head :: rest, size + 1 =>
      if head = 0 then return 0 else do return (← strnlen rest size) + 1

def strfind : Chars → UInt8 → Outcome Fault Nat
  | [], _ => .fault .char
  | head :: rest, c =>
      if head = 0 then return 0
      else if head = c then return 0
      else do return (← strfind rest c) + 1

def strchr : Chars → UInt8 → Outcome Fault (Option Nat)
  | [], _ => .fault .char
  | head :: rest, c =>
      if head = 0 then return none
      else if head = c then return some 0
      else do return (← strchr rest c).map (· + 1)

def strcmp : Chars → Chars → Outcome Fault Int
  | p :: ps, q :: qs =>
      if p ≠ 0 ∧ p = q then strcmp ps qs else return (p.toNat : Int) - q.toNat
  | _, _ => .fault .char

def charsAt (mem : Mem) (low high : Nat) : Chars := (List.range' low (high - low)).map mem.value

theorem strfind_correct (s : Chars) (c : UInt8) (terminated : 0 ∈ s) :
    strfind s c = .done (s.findIdx fun byte => byte == 0 || byte == c) := by
  induction s with
  | nil => simp at terminated
  | cons head rest ih =>
    by_cases nul : head = 0
    · simp [strfind, nul, List.findIdx_cons]
    by_cases same : head = c
    · simp [strfind, same, List.findIdx_cons]
    · have later : 0 ∈ rest := by simpa [Ne.symm nul] using terminated
      have kept : (head == 0 || head == c) = false := by simp [nul, same]
      simp [strfind, nul, same, ih later, List.findIdx_cons, kept]

theorem charsAt_cons (mem : Mem) (low high : Nat) (lt : low < high) :
    charsAt mem low high = mem.value low :: charsAt mem (low + 1) high := by
  have size : high - low = high - (low + 1) + 1 := by omega
  rw [charsAt, size, List.range'_succ]
  rfl

theorem charsAt_text (mem : Mem) (text : List UInt8) (low high : Nat)
    (inside : low + text.length ≤ high)
    (chars : ∀ i < text.length, mem.value (low + i) = text.getD i 0) :
    charsAt mem low high = text ++ charsAt mem (low + text.length) high := by
  induction text generalizing low with
  | nil => rfl
  | cons ch text ih =>
    rw [List.length_cons] at inside chars ⊢
    have first : mem.value low = ch := chars 0 (by omega)
    have rest := ih (low + 1) (by omega) fun i lt => by
      have address : low + 1 + i = low + (i + 1) := by omega
      rw [address]
      exact chars (i + 1) (by omega)
    rw [charsAt_cons _ _ _ (by omega), first, rest, Nat.add_comm text.length, ← Nat.add_assoc]
    rfl

theorem strcmp_zero (p q ps qs : Chars) (p_noNul : 0 ∉ p) (q_noNul : 0 ∉ q) :
    ∃ order, strcmp (p ++ 0 :: ps) (q ++ 0 :: qs) = .done order ∧ (order = 0 ↔ p = q) := by
  induction p generalizing q with
  | nil =>
    cases q with
    | nil => exact ⟨0, by simp [strcmp], by simp⟩
    | cons c q =>
      have nonzero : c.toNat ≠ 0 := by
        rw [List.mem_cons, not_or] at q_noNul
        exact fun zero => q_noNul.1 (UInt8.toNat_inj.1 zero.symm)
      exact ⟨-c.toNat, by simp [strcmp], by simp [nonzero]⟩
  | cons b p ih =>
    rw [List.mem_cons, not_or] at p_noNul
    cases q with
    | nil =>
      have nonzero : b.toNat ≠ 0 := fun zero => p_noNul.1 (UInt8.toNat_inj.1 zero.symm)
      refine ⟨b.toNat, by simp [strcmp, Ne.symm p_noNul.1], by simp [nonzero]⟩
    | cons c q =>
      rw [List.mem_cons, not_or] at q_noNul
      by_cases same : b = c
      next =>
        obtain ⟨order, ran, zero⟩ := ih q p_noNul.2 q_noNul.2
        refine ⟨order, ?_, by simp [zero, same]⟩
        rw [List.cons_append, List.cons_append, strcmp, if_pos ⟨Ne.symm p_noNul.1, same⟩, ran]
      next =>
        have apart : b.toNat ≠ c.toNat := fun equal => same (UInt8.toNat_inj.1 equal)
        have differ : ¬ (b ≠ 0 ∧ b = c) := fun both => same both.2
        refine ⟨b.toNat - c.toNat, ?_, ?_⟩
        · rw [List.cons_append, List.cons_append, strcmp, if_neg differ]
          rfl
        · simp only [List.cons.injEq, same, false_and, iff_false]
          omega

def wordAligned (address : Nat) : Bool := (Int.bmod address (2 ^ 32)).tmod 4 = 0

def memmove (mem : Mem) (dst src n : Nat) : Outcome Fault Mem :=
  if src < dst ∧ dst < wrap (src + n) then
    -- the blocks overlap, the destination above: copy from the far end down
    let s := wrap (src + n)
    let d := wrap (dst + n)
    if wordAligned s ∧ wordAligned d ∧ n % 4 = 0 then
      repMovs true 4 (n / 4) (wrap (d + 2 ^ 32 - 4)) (wrap (s + 2 ^ 32 - 4)) mem
    else repMovs true 1 n (wrap (d + 2 ^ 32 - 1)) (wrap (s + 2 ^ 32 - 1)) mem
  else if wordAligned src ∧ wordAligned dst ∧ n % 4 = 0 then
    repMovs false 4 (n / 4) dst src mem
  else repMovs false 1 n dst src mem

theorem repMovs_from_end (unit count dst src : Nat) (mem : Mem) (some : 0 < unit)
    (above : src ≤ dst) (bound : dst + unit * count ≤ 2 ^ 32)
    (src_maps : mem.Maps src (src + unit * count)) (dst_maps : mem.Maps dst (dst + unit * count)) :
    repMovs true unit count (wrap (wrap (dst + unit * count) + 2 ^ 32 - unit))
        (wrap (wrap (src + unit * count) + 2 ^ 32 - unit)) mem =
      .done (mem.blit dst (unit * count) fun i => mem.value (src + i)) := by
  cases count with
  | zero => rw [Nat.mul_zero, Memory.blit_zero]; rfl
  | succ count =>
    have last (address : Nat) (fits : address + unit * (count + 1) ≤ 2 ^ 32) :
        wrap (wrap (address + unit * (count + 1)) + 2 ^ 32 - unit) = address + unit * count := by
      rw [Nat.mul_succ] at fits ⊢
      unfold wrap
      omega
    rw [last dst bound, last src (by omega)]
    exact repMovs_backward unit count dst src mem some above bound dst_maps src_maps

-- Blocks that overlap with the destination above end below the last address, so the test for
-- them does not wrap; the other way round, or apart, the copy goes forward.
theorem memmove_correct (mem : Mem) (dst src n : Nat) (src_bound : src + n ≤ 2 ^ 32)
    (dst_bound : dst + n ≤ 2 ^ 32) (src_maps : mem.Maps src (src + n))
    (dst_maps : mem.Maps dst (dst + n)) :
    memmove mem dst src n = .done (mem.blit dst n fun i => mem.value (src + i)) := by
  by_cases overlap : src < dst ∧ dst < wrap (src + n)
  next =>
    by_cases words : wordAligned (wrap (src + n)) ∧ wordAligned (wrap (dst + n)) ∧ n % 4 = 0
    next =>
      have size : 4 * (n / 4) = n := by omega
      have copied := repMovs_from_end 4 (n / 4) dst src mem (by decide) (by omega)
      rw [size] at copied
      simp only [memmove, if_pos overlap, if_pos words]
      exact copied dst_bound src_maps dst_maps
    next =>
      have copied := repMovs_from_end 1 n dst src mem (by decide) (by omega)
      rw [Nat.one_mul] at copied
      simp only [memmove, if_pos overlap, if_neg words]
      exact copied dst_bound src_maps dst_maps
  next =>
    have apart : dst ≤ src ∨ src + n ≤ dst := by
      unfold wrap at overlap
      omega
    by_cases words : wordAligned src ∧ wordAligned dst ∧ n % 4 = 0
    next =>
      have size : 4 * (n / 4) = n := by omega
      have copied := repMovs_forward 4 (n / 4) dst src mem (by decide)
      rw [size] at copied
      simp [memmove, overlap, words, copied apart dst_bound src_bound dst_maps src_maps]
    next =>
      have copied := repMovs_forward 1 n dst src mem (by decide)
      rw [Nat.one_mul] at copied
      simp [memmove, overlap, words, copied apart dst_bound src_bound dst_maps src_maps]

theorem memmove_down (mem : Mem) (dst src n : Nat) (below : dst ≤ src)
    (bound : src + n ≤ 2 ^ 32) (maps : mem.Maps dst (src + n)) :
    memmove mem dst src n = .done (mem.blit dst n fun i => mem.value (src + i)) :=
  memmove_correct mem dst src n bound (by omega) (maps.narrow (by omega) le_rfl)
    (maps.narrow le_rfl (by omega))

end JosLab
