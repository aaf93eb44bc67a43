import JosLab.Lib.Vprintfmt

set_option autoImplicit false

namespace JosLab.Printfmt

structure Sprintbuf where
  buf : Nat
  ebuf : Nat
  cnt : Int
  mem : Mem

def sprintputch (ch : Int) (b : Sprintbuf) : Outcome Fault Sprintbuf :=
  let b := { b with cnt := int32 (b.cnt + 1) }
  if b.buf < b.ebuf then do
    let mem ← b.mem.store .store b.buf (UInt8.ofInt ch)
    return { b with mem, buf := wrap (b.buf + 1) }
  else return b

def eInval : Int := 3

-- A null `buf` is address 0.
def vsnprintf (mem : Mem) (buf : Nat) (n : Int) (f : CString) (ap : List Arg) :
    Outcome Fault (Int × Mem) := do
  let b := { buf, ebuf := ((buf + n - 1) % 2 ^ 32).toNat, cnt := 0, mem }
  if buf = 0 ∨ n < 1 then return (-eInval, mem)
  else
    let b ← vprintfmt sprintputch f ap b
    let mem ← b.mem.store .store b.buf 0
    return (b.cnt, mem)

def snprintf (mem : Mem) (buf : Nat) (n : Int) (f : CString) (ap : List Arg) :
    Outcome Fault (Int × Mem) := vsnprintf mem buf n f ap

theorem emit_sprintputch (w : List Int) (b : Sprintbuf) (le : b.buf ≤ b.ebuf)
    (bound : b.ebuf < 2 ^ 32) (maps : b.mem.Maps b.buf b.ebuf) (nonneg : 0 ≤ b.cnt)
    (short : b.cnt + w.length < 2 ^ 31) :
    emit sprintputch w b = .done
      { buf := b.buf + min w.length (b.ebuf - b.buf)
        ebuf := b.ebuf
        cnt := b.cnt + w.length
        mem := b.mem.blit b.buf (min w.length (b.ebuf - b.buf))
          fun i => UInt8.ofInt (w.getD i 0) } := by
  induction w generalizing b with
  | nil => simp [Memory.blit_zero]
  | cons ch w ih =>
    have counted : int32 (b.cnt + 1) = b.cnt + 1 := by
      unfold int32
      rw [Int.bmod_eq_iff (by decide)]
      simp only [List.length_cons, Nat.cast_add, Nat.cast_one] at short
      refine ⟨by omega, by omega, by simp⟩
    have length : (ch :: w).length = w.length + 1 := rfl
    rw [length] at short ⊢
    by_cases room : b.buf < b.ebuf
    next =>
      have stored := Memory.store_mapped Fault.store b.mem b.buf (UInt8.ofInt ch)
        (maps b.buf le_rfl room)
      have first : sprintputch ch b =
          .done ⟨b.buf + 1, b.ebuf, b.cnt + 1, Memory.set b.mem b.buf (UInt8.ofInt ch)⟩ := by
        simp [sprintputch, room, stored, counted, wrap_of_lt (b.buf + 1) (by omega)]
      have count : min (w.length + 1) (b.ebuf - b.buf) =
          1 + min w.length (b.ebuf - (b.buf + 1)) := by omega
      have cells : (Memory.set b.mem b.buf (UInt8.ofInt ch)).blit (b.buf + 1)
          (min w.length (b.ebuf - (b.buf + 1))) (fun i => UInt8.ofInt (w.getD i 0)) =
          b.mem.blit b.buf (1 + min w.length (b.ebuf - (b.buf + 1)))
            (fun i => UInt8.ofInt ((ch :: w).getD i 0)) := by
        rw [← Memory.blit_blit, ← Memory.set_eq_blit]
        simp [Nat.add_comm 1]
      have rest := ih ⟨b.buf + 1, b.ebuf, b.cnt + 1, Memory.set b.mem b.buf (UInt8.ofInt ch)⟩ room
        bound (maps.narrow (Nat.le_succ _) le_rfl) (by dsimp only; omega) (by dsimp only; omega)
      rw [emit_cons, first, Outcome.done_bind, rest, count]
      dsimp only
      rw [cells]
      congr 2 <;> omega
    next =>
      have first : sprintputch ch b = .done { b with cnt := b.cnt + 1 } := by
        simp [sprintputch, room, counted]
      have full (k : Nat) : min k (b.ebuf - b.buf) = 0 := by omega
      have rest := ih { b with cnt := b.cnt + 1 } le bound maps (by dsimp only; omega)
        (by dsimp only; omega)
      rw [emit_cons, first, Outcome.done_bind, rest]
      simp only [full, Memory.blit_zero]
      congr 2
      omega

structure Stored (old new : Mem) (buf : Nat) (text : List UInt8) : Prop where
  mapped : ∀ a, new.mapped a = old.mapped a
  chars : ∀ i < text.length, new.value (buf + i) = text.getD i 0
  terminated : new.value (buf + text.length) = 0
  outside : ∀ a, a < buf ∨ buf + text.length < a → new.value a = old.value a

structure Buffer (mem : Mem) (buf : Nat) (n : Int) : Prop where
  notNull : buf ≠ 0
  some : 1 ≤ n
  bound : buf + n ≤ 2 ^ 32
  maps : mem.Maps buf (buf + n.toNat)

def truncated (w : List Int) (n : Int) : List UInt8 := (w.map UInt8.ofInt).take (n - 1).toNat

theorem truncated_length (w : List Int) (n : Int) :
    (truncated w n).length = min w.length (n - 1).toNat := by
  rw [truncated, List.length_take, List.length_map, Nat.min_comm]

theorem truncated_getD (w : List Int) (n : Int) (i : Nat) (kept : i < min w.length (n - 1).toNat) :
    (truncated w n).getD i 0 = UInt8.ofInt (w.getD i 0) := by
  have inside : i < w.length := by omega
  have before : i < (n - 1).toNat := by omega
  simp only [truncated]
  generalize (n - 1).toNat = count at before
  simp [List.getD, inside, before]

theorem truncated_prefix (w : List Int) (n m : Int) (le : n ≤ m) :
    truncated w n <+: truncated w m := by
  apply List.take_prefix_take_left
  omega

theorem vsnprintf_stored {f : CString} {ap left : List Arg} {w : List Int}
    (prints : printed f ap = .done (w, left)) (short : w.length < 2 ^ 31) {mem : Mem} {buf : Nat}
    {n : Int} (buffer : Buffer mem buf n) :
    ∃ mem', vsnprintf mem buf n f ap = .done (w.length, mem') ∧
      Stored mem mem' buf (truncated w n) := by
  have not_null := buffer.notNull
  have some := buffer.some
  have bound := buffer.bound
  have given : ¬ (buf = 0 ∨ n < 1) := by omega
  have ebuf : ((buf + n - 1 : Int) % 2 ^ 32).toNat = buf + (n - 1).toNat := by omega
  have room : buf + (n - 1).toNat - buf = (n - 1).toNat := by omega
  have emitted := emit_sprintputch w { buf, ebuf := buf + (n - 1).toNat, cnt := 0, mem }
    (by dsimp only; omega) (by dsimp only; omega)
    (buffer.maps.narrow le_rfl (by dsimp only; omega)) le_rfl (by dsimp only; omega)
  dsimp only at emitted
  rw [room, Int.zero_add, ← truncated_length] at emitted
  have size := truncated_length w n
  let filled := mem.blit buf (truncated w n).length fun i => UInt8.ofInt (w.getD i 0)
  have last := Memory.store_mapped Fault.store filled (buf + (truncated w n).length) 0
    (buffer.maps _ (by omega) (by omega))
  have ran : vsnprintf mem buf n f ap =
      .done (w.length, Memory.set filled (buf + (truncated w n).length) 0) := by
    rw [vsnprintf, if_neg given, ebuf, vprintfmt_emit prints, emitted, Outcome.done_bind]
    dsimp only
    rw [last, Outcome.done_bind, Outcome.pure_eq]
  exact ⟨_, ran, {
    mapped := fun _ => rfl
    chars := by
      intro i lt
      rw [Memory.set_value, if_neg (by omega), Memory.blit_inside _ _ _ _ _ lt]
      exact (truncated_getD w n i (by omega)).symm
    terminated := by simp
    outside := by
      intro a out
      rw [Memory.set_value, if_neg (by omega)]
      exact Memory.blit_outside _ _ _ _ _ (by omega) }⟩

theorem vsnprintf_truncates (f : CString) (ap : List Arg) :
    (∀ w left, printed f ap = .done (w, left) → w.length < 2 ^ 31 →
      (∀ mem buf n, Buffer mem buf n →
        ∃ mem', vsnprintf mem buf n f ap = .done (w.length, mem') ∧
          Stored mem mem' buf (truncated w n)) ∧
      ∀ mem₁ buf₁ n₁ mem₂ buf₂ n₂, Buffer mem₁ buf₁ n₁ → Buffer mem₂ buf₂ n₂ → n₁ ≤ n₂ →
        ∃ rc text₁ text₂ mem₁' mem₂', vsnprintf mem₁ buf₁ n₁ f ap = .done (rc, mem₁') ∧
          vsnprintf mem₂ buf₂ n₂ f ap = .done (rc, mem₂') ∧ Stored mem₁ mem₁' buf₁ text₁ ∧
          Stored mem₂ mem₂' buf₂ text₂ ∧ text₁ <+: text₂) ∧
    ∀ mem buf n, buf = 0 ∨ n < 1 → vsnprintf mem buf n f ap = .done (-eInval, mem) := by
  constructor
  next =>
    intro w left prints short
    constructor
    next =>
      intro mem buf n buffer
      exact vsnprintf_stored prints short buffer
    next =>
      intro mem₁ buf₁ n₁ mem₂ buf₂ n₂ buffer₁ buffer₂ le
      obtain ⟨mem₁', ran₁, stored₁⟩ := vsnprintf_stored prints short buffer₁
      obtain ⟨mem₂', ran₂, stored₂⟩ := vsnprintf_stored prints short buffer₂
      exact ⟨w.length, _, _, mem₁', mem₂', ran₁, ran₂, stored₁, stored₂,
        truncated_prefix w n₁ n₂ le⟩
  next =>
    intro mem buf n refused
    simp [vsnprintf, refused]

-- "%d!" of -42 into three bytes at address 8.
theorem vsnprintf_three_bytes :
    ∃ mem', vsnprintf ⟨fun a => 8 ≤ a && a < 11, fun _ => 7⟩ 8 3 ⟨[37, 100, 33], by decide⟩
        [.word 0xffffffd6] = .done (4, mem') ∧
      Stored ⟨fun a => 8 ≤ a && a < 11, fun _ => 7⟩ mem' 8 [45, 52] :=
  ((vsnprintf_truncates ⟨[37, 100, 33], by decide⟩ [.word 0xffffffd6]).1 [45, 52, 50, 33] []
    (by decide +kernel) (by decide)).1 _ 8 3
    ⟨by decide, by decide, by decide, by
      intro a ge lt
      simp at lt ⊢
      omega⟩

end JosLab.Printfmt
