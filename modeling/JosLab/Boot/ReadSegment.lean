import JosLab.Boot.Main

set_option autoImplicit false

namespace JosLab.Boot

variable (disk : Nat → UInt8)

def down (x : Nat) : Nat := 512 * (x / 512)

def up (x : Nat) : Nat := 512 * ((x + 511) / 512)

def kernel (i : Nat) : UInt8 := disk (512 + i)

theorem insl_correct (cnt addr : Nat) (s : Machine) (cell : Nat → UInt8)
    (bound : addr + 4 * cnt ≤ 2 ^ 32) (maps : s.mem.Maps addr (addr + 4 * cnt))
    (pending : s.ide.pending = (List.range (4 * cnt)).map cell) :
    ∃ ide, insl addr cnt s = .done { mem := s.mem.blit addr (4 * cnt) cell, ide } := by
  induction cnt generalizing addr s cell with
  | zero => exact ⟨s.ide, by simp [insl, Memory.blit_zero]⟩
  | succ cnt ih =>
    have size : 4 * (cnt + 1) = 4 + 4 * cnt := by omega
    rw [size] at bound maps pending ⊢
    have first : s.ide.pending.take 4 = (List.range 4).map cell := by
      rw [pending, List.range_add, List.map_append, List.take_left' (by simp)]
    have later : s.ide.pending.drop 4 = (List.range (4 * cnt)).map fun i => cell (4 + i) := by
      rw [pending, List.range_add, List.map_append, List.drop_left' (by simp), List.map_map]
      rfl
    have stored := storeBytes_mapped s.mem addr cell 4 (by omega) (maps.narrow le_rfl (by omega))
    rw [insl, first, stored, Outcome.done_bind, ← Memory.blit_blit]
    cases cnt with
    | zero => exact ⟨_, by simp [insl, Memory.blit_zero]; rfl⟩
    | succ cnt =>
      rw [wrap_of_lt _ (by omega)]
      exact ih (addr + 4) _ _ (by omega)
        ((Memory.blit_maps ..).2 (maps.narrow (by omega) (by omega))) later

theorem sector_bytes (offset : UInt32) (small : offset.toNat < 2 ^ 28) :
    offset.toUInt8.toNat + 2 ^ 8 * (offset >>> 8).toUInt8.toNat +
      2 ^ 16 * (offset >>> 16).toUInt8.toNat +
      2 ^ 24 * (((offset >>> 24) ||| 0xE0).toUInt8 &&& 0x0F).toNat = offset.toNat := by
  have nibble : ∀ b : BitVec 8, (b ||| 0xE0#8) &&& 0x0F#8 = b &&& 0x0F#8 := by decide
  have top : ((offset >>> 24) ||| 0xE0).toUInt8 &&& (0x0F : UInt8) =
      (offset >>> 24).toUInt8 &&& (0x0F : UInt8) := by
    rw [UInt32.toUInt8_or]
    exact UInt8.toBitVec_inj.1 (nibble (offset >>> 24).toUInt8.toBitVec)
  have low (b : UInt8) : (b &&& 0x0F).toNat = b.toNat % 16 := by
    rw [UInt8.toNat_and]
    exact Nat.and_two_pow_sub_one_eq_mod _ 4
  rw [top, low]
  simp [Nat.shiftRight_eq_div_pow]
  omega

theorem readsect_correct (dst offset : UInt32) (s : Machine) (bound : dst.toNat + 512 ≤ 2 ^ 32)
    (small : offset.toNat < 2 ^ 28) (maps : s.mem.Maps dst.toNat (dst.toNat + 512)) :
    ∃ ide, readsect disk dst offset s = .done
      { mem := s.mem.blit dst.toNat 512 fun i => disk (512 * offset.toNat + i), ide } := by
  have pending (d : Ide) (one : d.register 0x1F2 = 1) (there : d.sector = offset.toNat) :
      (outb disk 0x1F7 0x20 d).pending =
        (List.range (4 * 128)).map fun i => disk (512 * offset.toNat + i) := by
    simp [outb, one, there]
  exact insl_correct 128 dst.toNat _ _ bound maps (pending _ rfl (sector_bytes offset small))

theorem toNat_roundDown (pa : UInt32) : (pa &&& ~~~(512 - 1)).toNat = down pa.toNat := by
  have bits : ∀ i < 32, (~~~511#32).getLsbD i = decide (9 ≤ i) := by decide
  have shifted : pa &&& ~~~(512 - 1 : UInt32) = (pa >>> 9) <<< 9 := by
    apply UInt32.toBitVec_inj.1
    ext i lt
    have bit := bits i lt
    simp at bit ⊢
    grind
  have below := pa.toNat_lt
  rw [shifted, down]
  simp [Nat.shiftRight_eq_div_pow, Nat.shiftLeft_eq]
  omega

theorem readseg_run (endPa : UInt32) (n fuel p : Nat) (pa offset : UInt32) (s : Machine)
    (aligned : pa.toNat = 512 * p) (left : (endPa.toNat + 511) / 512 - p = n)
    (room : endPa.toNat + 512 ≤ 2 ^ 32) (small : offset.toNat + n < 2 ^ 28)
    (maps : s.mem.Maps (512 * p) (512 * p + 512 * n)) (enough : n < fuel) :
    ∃ ide, Loop.run (readsegPass disk endPa) fuel (pa, offset, s) = .done
      { mem := s.mem.blit (512 * p) (512 * n) fun i => disk (512 * offset.toNat + i), ide } := by
  induction n generalizing fuel p pa offset s with
  | zero =>
    obtain ⟨fuel, rfl⟩ := Loop.one_more enough
    have ended : ¬ pa < endPa := by
      rw [UInt32.lt_iff_toNat_lt]
      omega
    exact ⟨s.ide, Loop.run_leave _ (by simp [readsegPass, ended, Memory.blit_zero])⟩
  | succ n ih =>
    obtain ⟨fuel, rfl⟩ := Loop.one_more enough
    have more : pa < endPa := by
      rw [UInt32.lt_iff_toNat_lt]
      omega
    have size : 512 * (n + 1) = 512 + 512 * n := by omega
    have start : 512 * (p + 1) = 512 * p + 512 := by omega
    have sectsize : (512 : UInt32).toNat = 512 := rfl
    have next_pa : (pa + 512).toNat = 512 * (p + 1) := by
      rw [UInt32.toNat_add, sectsize]
      omega
    have next_offset : (offset + 1).toNat = offset.toNat + 1 := by
      have one : (1 : UInt32).toNat = 1 := rfl
      rw [UInt32.toNat_add, one]
      omega
    rw [size] at maps ⊢
    obtain ⟨ide, sector⟩ := readsect_correct disk pa offset s (by omega) (by omega)
      (maps.narrow (by omega) (by omega))
    rw [aligned] at sector
    have step : readsegPass disk endPa (pa, offset, s) = .done (.again (pa + 512, offset + 1,
        { mem := s.mem.blit (512 * p) 512 fun i => disk (512 * offset.toNat + i), ide })) := by
      simp [readsegPass, more, sector]
    have rest_maps : (s.mem.blit (512 * p) 512 fun i => disk (512 * offset.toNat + i)).Maps
        (512 * (p + 1)) (512 * (p + 1) + 512 * n) :=
      (Memory.blit_maps ..).2 (maps.narrow (by omega) (by omega))
    obtain ⟨last, rest⟩ := ih fuel (p + 1) (pa + 512) (offset + 1)
      { mem := s.mem.blit (512 * p) 512 fun i => disk (512 * offset.toNat + i), ide } next_pa (by omega) (by omega)
      rest_maps (by omega)
    have shift : (fun i => disk (512 * (offset.toNat + 1) + i)) =
        fun i => disk (512 * offset.toNat + (512 + i)) :=
      funext fun i => congrArg disk (by omega)
    exact ⟨last, by
      rw [Loop.run_again _ step, rest, ← Memory.blit_blit, start, next_offset, shift]⟩

theorem readseg_blit (pa count offset : UInt32) (s : Machine)
    (room : pa.toNat + count.toNat + 512 ≤ 2 ^ 32)
    (maps : s.mem.Maps (down pa.toNat) (up (pa.toNat + count.toNat))) :
    ∃ ide, readseg disk pa count offset s = .done
      { mem := s.mem.blit (down pa.toNat) (up (pa.toNat + count.toNat) - down pa.toNat) fun i =>
          kernel disk (down offset.toNat + i), ide } := by
  have sectsize : (512 : UInt32).toNat = 512 := rfl
  have one : (1 : UInt32).toNat = 1 := rfl
  have offset_lt := offset.toNat_lt
  have end_eq : (pa + count).toNat = pa.toNat + count.toNat := by
    rw [UInt32.toNat_add]
    omega
  have sector : (offset / 512 + 1).toNat = offset.toNat / 512 + 1 := by
    rw [UInt32.toNat_add, UInt32.toNat_div, sectsize, one]
    omega
  have size : up (pa.toNat + count.toNat) - down pa.toNat =
      512 * ((pa.toNat + count.toNat + 511) / 512 - pa.toNat / 512) := by
    unfold up down
    omega
  have cells : (fun i => kernel disk (down offset.toNat + i)) =
      fun i => disk (512 * (offset.toNat / 512 + 1) + i) := by
    refine funext fun i => congrArg disk ?_
    unfold down
    omega
  rw [size, cells, ← sector]
  refine readseg_run disk (pa + count) _ (readsegFuel count) (pa.toNat / 512) _ _ s
    (toNat_roundDown pa) (by rw [end_eq]) (by omega) (by omega) (maps.narrow le_rfl ?_) ?_
  · unfold up
    omega
  · unfold readsegFuel
    omega

theorem readseg_copies (pa count offset : UInt32) (s : Machine)
    (congruent : pa.toNat % 512 = offset.toNat % 512)
    (room : pa.toNat + count.toNat ≤ 2 ^ 32 - 512)
    (maps : s.mem.Maps (down pa.toNat) (up (pa.toNat + count.toNat))) :
    ∃ s', readseg disk pa count offset s = .done s' ∧
      (∀ i < count.toNat, s'.mem.value (pa.toNat + i) = kernel disk (offset.toNat + i)) ∧
      (∀ a, a < down pa.toNat ∨ up (pa.toNat + count.toNat) ≤ a →
        s'.mem.value a = s.mem.value a) ∧
      ∀ a, s'.mem.mapped a = s.mem.mapped a := by
  obtain ⟨ide, ran⟩ := readseg_blit disk pa count offset s (by omega) maps
  refine ⟨_, ran, fun i lt => ?_, fun a outside => ?_, fun _ => rfl⟩
  · have start : pa.toNat + i = down pa.toNat + (pa.toNat % 512 + i) := by
      unfold down
      omega
    have source : down offset.toNat + (pa.toNat % 512 + i) = offset.toNat + i := by
      unfold down
      omega
    have inside : pa.toNat % 512 + i < up (pa.toNat + count.toNat) - down pa.toNat := by
      unfold up down
      omega
    rw [start, Memory.blit_inside _ _ _ _ _ inside, source]
  · have out : a < down pa.toNat ∨
        down pa.toNat + (up (pa.toNat + count.toNat) - down pa.toNat) ≤ a := by
      unfold up down at *
      omega
    rw [Memory.blit_outside _ _ _ _ _ out]

def blankMachine : Machine where
  mem := { mapped := fun _ => true, value := fun _ => 0 }
  ide := { register := fun _ => 0, pending := [] }

theorem readseg_two_sectors :
    ∃ s', readseg (fun i => UInt8.ofNat i) 0x1001FB 10 0x11FB blankMachine = .done s' ∧
      (∀ i < 10, s'.mem.value (0x1001FB + i) = kernel (fun i => UInt8.ofNat i) (0x11FB + i)) ∧
      (∀ a, a < down 0x1001FB ∨ up (0x1001FB + 10) ≤ a →
        s'.mem.value a = blankMachine.mem.value a) ∧
      ∀ a, s'.mem.mapped a = blankMachine.mem.mapped a :=
  readseg_copies (fun i => UInt8.ofNat i) 0x1001FB 10 0x11FB blankMachine (by decide) (by decide)
    fun _ _ _ => rfl

end JosLab.Boot
