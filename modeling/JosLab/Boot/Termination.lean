import JosLab.Boot.ReadSegment

set_option autoImplicit false

namespace JosLab.Boot

variable (disk : Nat → UInt8)

def readsegStart (pa offset : UInt32) (s : Machine) : UInt32 × UInt32 × Machine :=
  (pa &&& ~~~(512 - 1), offset / 512 + 1, s)

def Machine.Open (s : Machine) : Prop := s.mem.Maps 0 (2 ^ 32)

theorem storeBytes_open (mem : Mem) (address : Nat) (bytes : List UInt8) (lt : address < 2 ^ 32)
    (maps : mem.Maps 0 (2 ^ 32)) :
    ∃ mem', storeBytes mem address bytes = .done mem' ∧ mem'.Maps 0 (2 ^ 32) := by
  induction bytes generalizing mem address with
  | nil => exact ⟨mem, rfl, maps⟩
  | cons byte rest ih =>
    rw [storeBytes, Memory.store_mapped _ _ _ _ (maps address (Nat.zero_le _) lt),
      Outcome.done_bind]
    exact ih _ _ (wrap_lt _) maps

theorem insl_open (cnt addr : Nat) (s : Machine) (lt : addr < 2 ^ 32) (opened : s.Open) :
    ∃ s', insl addr cnt s = .done s' ∧ s'.Open := by
  induction cnt generalizing addr s with
  | zero => exact ⟨s, rfl, opened⟩
  | succ cnt ih =>
    obtain ⟨mem, stored, maps⟩ := storeBytes_open s.mem addr (s.ide.pending.take 4) lt opened
    rw [insl, stored, Outcome.done_bind]
    exact ih _ _ (wrap_lt _) maps

theorem readsect_open (dst offset : UInt32) (s : Machine) (opened : s.Open) :
    ∃ s', readsect disk dst offset s = .done s' ∧ s'.Open :=
  insl_open 128 dst.toNat _ dst.toNat_lt opened

theorem readsegPass_again (endPa pa offset : UInt32) (s : Machine) (opened : s.Open)
    (more : pa < endPa) :
    ∃ s', readsegPass disk endPa (pa, offset, s) = .done (.again (pa + 512, offset + 1, s')) ∧
      s'.Open := by
  obtain ⟨s', sector, opened'⟩ := readsect_open disk pa offset s opened
  exact ⟨s', by simp [readsegPass, more, sector], opened'⟩

theorem readsegPass_leave (endPa pa offset : UInt32) (s : Machine) (ended : endPa ≤ pa) :
    readsegPass disk endPa (pa, offset, s) = .done (.leave s) := by
  have no_more : ¬ pa < endPa := UInt32.not_lt.2 ended
  simp [readsegPass, no_more]

theorem readseg_leaves (endPa : UInt32) (n p : Nat) (pa offset : UInt32) (s : Machine)
    (aligned : pa.toNat = 512 * p) (left : (endPa.toNat + 511) / 512 - p = n)
    (room : endPa.toNat + 512 ≤ 2 ^ 32) (opened : s.Open) :
    ∃ s', Loop.Leaves (readsegPass disk endPa) n (pa, offset, s) s' := by
  induction n generalizing p pa offset s with
  | zero =>
    have ended : endPa ≤ pa := by
      rw [UInt32.le_iff_toNat_le]
      omega
    exact ⟨s, .now (readsegPass_leave disk endPa pa offset s ended)⟩
  | succ n ih =>
    have more : pa < endPa := by
      rw [UInt32.lt_iff_toNat_lt]
      omega
    have next_pa : (pa + 512).toNat = 512 * (p + 1) := by
      have sectsize : (512 : UInt32).toNat = 512 := rfl
      rw [UInt32.toNat_add, sectsize]
      omega
    obtain ⟨s₁, step, opened₁⟩ := readsegPass_again disk endPa pa offset s opened more
    obtain ⟨s', rest⟩ := ih (p + 1) (pa + 512) (offset + 1) s₁ next_pa (by omega) opened₁
    exact ⟨s', .later step rest⟩

theorem readseg_forever (endPa : UInt32) (last : 2 ^ 32 < endPa.toNat + 512) (fuel : Nat)
    (pa offset : UInt32) (s : Machine) (aligned : pa.toNat % 512 = 0) (opened : s.Open) :
    Loop.run (readsegPass disk endPa) fuel (pa, offset, s) = .spin := by
  refine Loop.run_forever (fun state => state.1.toNat % 512 = 0 ∧ state.2.2.Open) ?_ fuel _
    ⟨aligned, opened⟩
  rintro ⟨pa, offset, s⟩ ⟨aligned, opened⟩
  have below := pa.toNat_lt
  have more : pa < endPa := by
    rw [UInt32.lt_iff_toNat_lt]
    dsimp only at aligned
    omega
  have next_aligned : (pa + 512).toNat % 512 = 0 := by
    have sectsize : (512 : UInt32).toNat = 512 := rfl
    rw [UInt32.toNat_add, sectsize]
    dsimp only at aligned
    omega
  obtain ⟨s', step, opened'⟩ := readsegPass_again disk endPa pa offset s opened more
  exact ⟨_, step, next_aligned, opened'⟩

def SegmentEnds (pa count : UInt32) : Prop :=
  (pa + count).toNat ≤ 2 ^ 32 - 512 ∨ (pa + count).toNat ≤ down pa.toNat

theorem sectors_le (pa count : UInt32) (ahead : down pa.toNat < (pa + count).toNat) :
    ((pa + count).toNat + 511) / 512 - pa.toNat / 512 ≤ count.toNat / 512 + 2 := by
  have pa_lt := pa.toNat_lt
  have count_lt := count.toNat_lt
  rw [UInt32.toNat_add] at ahead ⊢
  unfold down at ahead
  rcases Nat.lt_or_ge (pa.toNat + count.toNat) (2 ^ 32) with fits | wraps
  · rw [Nat.mod_eq_of_lt fits]
    omega
  · rw [Nat.mod_eq_sub_mod wraps, Nat.mod_eq_of_lt (by omega)] at ahead ⊢
    omega

theorem readseg_ends (pa count offset : UInt32) (s : Machine) (opened : s.Open)
    (ends : SegmentEnds pa count) :
    ∃ sectors ≤ count.toNat / 512 + 2, ∃ s',
      Loop.Leaves (readsegPass disk (pa + count)) sectors (readsegStart pa offset s) s' := by
  by_cases ahead : down pa.toNat < (pa + count).toNat
  · have room : (pa + count).toNat + 512 ≤ 2 ^ 32 := by
      rcases ends with below | behind <;> omega
    exact ⟨_, sectors_le pa count ahead,
      readseg_leaves disk (pa + count) _ (pa.toNat / 512) _ _ s (toNat_roundDown pa) rfl room opened⟩
  · have ended : pa + count ≤ pa &&& ~~~(512 - 1) := by
      rw [UInt32.le_iff_toNat_le, toNat_roundDown]
      omega
    exact ⟨0, Nat.zero_le _, s, .now (readsegPass_leave disk _ _ _ s ended)⟩

theorem readseg_spins (pa count offset : UInt32) (s : Machine) (opened : s.Open)
    (endless : ¬ SegmentEnds pa count) (fuel : Nat) :
    Loop.run (readsegPass disk (pa + count)) fuel (readsegStart pa offset s) = .spin := by
  have bad : ¬ (pa + count).toNat ≤ 2 ^ 32 - 512 := fun below => endless (.inl below)
  have aligned : (pa &&& ~~~(512 - 1)).toNat % 512 = 0 := by
    rw [toNat_roundDown, down]
    omega
  exact readseg_forever disk (pa + count) (by omega) fuel _ _ s aligned opened

def ReadsegEnds (pa count offset : UInt32) (s : Machine) : Prop :=
  ∃ sectors ≤ count.toNat / 512 + 2, ∃ s',
    Loop.Leaves (readsegPass disk (pa + count)) sectors (readsegStart pa offset s) s' ∧
      readseg disk pa count offset s = .done s'

theorem readseg_terminates_iff (pa count offset : UInt32) (s : Machine) (opened : s.Open) :
    (ReadsegEnds disk pa count offset s ↔ SegmentEnds pa count) ∧
      (¬ SegmentEnds pa count → ∀ fuel,
        Loop.run (readsegPass disk (pa + count)) fuel (readsegStart pa offset s) = .spin) := by
  have spins := readseg_spins disk pa count offset s opened
  refine ⟨⟨fun ⟨_, _, s', leaves, _⟩ => ?_, fun ends => ?_⟩, spins⟩
  next =>
    by_contra endless
    have left := leaves.run_eq _ (Nat.lt_succ_self _)
    rw [spins endless] at left
    cases left
  next =>
    obtain ⟨sectors, few, s', leaves⟩ := readseg_ends disk pa count offset s opened ends
    exact ⟨sectors, few, s', leaves, leaves.run_eq _ (by unfold readsegFuel; omega)⟩

theorem readseg_terminates_page :
    (ReadsegEnds (fun i => UInt8.ofNat i) elfhdr 4096 0 blankMachine ↔ SegmentEnds elfhdr 4096) ∧
      (¬ SegmentEnds elfhdr 4096 → ∀ fuel,
        Loop.run (readsegPass (fun i => UInt8.ofNat i) (elfhdr + 4096)) fuel
          (readsegStart elfhdr 0 blankMachine) = .spin) :=
  readseg_terminates_iff (fun i => UInt8.ofNat i) elfhdr 4096 0 blankMachine fun _ _ _ => rfl

-- One byte of the last sector: the next `pa` is 0, far below the end again.
theorem readseg_last_sector :
    ¬ ReadsegEnds (fun i => UInt8.ofNat i) 0xFFFFFE00 1 0 blankMachine := by
  have endless : ¬ SegmentEnds 0xFFFFFE00 1 := by
    unfold SegmentEnds down
    decide
  rintro ⟨sectors, _, s', leaves, _⟩
  have left := leaves.run_eq _ (Nat.lt_succ_self sectors)
  have spin := readseg_spins (fun i => UInt8.ofNat i) 0xFFFFFE00 1 0 blankMachine (fun _ _ _ => rfl)
    endless (sectors + 1)
  rw [spin] at left
  cases left

end JosLab.Boot
