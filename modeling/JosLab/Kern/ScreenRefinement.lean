import JosLab.Kern.Console
import JosLab.Kern.Paper

set_option autoImplicit false

namespace JosLab.Console

theorem low_byte_eq (c : UInt32) (key : UInt8) : c &&& 0xff = key.toUInt32 ↔ c.toUInt8 = key := by
  rw [← UInt32.toNat_inj, ← UInt8.toNat_inj]
  have masked := Nat.and_two_pow_sub_one_eq_mod c.toNat 8
  simp at masked ⊢
  rw [masked]

theorem low_byte_attr (c : UInt32) (s : Console) : (c ||| s.attr).toUInt8 = c.toUInt8 := by
  have low : s.attr.toUInt8 = 0 := by
    unfold attr
    split
    next => rfl
    next =>
      apply UInt8.toBitVec_inj.1
      ext i lt
      simp
  simp [low]

theorem high_byte (c : UInt32) : (c.toUInt16 >>> 8).toUInt8 = (c >>> 8).toUInt8 := by
  apply UInt8.toBitVec_inj.1
  ext i lt
  simp
  omega

theorem low_byte_blanked (c : UInt32) : ((c &&& ~~~0xff) ||| 32).toUInt8 = 32 := by
  apply UInt8.toBitVec_inj.1
  ext i lt
  simp

theorem high_byte_blanked (c : UInt32) :
    (((c &&& ~~~0xff) ||| 32) >>> 8).toUInt8 = (c >>> 8).toUInt8 := by
  apply UInt8.toBitVec_inj.1
  ext i lt
  have bits : ∀ i < 8, (4294967040#32).getLsbD (i + 8) = true ∧
      (32#32).getLsbD (i + 8) = false := by decide
  simp [Nat.add_comm 8 i, bits i lt]

theorem high_byte_or (c d : UInt32) :
    ((c ||| d) >>> 8).toUInt8 = (c >>> 8).toUInt8 ||| (d >>> 8).toUInt8 := by
  apply UInt8.toBitVec_inj.1
  ext i lt
  simp

theorem high_byte_attr (c : UInt32) (s : Console) (p : Paper) (fg : s.cgaFg = p.fg)
    (bg : s.cgaBg = p.bg) :
    ((c ||| s.attr) >>> 8).toUInt8 = p.color ||| (c >>> 8).toUInt8 := by
  have color : (s.attr >>> 8).toUInt8 = p.color := by
    unfold attr Paper.color
    rw [fg, bg]
    split
    next => rfl
    next =>
      apply UInt8.toBitVec_inj.1
      ext i lt
      have shifted : 8 + i - 12 = i - 4 := by omega
      have inside : 8 + i < 32 ∧ i < 32 ∧ i - 4 < 32 := by omega
      have nibble : (8 + i < 12) = (i < 4) := by simp; omega
      simp [shifted, inside, nibble, BitVec.getLsbD_eq_getElem lt,
        BitVec.getLsbD_eq_getElem (show i - 4 < 8 by omega)]
  rw [high_byte_or, color, UInt8.or_comm]

theorem crtBuf_bound (s : Console) : s.crtBuf + 4000 ≤ 2 ^ 32 := by
  unfold crtBuf
  cases s.adapter <;> decide

def textCell (mem : Mem) (buf i : Nat) : Cell :=
  ⟨mem.value (buf + 2 * i + 1), mem.value (buf + 2 * i)⟩

def cellBytes (cell : Cell) : Nat → UInt8
  | 0 => cell.byte
  | _ + 1 => cell.color

def writeCell (mem : Mem) (buf i : Nat) (cell : Cell) : Mem :=
  mem.blit (buf + 2 * i) 2 (cellBytes cell)

theorem textCell_writeCell (mem : Mem) (buf i j : Nat) (cell : Cell) :
    textCell (writeCell mem buf i cell) buf j = if j = i then cell else textCell mem buf j := by
  rw [textCell, writeCell]
  by_cases same : j = i
  next =>
    subst same
    have low := Memory.blit_inside mem (buf + 2 * j) 2 0 (cellBytes cell) (by omega)
    have high := Memory.blit_inside mem (buf + 2 * j) 2 1 (cellBytes cell) (by omega)
    rw [Nat.add_zero] at low
    simp [low, high, cellBytes]
  next =>
    rw [Memory.blit_outside _ _ _ _ _ (by omega), Memory.blit_outside _ _ _ _ _ (by omega)]
    simp [same, textCell]

structure Confined (buf : Nat) (old new : Mem) : Prop where
  mapped : ∀ a, new.mapped a = old.mapped a
  outside : ∀ a, a < buf ∨ buf + 4000 ≤ a → new.value a = old.value a

theorem Confined.refl (buf : Nat) (mem : Mem) : Confined buf mem mem :=
  ⟨fun _ => rfl, fun _ _ => rfl⟩

theorem Confined.trans {buf : Nat} {m₁ m₂ m₃ : Mem} (first : Confined buf m₁ m₂)
    (second : Confined buf m₂ m₃) : Confined buf m₁ m₃ := by
  constructor
  next => intro a; rw [second.mapped, first.mapped]
  next => intro a out; rw [second.outside a out, first.outside a out]

theorem Confined.maps {buf : Nat} {old new : Mem} (confined : Confined buf old new)
    (maps : old.Maps buf (buf + 4000)) : new.Maps buf (buf + 4000) := by
  intro a ge lt
  rw [confined.mapped]
  exact maps a ge lt

theorem writeCell_confined (mem : Mem) (buf i : Nat) (cell : Cell) (lt : i < 2000) :
    Confined buf mem (writeCell mem buf i cell) :=
  ⟨fun _ => rfl, fun a out => Memory.blit_outside mem (buf + 2 * i) 2 a _ (by omega)⟩

theorem storeCell_mapped (s : Console) (i : Nat) (value : UInt16) (lt : i < 2000)
    (maps : s.mem.Maps s.crtBuf (s.crtBuf + 4000)) :
    s.storeCell i value = .done
      { s with mem := writeCell s.mem s.crtBuf i ⟨(value >>> 8).toUInt8, value.toUInt8⟩ } := by
  have bound := crtBuf_bound s
  have stored := storeBytes_mapped s.mem (s.crtBuf + 2 * i)
    (cellBytes ⟨(value >>> 8).toUInt8, value.toUInt8⟩) 2 (by omega)
    (maps.narrow (by omega) (by omega))
  have bytes : (List.range 2).map (cellBytes ⟨(value >>> 8).toUInt8, value.toUInt8⟩) =
      [value.toUInt8, (value >>> 8).toUInt8] := rfl
  rw [bytes] at stored
  rw [storeCell, stored]
  rfl

theorem blankCells_done (s : Console) (count i : Nat) (bound : i + count ≤ 2000)
    (maps : s.mem.Maps s.crtBuf (s.crtBuf + 4000)) :
    ∃ mem, blankCells count i s = .done { s with mem } ∧ Confined s.crtBuf s.mem mem ∧
      ∀ j, textCell mem s.crtBuf j =
        if i ≤ j ∧ j < i + count then .blank else textCell s.mem s.crtBuf j := by
  induction count generalizing i s with
  | zero =>
    have none (j : Nat) : ¬ (i ≤ j ∧ j < i + 0) := by omega
    exact ⟨s.mem, rfl, .refl s.crtBuf s.mem, fun j => by rw [if_neg (none j)]⟩
  | succ count ih =>
    have stored := storeCell_mapped s i (0x0700 ||| 32) (by omega) maps
    have kept := writeCell_confined s.mem s.crtBuf i .blank (by omega)
    obtain ⟨mem, ran, confined, cells⟩ := ih { s with mem := writeCell s.mem s.crtBuf i .blank }
      (i + 1) (by omega) (kept.maps maps)
    refine ⟨mem, ?_, kept.trans confined, ?_⟩
    · rw [blankCells, stored]
      exact ran
    · intro j
      rw [cells j, textCell_writeCell]
      by_cases first : j = i
      next => simp [first]
      next =>
        have later : i + 1 ≤ j ∧ j < i + 1 + count ↔ i ≤ j ∧ j < i + (count + 1) := by omega
        simp only [first, later, if_false]

theorem memmove_rows (s : Console) (maps : s.mem.Maps s.crtBuf (s.crtBuf + 4000)) :
    ∃ mem, memmove s.mem s.crtBuf (s.crtBuf + 2 * 80) 3840 = .done mem ∧
      Confined s.crtBuf s.mem mem ∧
      ∀ i < 1920, textCell mem s.crtBuf i = textCell s.mem s.crtBuf (i + 80) := by
  have bound := crtBuf_bound s
  refine ⟨_, memmove_down s.mem s.crtBuf (s.crtBuf + 2 * 80) 3840 (by omega) (by omega)
    (maps.narrow le_rfl (by omega)), ⟨fun _ => rfl, ?_⟩, ?_⟩
  · intro a out
    exact Memory.blit_outside _ _ _ _ _ (by omega)
  · intro i lt
    have low := Memory.blit_inside s.mem s.crtBuf 3840 (2 * i)
      (fun k => s.mem.value (s.crtBuf + 2 * 80 + k)) (by omega)
    have high := Memory.blit_inside s.mem s.crtBuf 3840 (2 * i + 1)
      (fun k => s.mem.value (s.crtBuf + 2 * 80 + k)) (by omega)
    have low_address : s.crtBuf + 2 * 80 + 2 * i = s.crtBuf + 2 * (i + 80) := by omega
    have high_address : s.crtBuf + 2 * 80 + (2 * i + 1) = s.crtBuf + 2 * (i + 80) + 1 := by omega
    rw [low_address] at low
    rw [high_address] at high
    exact congrArg₂ Cell.mk high low

theorem scroll_done (s : Console) (past : crtSize ≤ s.crtPos)
    (maps : s.mem.Maps s.crtBuf (s.crtBuf + 4000)) :
    ∃ mem, s.scroll = .done { s with mem, crtPos := s.crtPos - crtCols } ∧
      Confined s.crtBuf s.mem mem ∧ ∀ i < 2000, textCell mem s.crtBuf i =
        if i < 1920 then textCell s.mem s.crtBuf (i + 80) else .blank := by
  obtain ⟨moved, copied, moved_confined, moved_cells⟩ := memmove_rows s maps
  obtain ⟨mem, blanked, confined, cells⟩ := blankCells_done { s with mem := moved } 80 1920
    (by omega) (moved_confined.maps maps)
  refine ⟨mem, ?_, moved_confined.trans confined, ?_⟩
  · have size : (crtSize - crtCols).toNat = 1920 := rfl
    have cols : crtCols.toNat = 80 := rfl
    simp [scroll, past, size, cols, copied, blanked]
  · intro i lt
    rw [cells i]
    by_cases early : i < 1920
    next =>
      rw [if_neg (by omega), if_pos early]
      exact moved_cells i early
    next => rw [if_pos (by omega), if_neg early]

structure Shows (origin s : Console) (p : Paper) : Prop where
  adapter : s.adapter = origin.adapter
  confined : Confined origin.crtBuf origin.mem s.mem
  cells : ∀ i < 2000, textCell s.mem origin.crtBuf i = p.cell (p.top + i)
  cursor : p.cursor = p.top + s.crtPos.toNat
  fg : s.cgaFg = p.fg
  bg : s.cgaBg = p.bg
  below : ∀ i, p.bottom ≤ i → p.cell i = .blank

variable {origin s : Console} {p : Paper}

theorem Shows.crtBuf (shown : Shows origin s p) : s.crtBuf = origin.crtBuf := by
  rw [Console.crtBuf, shown.adapter]

theorem Shows.maps (shown : Shows origin s p)
    (maps : origin.mem.Maps origin.crtBuf (origin.crtBuf + 4000)) :
    s.mem.Maps s.crtBuf (s.crtBuf + 4000) := by
  rw [shown.crtBuf]
  exact shown.confined.maps maps

theorem Shows.outb (shown : Shows origin s p) (port : Nat) (data : UInt8) :
    Shows origin (s.outb port data) p :=
  ⟨shown.adapter, shown.confined, shown.cells, shown.cursor, shown.fg, shown.bg, shown.below⟩

theorem Shows.moveTo (shown : Shows origin s p) (pos : UInt16) :
    Shows origin { s with crtPos := pos } (p.moveTo (p.top + pos.toNat)) :=
  ⟨shown.adapter, shown.confined, shown.cells, rfl, shown.fg, shown.bg, shown.below⟩

theorem Shows.ink (shown : Shows origin s p) (i : Nat) (lt : i < 2000) (value : UInt16)
    (maps : origin.mem.Maps origin.crtBuf (origin.crtBuf + 4000)) :
    ∃ s', s.storeCell i value = .done s' ∧ s'.crtPos = s.crtPos ∧
      Shows origin s' (p.ink (p.top + i) ⟨(value >>> 8).toUInt8, value.toUInt8⟩) := by
  have stored := storeCell_mapped s i value lt (shown.maps maps)
  rw [shown.crtBuf] at stored
  refine ⟨_, stored, rfl, shown.adapter,
    shown.confined.trans (writeCell_confined s.mem origin.crtBuf i _ lt), ?_, shown.cursor,
    shown.fg, shown.bg, ?_⟩
  · intro j j_lt
    rw [textCell_writeCell, shown.cells j j_lt]
    simp [Paper.ink, Paper.top, Function.update_apply]
  · intro j ge
    have below := shown.below j ge
    have view : p.bottom = p.top + 2000 := rfl
    have ge : p.bottom ≤ j := ge
    have out : j ≠ p.top + i := by omega
    simpa [Paper.ink, Function.update_apply, out] using below

theorem Shows.scroll (shown : Shows origin s p) (near : s.crtPos.toNat < 2080)
    (maps : origin.mem.Maps origin.crtBuf (origin.crtBuf + 4000)) :
    ∃ s', s.scroll = .done s' ∧ s'.crtPos < crtSize ∧ Shows origin s' p.follow := by
  have view : p.bottom = p.top + 2000 := rfl
  have size : crtSize.toNat = 2000 := rfl
  have cursor := shown.cursor
  by_cases past : crtSize ≤ s.crtPos
  next =>
    obtain ⟨mem, ran, confined, cells⟩ := scroll_done s past (shown.maps maps)
    rw [shown.crtBuf] at confined cells
    have row : (s.crtPos - crtCols).toNat = s.crtPos.toNat - 80 :=
      UInt16.toNat_sub_of_le _ _ (UInt16.le_trans (by decide) past)
    rw [UInt16.le_iff_toNat_le, size] at past
    have followed : p.follow = { p with scrolled := p.scrolled + 1 } := by
      rw [Paper.follow, if_pos (by omega)]
    have top : p.follow.top = p.top + 80 := by
      rw [followed]
      exact Nat.mul_succ 80 p.scrolled
    refine ⟨_, ran, ?_, shown.adapter, shown.confined.trans confined, ?_, ?_, ?_, ?_, ?_⟩
    · rw [UInt16.lt_iff_toNat_lt, row, size]
      omega
    · intro i lt
      rw [cells i lt, top, followed]
      by_cases early : i < 1920
      next => rw [if_pos early, shown.cells _ (by omega), Nat.add_right_comm, Nat.add_assoc]
      next => rw [if_neg early, shown.below _ (by omega)]
    · rw [top, row, followed]
      dsimp only
      omega
    · rw [followed]
      exact shown.fg
    · rw [followed]
      exact shown.bg
    · intro i ge
      rw [Paper.bottom, top] at ge
      rw [followed]
      exact shown.below i (by omega)
  next =>
    have inside : s.crtPos < crtSize := UInt16.not_le.mp past
    have stays : ¬ p.bottom ≤ p.cursor := by
      rw [UInt16.lt_iff_toNat_lt, size] at inside
      omega
    refine ⟨s, by simp [Console.scroll, past], inside, ?_⟩
    rwa [Paper.follow, if_neg stays]

theorem follow_inside (p : Paper) (inside : p.cursor < p.bottom) : p.follow = p := by
  rw [Paper.follow, if_neg (by omega)]

theorem key_eq (c : UInt32) (s : Console) (key : UInt8) :
    (c ||| s.attr) &&& 0xff = key.toUInt32 ↔ c.toUInt8 = key := by
  rw [low_byte_eq, low_byte_attr]

def Strikes (origin : Console) (run : Outcome Fault Console) (after : Paper) : Prop :=
  ∃ s p, run = .done s ∧ s.crtPos.toNat < 2080 ∧ Shows origin s p ∧ p.follow = after

def PrintsSpaces (origin : Console) (consPutc : UInt32 → Console → Outcome Fault Console) : Prop :=
  ∀ s p, Shows origin s p → s.crtPos < crtSize →
    ∃ s', consPutc 32 s = .done s' ∧ s'.crtPos < crtSize ∧ Shows origin s' p.space

section putKey

variable (consPutc : UInt32 → Console → Outcome Fault Console) (c : UInt32)

theorem putKey_backspace (shown : Shows origin s p) (inside : s.crtPos < crtSize)
    (maps : origin.mem.Maps origin.crtBuf (origin.crtBuf + 4000)) (key : c.toUInt8 = 8) :
    Strikes origin (putKey consPutc (c ||| s.attr) s)
      (p.backspace (p.color ||| (c >>> 8).toUInt8)) := by
  have view : p.bottom = p.top + 2000 := rfl
  have is_key : (c ||| s.attr) &&& 0xff = 8 := (key_eq c s 8).2 key
  have cursor := shown.cursor
  have size : s.crtPos.toNat < 2000 := UInt16.lt_iff_toNat_lt.mp inside
  by_cases start : 0 < s.crtPos
  next =>
    have before : (s.crtPos - 1).toNat = s.crtPos.toNat - 1 :=
      UInt16.toNat_sub_of_le _ _ (UInt16.le_iff_toNat_le.mpr (UInt16.lt_iff_toNat_lt.mp start))
    have positive : 0 < s.crtPos.toNat := UInt16.lt_iff_toNat_lt.mp start
    have back : p.top + (s.crtPos - 1).toNat = p.cursor - 1 := by omega
    obtain ⟨s', stored, pos, inked⟩ := (shown.moveTo (s.crtPos - 1)).ink (s.crtPos - 1).toNat
      (by omega) (((c ||| s.attr) &&& ~~~0xff) ||| 32).toUInt16 maps
    have wiped : p.backspace (p.color ||| (c >>> 8).toUInt8) =
        (p.ink (p.cursor - 1) ⟨p.color ||| (c >>> 8).toUInt8, 32⟩).moveTo (p.cursor - 1) := by
      rw [Paper.backspace, if_neg (by omega)]
    rw [high_byte, high_byte_blanked, high_byte_attr c s p shown.fg shown.bg,
      UInt32.toUInt8_toUInt16, low_byte_blanked, Paper.moveTo_top, back] at inked
    refine ⟨s', _, ?_, by rw [pos]; dsimp only; omega, inked, ?_⟩
    · rw [putKey, if_pos is_key, if_pos start]
      exact stored
    · rw [wiped]
      exact follow_inside _ (show p.cursor - 1 < p.bottom by omega)
  next =>
    have zero : s.crtPos.toNat = 0 := by
      rw [UInt16.lt_iff_toNat_lt] at start
      exact Nat.eq_zero_of_not_pos start
    refine ⟨s, p, by simp [putKey, is_key, start], by omega, shown, ?_⟩
    rw [Paper.backspace, if_pos (by omega)]
    exact follow_inside p (by omega)

theorem putKey_newline (shown : Shows origin s p) (inside : s.crtPos < crtSize)
    (key : c.toUInt8 = 10) : Strikes origin (putKey consPutc (c ||| s.attr) s) p.newline := by
  have is_key : (c ||| s.attr) &&& 0xff = 10 := (key_eq c s 10).2 key
  have cursor := shown.cursor
  have top : p.top = 80 * p.scrolled := rfl
  have size : s.crtPos.toNat < 2000 := UInt16.lt_iff_toNat_lt.mp inside
  have down : (s.crtPos + crtCols).toNat = s.crtPos.toNat + 80 := by
    have cols : crtCols.toNat = 80 := rfl
    rw [UInt16.toNat_add, cols]
    omega
  have column : ((s.crtPos + crtCols) % crtCols).toNat = (s.crtPos.toNat + 80) % 80 := by
    rw [UInt16.toNat_mod, down]
    rfl
  have start : (s.crtPos + crtCols - (s.crtPos + crtCols) % crtCols).toNat =
      s.crtPos.toNat + 80 - (s.crtPos.toNat + 80) % 80 := by
    rw [UInt16.toNat_sub_of_le _ _ (by rw [UInt16.le_iff_toNat_le]; omega), down, column]
  have moved := shown.moveTo (s.crtPos + crtCols - (s.crtPos + crtCols) % crtCols)
  have row : p.top + (s.crtPos + crtCols - (s.crtPos + crtCols) % crtCols).toNat =
      80 * (p.cursor / 80 + 1) := by omega
  rw [row] at moved
  exact ⟨_, _, by simp [putKey, is_key], by dsimp only; omega, moved, rfl⟩

theorem putKey_carriageReturn (shown : Shows origin s p) (inside : s.crtPos < crtSize)
    (key : c.toUInt8 = 13) :
    Strikes origin (putKey consPutc (c ||| s.attr) s) p.carriageReturn := by
  have is_key : (c ||| s.attr) &&& 0xff = 13 := (key_eq c s 13).2 key
  have cursor := shown.cursor
  have top : p.top = 80 * p.scrolled := rfl
  have view : p.bottom = p.top + 2000 := rfl
  have size : s.crtPos.toNat < 2000 := UInt16.lt_iff_toNat_lt.mp inside
  have column : (s.crtPos % crtCols).toNat = s.crtPos.toNat % 80 := UInt16.toNat_mod _ _
  have start : (s.crtPos - s.crtPos % crtCols).toNat = s.crtPos.toNat - s.crtPos.toNat % 80 := by
    rw [UInt16.toNat_sub_of_le _ _ (by rw [UInt16.le_iff_toNat_le]; omega), column]
  have moved := shown.moveTo (s.crtPos - s.crtPos % crtCols)
  have row : p.top + (s.crtPos - s.crtPos % crtCols).toNat = 80 * (p.cursor / 80) := by omega
  rw [row] at moved
  refine ⟨_, _, by simp [putKey, is_key], by dsimp only; omega, moved, ?_⟩
  exact follow_inside _ (show 80 * (p.cursor / 80) < p.bottom by omega)

theorem putKey_print (shown : Shows origin s p) (inside : s.crtPos < crtSize)
    (maps : origin.mem.Maps origin.crtBuf (origin.crtBuf + 4000)) (not_backspace : c.toUInt8 ≠ 8)
    (not_newline : c.toUInt8 ≠ 10) (not_return : c.toUInt8 ≠ 13) (not_tab : c.toUInt8 ≠ 9) :
    Strikes origin (putKey consPutc (c ||| s.attr) s)
      (p.print ⟨p.color ||| (c >>> 8).toUInt8, c.toUInt8⟩) := by
  have cursor := shown.cursor
  have size : s.crtPos.toNat < 2000 := UInt16.lt_iff_toNat_lt.mp inside
  have other (key : UInt8) (ne : c.toUInt8 ≠ key) : (c ||| s.attr) &&& 0xff ≠ key.toUInt32 :=
    fun same => ne ((key_eq c s key).1 same)
  have next : (s.crtPos + 1).toNat = s.crtPos.toNat + 1 := by
    have one : (1 : UInt16).toNat = 1 := rfl
    rw [UInt16.toNat_add, one]
    omega
  obtain ⟨s', stored, pos, inked⟩ := shown.ink s.crtPos.toNat size (c ||| s.attr).toUInt16 maps
  rw [high_byte, high_byte_attr c s p shown.fg shown.bg, UInt32.toUInt8_toUInt16, low_byte_attr,
    ← cursor] at inked
  have moved := inked.moveTo (s'.crtPos + 1)
  have step : p.top + (s'.crtPos + 1).toNat = p.cursor + 1 := by
    rw [pos]
    omega
  rw [Paper.ink_top, step] at moved
  refine ⟨_, _, ?_, by rw [pos]; dsimp only; omega, moved, rfl⟩
  have no8 := other 8 not_backspace
  have no10 := other 10 not_newline
  have no13 := other 13 not_return
  have no9 := other 9 not_tab
  simp_all [putKey]

theorem putKey_tab (shown : Shows origin s p) (inside : s.crtPos < crtSize)
    (spaces : PrintsSpaces origin consPutc) (key : c.toUInt8 = 9) :
    Strikes origin (putKey consPutc (c ||| s.attr) s) p.tab := by
  have is_key : (c ||| s.attr) &&& 0xff = 9 := (key_eq c s 9).2 key
  obtain ⟨s₁, ran₁, inside₁, shown₁⟩ := spaces s p shown inside
  obtain ⟨s₂, ran₂, inside₂, shown₂⟩ := spaces s₁ _ shown₁ inside₁
  obtain ⟨s₃, ran₃, inside₃, shown₃⟩ := spaces s₂ _ shown₂ inside₂
  obtain ⟨s₄, ran₄, inside₄, shown₄⟩ := spaces s₃ _ shown₃ inside₃
  obtain ⟨s₅, ran₅, inside₅, shown₅⟩ := spaces s₄ _ shown₄ inside₄
  have size : s₅.crtPos.toNat < 2000 := UInt16.lt_iff_toNat_lt.mp inside₅
  have view : p.tab.bottom = p.tab.top + 2000 := rfl
  have cursor : p.tab.cursor = p.tab.top + s₅.crtPos.toNat := shown₅.cursor
  refine ⟨s₅, _, ?_, by omega, shown₅, follow_inside _ (show p.tab.cursor < p.tab.bottom by omega)⟩
  simp [putKey, is_key, ran₁, ran₂, ran₃, ran₄, ran₅]

theorem putKey_strikes (shown : Shows origin s p) (inside : s.crtPos < crtSize)
    (maps : origin.mem.Maps origin.crtBuf (origin.crtBuf + 4000))
    (spaces : c.toUInt8 = 9 → PrintsSpaces origin consPutc) :
    Strikes origin (putKey consPutc (c ||| s.attr) s)
      (p.strike (p.color ||| (c >>> 8).toUInt8) c.toUInt8) := by
  by_cases backspace : c.toUInt8 = 8
  next => simpa [Paper.strike, backspace] using putKey_backspace consPutc c shown inside maps backspace
  by_cases newline : c.toUInt8 = 10
  next => simpa [Paper.strike, newline] using putKey_newline consPutc c shown inside newline
  by_cases carriage : c.toUInt8 = 13
  next => simpa [Paper.strike, carriage] using putKey_carriageReturn consPutc c shown inside carriage
  by_cases tab : c.toUInt8 = 9
  next => simpa [Paper.strike, tab] using putKey_tab consPutc c shown inside (spaces tab) tab
  next =>
    simpa [Paper.strike, backspace, newline, carriage, tab] using
      putKey_print consPutc c shown inside maps backspace newline carriage tab

end putKey

def ShowsCursor (s : Console) : Prop := ∀ power, (s.crtc power).cursor = s.crtPos.toNat

theorem moveCursor_correct (s : Console) : s.moveCursor.ShowsCursor := by
  intro power
  have position := s.crtPos.toNat_lt
  have high : (s.crtPos >>> 8).toUInt8.toNat = s.crtPos.toNat / 256 % 256 := by
    simp [Nat.shiftRight_eq_div_pow]
  have low : s.crtPos.toUInt8.toNat = s.crtPos.toNat % 256 := UInt16.toNat_toUInt8 _
  simp [moveCursor, outb, crtc, Crtc.out, Crtc.cursor, high, low]
  omega

theorem cgaPutc_strikes (consPutc : UInt32 → Console → Outcome Fault Console) (c : UInt32)
    (shown : Shows origin s p) (inside : s.crtPos < crtSize)
    (maps : origin.mem.Maps origin.crtBuf (origin.crtBuf + 4000))
    (spaces : c.toUInt8 = 9 → PrintsSpaces origin consPutc) :
    ∃ s', cgaPutc consPutc c s = .done s' ∧ s'.crtPos < crtSize ∧ s'.ShowsCursor ∧
      Shows origin s' (p.strike (p.color ||| (c >>> 8).toUInt8) c.toUInt8) := by
  obtain ⟨s₁, p₁, struck, near, shown₁, followed⟩ := putKey_strikes consPutc c shown inside maps spaces
  obtain ⟨s₂, scrolled, inside₂, shown₂⟩ := shown₁.scroll near maps
  rw [followed] at shown₂
  refine ⟨s₂.moveCursor, by simp [cgaPutc, struck, scrolled], inside₂, moveCursor_correct s₂, ?_⟩
  exact (((shown₂.outb ..).outb ..).outb ..).outb ..

theorem consPutc_strikes (depth : Nat) (c : UInt32) (shown : Shows origin s p)
    (inside : s.crtPos < crtSize)
    (maps : origin.mem.Maps origin.crtBuf (origin.crtBuf + 4000))
    (spaces : c.toUInt8 = 9 → PrintsSpaces origin (consPutc depth)) :
    ∃ s', consPutc (depth + 1) c s = .done s' ∧ s'.crtPos < crtSize ∧ s'.ShowsCursor ∧
      Shows origin s' (p.strike (p.color ||| (c >>> 8).toUInt8) c.toUInt8) := by
  have sent : Shows origin (lptPutc c (serialPutc c s)) p :=
    (((shown.outb ..).outb ..).outb ..).outb ..
  exact cgaPutc_strikes (consPutc depth) c sent inside maps spaces

theorem consPutc_space (depth : Nat)
    (maps : origin.mem.Maps origin.crtBuf (origin.crtBuf + 4000)) :
    PrintsSpaces origin (consPutc (depth + 1)) := by
  intro s p shown inside
  have not_tab : ¬ (32 : UInt32).toUInt8 = 9 := by decide
  obtain ⟨s', ran, inside', -, shown'⟩ := consPutc_strikes depth 32 shown inside maps
    fun tab => absurd tab not_tab
  have plain : p.color ||| ((32 : UInt32) >>> 8).toUInt8 = p.color := UInt8.or_zero
  rw [plain] at shown'
  exact ⟨s', ran, inside', shown'⟩

theorem cputchar_strikes (c : Int) (shown : Shows origin s p) (inside : s.crtPos < crtSize)
    (maps : origin.mem.Maps origin.crtBuf (origin.crtBuf + 4000)) :
    ∃ s', cputchar c s = .done s' ∧ s'.crtPos < crtSize ∧ s'.ShowsCursor ∧
      Shows origin s' (p.strike (p.color ||| (UInt32.ofInt c >>> 8).toUInt8)
        (UInt32.ofInt c).toUInt8) :=
  consPutc_strikes 1 _ shown inside maps fun _ => consPutc_space 0 maps

theorem ofInt_byte (byte : UInt8) : UInt32.ofInt byte.toNat = byte.toUInt32 := by
  have lt := byte.toNat_lt
  apply UInt32.toNat_inj.1
  simp [UInt32.ofInt]
  omega

theorem byte_high (byte : UInt8) : (byte.toUInt32 >>> 8).toUInt8 = 0 := by
  apply UInt8.toBitVec_inj.1
  ext i lt
  simp

theorem cputchar_byte (byte : UInt8) (shown : Shows origin s p) (inside : s.crtPos < crtSize)
    (maps : origin.mem.Maps origin.crtBuf (origin.crtBuf + 4000)) :
    ∃ s', cputchar byte.toNat s = .done s' ∧ s'.crtPos < crtSize ∧ s'.ShowsCursor ∧
      Shows origin s' (p.put byte) := by
  obtain ⟨s', ran, inside', cursor, shown'⟩ := cputchar_strikes byte.toNat shown inside maps
  rw [ofInt_byte, byte_high, UInt8.toUInt8_toUInt32, UInt8.or_zero] at shown'
  exact ⟨s', ran, inside', cursor, shown'⟩

def call (s : Console) : ScreenCall → Outcome Fault Console
  | .cputchar byte => s.cputchar byte.toNat
  | .setFg fg => return s.cgaSetFg fg
  | .setBg bg => return s.cgaSetBg bg
  | .reset => return s.cgaReset

def paper (s : Console) : Paper where
  cell i := if i < 2000 then textCell s.mem s.crtBuf i else .blank
  cursor := s.crtPos.toNat
  scrolled := 0
  fg := s.cgaFg
  bg := s.cgaBg

theorem paper_shown (s : Console) : Shows s s s.paper := by
  refine ⟨rfl, .refl _ _, ?_, (Nat.zero_add _).symm, rfl, rfl, ?_⟩
  · intro i lt
    have first : s.paper.top + i = i := Nat.zero_add i
    rw [first]
    simp [paper, lt]
  · intro i ge
    have past : ¬ i < 2000 := by
      have view : s.paper.bottom = 2000 := rfl
      omega
    simp [paper, past]

theorem call_correct (call : ScreenCall) (shown : Shows origin s p) (inside : s.crtPos < crtSize)
    (maps : origin.mem.Maps origin.crtBuf (origin.crtBuf + 4000)) :
    ∃ s', s.call call = .done s' ∧ s'.crtPos < crtSize ∧ Shows origin s' (p.call call) ∧
      ((s.ShowsCursor ∨ ∃ byte, call = .cputchar byte) → s'.ShowsCursor) := by
  cases call with
  | cputchar byte =>
    obtain ⟨s', ran, inside', cursor, shown'⟩ := cputchar_byte byte shown inside maps
    exact ⟨s', ran, inside', shown', fun _ => cursor⟩
  | setFg fg =>
    exact ⟨_, rfl, inside, ⟨shown.adapter, shown.confined, shown.cells, shown.cursor, rfl,
      shown.bg, shown.below⟩, by simp [ShowsCursor, crtc, cgaSetFg]⟩
  | setBg bg =>
    exact ⟨_, rfl, inside, ⟨shown.adapter, shown.confined, shown.cells, shown.cursor, shown.fg,
      rfl, shown.below⟩, by simp [ShowsCursor, crtc, cgaSetBg]⟩
  | reset =>
    exact ⟨_, rfl, inside, ⟨shown.adapter, shown.confined, shown.cells, shown.cursor, rfl,
      rfl, shown.below⟩, by simp [ShowsCursor, crtc, cgaReset]⟩

theorem calls_correct (calls : List ScreenCall) (s : Console) (p : Paper)
    (shown : Shows origin s p) (inside : s.crtPos < crtSize)
    (maps : origin.mem.Maps origin.crtBuf (origin.crtBuf + 4000)) :
    ∃ s', calls.foldlM Console.call s = .done s' ∧ s'.crtPos < crtSize ∧
      Shows origin s' (calls.foldl Paper.call p) ∧
      ((s.ShowsCursor ∨ ∃ byte, .cputchar byte ∈ calls) → s'.ShowsCursor) := by
  induction calls generalizing s p with
  | nil => exact ⟨s, rfl, inside, shown, by simp⟩
  | cons call rest ih =>
    obtain ⟨next, ran, next_inside, next_shown, next_cursor⟩ := call_correct call shown inside maps
    obtain ⟨last, rest_ran, last_inside, last_shown, last_cursor⟩ :=
      ih next (p.call call) next_shown next_inside
    refine ⟨last, by simp [List.foldlM_cons, ran, rest_ran], last_inside, last_shown, ?_⟩
    intro some
    apply last_cursor
    rcases some with before | ⟨byte, member⟩
    · exact .inl (next_cursor (.inl before))
    · rcases List.mem_cons.mp member with first | later
      · exact .inl (next_cursor (.inr ⟨byte, first.symm⟩))
      · exact .inr ⟨byte, later⟩

theorem screen_refines_paper (s : Console) (inside : s.crtPos < crtSize)
    (maps : s.mem.Maps s.crtBuf (s.crtBuf + 4000)) (calls : List ScreenCall) :
    let p := calls.foldl Paper.call s.paper
    ∃ s', calls.foldlM call s = .done s' ∧
      (∀ i < 2000, textCell s'.mem s'.crtBuf i = p.cell (80 * p.scrolled + i)) ∧
      (s'.crtPos.toNat : Int) = p.cursor - 80 * p.scrolled ∧ s'.crtPos < crtSize ∧
      (∀ i, 80 * (p.scrolled + 25) ≤ i → p.cell i = .blank) ∧
      Confined s.crtBuf s.mem s'.mem ∧
      ((∃ byte, .cputchar byte ∈ calls) → s'.ShowsCursor) := by
  intro p
  obtain ⟨s', ran, inside', shown, cursor⟩ := calls_correct calls s s.paper (paper_shown s) inside maps
  refine ⟨s', ran, ?_, ?_, inside', ?_, shown.confined, fun some => cursor (.inr some)⟩
  · rw [shown.crtBuf]
    exact shown.cells
  · have position := shown.cursor
    have top : p.top = 80 * p.scrolled := rfl
    change p.cursor = p.top + s'.crtPos.toNat at position
    omega
  · intro i ge
    apply shown.below
    have view : p.bottom = 80 * p.scrolled + 2000 := rfl
    change p.bottom ≤ i
    omega

def lastCell : Console where
  adapter := .cga
  crtPos := 1999
  cgaBg := 0
  cgaFg := 0
  mem := { mapped := fun a => 0xF00B8000 ≤ a && a < 0xF00B8000 + 4000, value := fun _ => 0 }
  ports := []

theorem lastCell_maps : lastCell.mem.Maps lastCell.crtBuf (lastCell.crtBuf + 4000) := by
  intro a ge lt
  have base : lastCell.crtBuf = 0xF00B8000 := rfl
  simp [lastCell]
  omega

theorem lastCell_refines :
    ∃ s', [ScreenCall.cputchar 65].foldlM call lastCell = .done s' ∧
      (s'.crtPos.toNat : Int) = 2000 - 80 * 1 ∧ s'.ShowsCursor := by
  obtain ⟨s', ran, -, position, -, -, -, cursor⟩ :=
    screen_refines_paper lastCell (by decide) lastCell_maps [.cputchar 65]
  exact ⟨s', ran, position, cursor ⟨65, by simp⟩⟩

end JosLab.Console
