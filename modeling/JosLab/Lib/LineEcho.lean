import JosLab.Lib.LineKeeping

set_option autoImplicit false

namespace JosLab.Readline

open Console

structure Line (first p : Paper) (line : List UInt8) : Prop where
  cursor : p.cursor = first.cursor + line.length
  top : p.top ≤ first.cursor
  view : p.cursor < p.bottom
  held : ∀ k < line.length, (p.cell (first.cursor + k)).byte = line.getD k 0
  before : ∀ j < first.cursor, p.cell j = first.cell j

variable {first p : Paper} {line : List UInt8}

theorem Line.print (lined : Line first p line) (room : line.length < buflen - 1) (color byte : UInt8) :
    Line first (p.print ⟨color, byte⟩) (line ++ [byte]) := by
  have cursor := lined.cursor
  have top := lined.top
  have view := lined.view
  have longer : (line ++ [byte]).length = line.length + 1 := by simp
  have below : p.bottom = p.top + 2000 := rfl
  have few : buflen - 1 = 1023 := rfl
  have scrolled : (p.print ⟨color, byte⟩).top =
      if p.bottom ≤ p.cursor + 1 then p.top + 80 else p.top := Paper.follow_top _
  have moved : (p.print ⟨color, byte⟩).cursor = p.cursor + 1 := Paper.follow_cursor _
  have inked : (p.print ⟨color, byte⟩).cell = Function.update p.cell p.cursor ⟨color, byte⟩ :=
    Paper.follow_cell _
  exact {
    cursor := by omega
    top := by
      -- The view moves on by a row, and the line is shorter than what is left of it.
      rw [scrolled]
      split <;> omega
    view := by
      have bottom : (p.print ⟨color, byte⟩).bottom = (p.print ⟨color, byte⟩).top + 2000 := rfl
      rw [bottom, scrolled, moved]
      split <;> omega
    held := by
      intro k lt
      rw [inked]
      by_cases last : k = line.length
      next => simp [last, cursor]
      next =>
        rw [Function.update_of_ne (by omega), lined.held k (by omega),
          List.getD_append _ _ _ _ (by omega)]
    before := by
      intro j lt
      rw [inked, Function.update_of_ne (by omega), lined.before j lt] }

theorem Line.backspace (lined : Line first p line) (some : 0 < line.length) (color : UInt8) :
    Line first (p.backspace color) line.dropLast := by
  have cursor := lined.cursor
  have top := lined.top
  have view := lined.view
  have shorter : line.dropLast.length = line.length - 1 := List.length_dropLast
  have not_top : ¬ p.cursor = p.top := by omega
  have erased : p.backspace color = (p.ink (p.cursor - 1) ⟨color, 32⟩).moveTo (p.cursor - 1) :=
    if_neg not_top
  rw [erased]
  exact {
    cursor := by
      change p.cursor - 1 = _
      omega
    top := top
    view := by
      change p.cursor - 1 < p.bottom
      omega
    held := by
      intro k lt
      rw [shorter] at lt
      change (Function.update p.cell (p.cursor - 1) ⟨color, 32⟩ (first.cursor + k)).byte = _
      rw [Function.update_of_ne (by omega), lined.held k (by omega), getD_dropLast _ _ lt]
    before := by
      intro j lt
      change Function.update p.cell (p.cursor - 1) ⟨color, 32⟩ j = _
      rw [Function.update_of_ne (by omega), lined.before j lt] }

theorem put_print {c : Int} (p : Paper) (prints : 32 ≤ c) (le : c ≤ 255) :
    p.put (UInt8.ofInt c) = p.print ⟨p.color, UInt8.ofInt c⟩ := by
  have value := ofInt_toNat (by omega) le
  have other (key : UInt8) (control : key.toNat < 32) : UInt8.ofInt c ≠ key := by
    intro same
    rw [same] at value
    omega
  simp [Paper.put, Paper.strike, other 8 (by decide), other 10 (by decide), other 13 (by decide),
    other 9 (by decide)]

theorem strike_line {c : Int} {t : Paper × List UInt8} (editing : Editing c)
    (lined : Line first t.1 t.2) : Line first (strike t c).1 (strike t c).2 := by
  by_cases erases : (c = 8 ∨ c = 0x7f) ∧ 0 < t.2.length
  next =>
    rw [strike_erases erases]
    exact lined.backspace erases.2 _
  by_cases prints : 32 ≤ c ∧ t.2.length < buflen - 1
  next =>
    rw [strike_prints erases prints, put_print t.1 prints.1 editing.2.1]
    exact lined.print prints.2 _ _
  next =>
    rw [strike_ignores erases prints]
    exact lined

theorem echo_simulates (origin : Console) (first : Paper)
    (maps : origin.mem.Maps origin.crtBuf (origin.crtBuf + 4000)) :
    InputLoop.Simulates readlineKey Editing strike
      fun s t => Holds origin s t ∧ Line first t.1 t.2 := by
  intro c s t editing related
  obtain ⟨holds, lined⟩ := related
  obtain ⟨s', ran, holds'⟩ := readlineKey_simulates origin maps c s t editing holds
  exact ⟨s', ran, holds', strike_line editing lined⟩

structure Echoes (start : Console) (s : Editor) : Prop where
  room : s.i ≤ buflen - 1
  inside : s.console.crtPos < crtSize
  before_cursor : s.i ≤ s.console.crtPos.toNat
  line : ∀ k < s.i, (textCell s.console.mem s.console.crtBuf
    (s.console.crtPos.toNat - s.i + k)).byte = s.buf.value k
  earlier : ∃ rows, s.console.crtPos.toNat + 80 * rows = start.crtPos.toNat + s.i ∧
    ∀ j, 80 * rows + j < start.crtPos.toNat →
      textCell s.console.mem s.console.crtBuf j = textCell start.mem start.crtBuf (80 * rows + j)

theorem holds_echoes {origin : Console} {s : Editor} {t : Paper × List UInt8}
    (holds : Holds origin s t) (lined : Line origin.paper t.1 t.2)
    (start : origin.crtPos < crtSize) : Echoes origin s := by
  have index := holds.index
  have room := holds.room
  have position := holds.shown.cursor
  have cursor := lined.cursor
  have top := lined.top
  have first : origin.paper.cursor = origin.crtPos.toNat := rfl
  have size : origin.crtPos.toNat < 2000 := start
  have view : s.console.crtPos.toNat < 2000 := holds.inside
  have rows : t.1.top = 80 * t.1.scrolled := rfl
  have cells := holds.shown.cells
  rw [← holds.shown.crtBuf] at cells
  exact {
    room := by omega
    inside := holds.inside
    before_cursor := by omega
    line := by
      intro k lt
      have place : t.1.top + (s.console.crtPos.toNat - s.i + k) = origin.paper.cursor + k := by omega
      rw [cells _ (by omega), place, lined.held k (by omega), holds.held k (by omega)]
    earlier := by
      refine ⟨t.1.scrolled, by omega, ?_⟩
      intro j lt
      have old : origin.paper.cell (80 * t.1.scrolled + j) =
          textCell origin.mem origin.crtBuf (80 * t.1.scrolled + j) := if_pos (by omega)
      rw [cells j (by omega), rows, lined.before _ (by omega), old] }

theorem split_editing (keys : List Int) (bytes : ∀ c ∈ keys, 1 ≤ c ∧ c ≤ 255) :
    (∀ c ∈ keys, Editing c) ∨ ∃ typed stop rest, keys = typed ++ stop :: rest ∧
      (∀ c ∈ typed, Editing c) ∧ (stop = 10 ∨ stop = 13) := by
  induction keys with
  | nil => exact .inl (by simp)
  | cons c rest ih =>
    have byte := bytes c (by simp)
    by_cases newline : c = 10 ∨ c = 13
    next => exact .inr ⟨[], c, rest, rfl, by simp, newline⟩
    have editing : Editing c := ⟨byte.1, byte.2, by omega, by omega⟩
    cases ih fun later member => bytes later (by simp [member]) with
    | inl all =>
      left
      simpa [editing] using all
    | inr found =>
      obtain ⟨typed, stop, later, split, typed_editing, stop_newline⟩ := found
      right
      exact ⟨c :: typed, stop, later, by simp [split], by simpa [editing] using typed_editing,
        stop_newline⟩

theorem readline_echoes (s : Console) (inside : s.crtPos < crtSize)
    (maps : s.mem.Maps s.crtBuf (s.crtBuf + 4000)) (buf : Buf)
    (mapped : ∀ i < buflen, buf.mapped i = true) (keys : List Int)
    (bytes : ∀ c ∈ keys, 1 ≤ c ∧ c ≤ 255) :
    ∃ pass, InputLoop.feed readlineKey keys ⟨0, buf, s⟩ = .done pass ∧
      ∀ s', pass = .again s' → Echoes s s' := by
  have start : Holds s ⟨0, buf, s⟩ (s.paper, []) := {
    index := rfl
    room := Nat.zero_lt_succ _
    mapped := mapped
    held := by simp
    clean := by simp
    inside := inside
    shown := paper_shown s }
  have lined : Line s.paper s.paper [] := {
    cursor := rfl
    top := Nat.zero_le _
    view := inside
    held := by simp
    before := fun _ _ => rfl }
  have simulates := echo_simulates s s.paper maps
  cases split_editing keys bytes with
  | inl editing =>
    obtain ⟨last, fed, holds, last_lined⟩ := simulates.feed keys _ _ editing ⟨start, lined⟩
    refine ⟨_, fed, ?_⟩
    intro s' again
    cases again
    exact holds_echoes holds last_lined inside
  | inr found =>
    obtain ⟨typed, stop, rest, rfl, editing, newline⟩ := found
    obtain ⟨last, fed, holds, -⟩ := simulates.feed typed _ _ editing ⟨start, lined⟩
    obtain ⟨buf', console, stopped, -⟩ := readlineKey_stops maps holds newline
    refine ⟨_, InputLoop.feed_stop fed stopped, ?_⟩
    intro s' again
    cases again

theorem lastCell_echoes :
    ∃ pass, InputLoop.feed readlineKey [97, 98, 0x7f] ⟨0, blankBuf, lastCell⟩ = .done pass ∧
      ∀ s', pass = .again s' → Echoes lastCell s' :=
  readline_echoes lastCell (by decide) lastCell_maps blankBuf (by simp [blankBuf]) [97, 98, 0x7f]
    (by decide)

end JosLab.Readline
