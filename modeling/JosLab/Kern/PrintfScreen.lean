import JosLab.Kern.DeviceStreams
import JosLab.Kern.PrintfCount
import JosLab.Lib.StringField

set_option autoImplicit false

namespace JosLab

open Printfmt

-- %s passes a plain `char`: from 0x80 on its sign fills the bits that hold the color.
theorem charInt_low (byte : UInt8) : (UInt32.ofInt (charInt byte)).toUInt8 = byte := by
  revert byte
  decide +kernel

theorem charInt_high (byte : UInt8) :
    (UInt32.ofInt (charInt byte) >>> 8).toUInt8 = if 0x80 ≤ byte then 0xFF else 0 := by
  revert byte
  decide +kernel

namespace Paper

def mark (p : Paper) (byte : UInt8) : Paper := p.strike (if 0x80 ≤ byte then 1 else 0) byte

def Tinted (color : UInt8) (direct string mark : Cell) : Prop :=
  if mark.color = 1 then direct.color = color ∧ string = ⟨0xFF, direct.byte⟩ else string = direct

structure Marked (color : UInt8) (direct string marks : Paper) : Prop where
  current : direct.color = color
  fg : string.fg = direct.fg
  bg : string.bg = direct.bg
  plain : marks.fg = 0 ∧ marks.bg = 0
  cursor : string.cursor = direct.cursor ∧ marks.cursor = direct.cursor
  scrolled : string.scrolled = direct.scrolled ∧ marks.scrolled = direct.scrolled
  cells : ∀ i, Tinted color (direct.cell i) (string.cell i) (marks.cell i)

variable {color : UInt8} {direct string marks : Paper}

theorem Marked.ink (marked : Marked color direct string marks) (index : Nat) (d s m : Cell)
    (tinted : Tinted color d s m) :
    Marked color (direct.ink index d) (string.ink index s) (marks.ink index m) := by
  refine { marked with cells := fun i => ?_ }
  by_cases here : i = index
  next => simpa [Paper.ink, here] using tinted
  next => simpa [Paper.ink, here] using marked.cells i

theorem Marked.moveTo (marked : Marked color direct string marks) (cursor : Nat) :
    Marked color (direct.moveTo cursor) (string.moveTo cursor) (marks.moveTo cursor) :=
  { marked with cursor := ⟨rfl, rfl⟩ }

theorem Marked.follow (marked : Marked color direct string marks) :
    Marked color direct.follow string.follow marks.follow := by
  obtain ⟨cursor_s, cursor_m⟩ := marked.cursor
  obtain ⟨scrolled_s, scrolled_m⟩ := marked.scrolled
  have bottom_s : string.bottom = direct.bottom := by simp [bottom, top, scrolled_s]
  have bottom_m : marks.bottom = direct.bottom := by simp [bottom, top, scrolled_m]
  unfold Paper.follow
  rw [bottom_s, bottom_m, cursor_s, cursor_m]
  split
  next => exact { marked with cursor := ⟨rfl, rfl⟩, scrolled := by simp [scrolled_s, scrolled_m] }
  next => exact marked

theorem Marked.print (marked : Marked color direct string marks) (d s m : Cell)
    (tinted : Tinted color d s m) :
    Marked color (direct.print d) (string.print s) (marks.print m) := by
  obtain ⟨cursor_s, cursor_m⟩ := marked.cursor
  unfold Paper.print
  rw [cursor_s, cursor_m]
  exact ((marked.ink _ d s m tinted).moveTo _).follow

theorem Marked.string_color (marked : Marked color direct string marks) : string.color = color := by
  rw [← marked.current]
  simp [Paper.color, marked.fg, marked.bg]

theorem Marked.space (marked : Marked color direct string marks) :
    Marked color direct.space string.space marks.space := by
  refine marked.print _ _ _ ?_
  have plain : marks.color = 7 := by simp [Paper.color, marked.plain]
  simp [Tinted, plain, marked.current, marked.string_color]

theorem Marked.tab (marked : Marked color direct string marks) :
    Marked color direct.tab string.tab marks.tab := by
  unfold Paper.tab
  exact marked.space.space.space.space.space

theorem Marked.backspace (marked : Marked color direct string marks) (d s m : UInt8)
    (tinted : Tinted color ⟨d, 32⟩ ⟨s, 32⟩ ⟨m, 32⟩) :
    Marked color (direct.backspace d) (string.backspace s) (marks.backspace m) := by
  obtain ⟨cursor_s, cursor_m⟩ := marked.cursor
  have top_s : string.top = direct.top := by simp [top, marked.scrolled.1]
  have top_m : marks.top = direct.top := by simp [top, marked.scrolled.2]
  unfold Paper.backspace
  rw [cursor_s, cursor_m, top_s, top_m]
  split
  next => exact marked
  next => exact (marked.ink _ _ _ _ tinted).moveTo _

theorem Marked.put (marked : Marked color direct string marks) (byte : UInt8) :
    Marked color (direct.put byte) (string.putInt (charInt byte)) (marks.mark byte) := by
  obtain ⟨cursor_s, cursor_m⟩ := marked.cursor
  unfold Paper.put Paper.putInt Paper.mark
  rw [charInt_low, charInt_high, marked.current, marked.string_color]
  by_cases backspace : byte = 8
  next =>
    subst backspace
    exact marked.backspace _ _ _ (by simp [Tinted])
  by_cases newline : byte = 10
  next =>
    subst newline
    simpa [strike, Paper.newline, cursor_s, cursor_m] using (marked.moveTo _).follow
  by_cases carriage : byte = 13
  next =>
    subst carriage
    simpa [strike, carriageReturn, cursor_s, cursor_m] using marked.moveTo _
  by_cases tab : byte = 9
  next =>
    subst tab
    simpa [strike] using marked.tab
  next =>
    simp only [strike, backspace, newline, carriage, tab, if_false]
    have full : color ||| 0xFF = 0xFF := by
      have white : ∀ b : BitVec 8, b ||| 0xFF#8 = 0xFF#8 := by decide
      exact UInt8.toBitVec_inj.1 (white color.toBitVec)
    refine marked.print _ _ _ ?_
    by_cases high : 0x80 ≤ byte <;> simp [Tinted, high, full]

theorem Marked.puts (marked : Marked color direct string marks) (bytes : List UInt8) :
    Marked color (bytes.foldl Paper.put direct) ((bytes.map charInt).foldl putInt string)
      (bytes.foldl mark marks) := by
  induction bytes generalizing direct string marks with
  | nil => exact marked
  | cons byte rest ih => exact ih (marked.put byte)

theorem Marked.agree (marked : Marked color direct string marks) (i : Nat) :
    string.cell i = direct.cell i ↔ color = 0xFF ∨ (marks.cell i).color ≠ 1 := by
  have tinted := marked.cells i
  unfold Tinted at tinted
  by_cases high : (marks.cell i).color = 1
  next =>
    rw [if_pos high] at tinted
    obtain ⟨shade, tinted⟩ := tinted
    rw [tinted]
    simp only [high, ne_eq, not_true, or_false]
    constructor
    · intro same
      rw [← shade, ← same]
    · rintro rfl
      rw [← shade]
  next =>
    rw [if_neg high] at tinted
    simp [tinted, high]

end Paper

namespace Console

structure SameOutput (s₁ s₂ : Console) : Prop where
  cells : ∀ i < 2000, textCell s₁.mem s₁.crtBuf i = textCell s₂.mem s₂.crtBuf i
  cursor : s₁.crtPos = s₂.crtPos
  sent : s₁.sent = s₂.sent

def marks (s : Console) (bytes : List UInt8) : Paper :=
  bytes.foldl Paper.mark
    { cell := fun _ => .blank, cursor := s.crtPos.toNat, scrolled := 0, fg := 0, bg := 0 }

def HighInView (s : Console) (bytes : List UInt8) : Prop :=
  ∃ i < 2000, ((s.marks bytes).cell ((s.marks bytes).top + i)).color = 1

theorem marks_correct (s : Console) (bytes : List UInt8) :
    Paper.Marked s.paper.color (bytes.foldl Paper.put s.paper)
      ((bytes.map charInt).foldl Paper.putInt s.paper) (s.marks bytes) := by
  have start : Paper.Marked s.paper.color s.paper s.paper
      { cell := fun _ => .blank, cursor := s.crtPos.toNat, scrolled := 0, fg := 0, bg := 0 } :=
    ⟨rfl, rfl, rfl, ⟨rfl, rfl⟩, ⟨rfl, rfl⟩, ⟨rfl, rfl⟩, fun i => by simp [Paper.Tinted, Cell.blank]⟩
  exact start.puts bytes

theorem foldl_putInt (bytes : List UInt8) (p : Paper) :
    (bytes.map fun ch => (ch.toNat : Int)).foldl Paper.putInt p = bytes.foldl Paper.put p := by
  induction bytes generalizing p with
  | nil => rfl
  | cons byte rest ih =>
    have first : p.putInt byte.toNat = p.put byte := by
      simp [Paper.putInt, Paper.put, ofInt_byte, byte_high]
    simpa [first] using ih (p.put byte)

variable (f : CString) (s : Console) (inside : s.crtPos < crtSize)
  (maps : s.mem.Maps s.crtBuf (s.crtBuf + 4000))

include inside maps in
theorem cprintf_text (plain : 37 ∉ f.bytes) :
    ∃ s', cprintf f [] s = .done (0, s') ∧ Shows s s' (f.bytes.foldl Paper.put s.paper) ∧
      s'.sent = s.sent ++ (f.bytes.flatMap spread).flatMap send := by
  obtain ⟨s', ran, -, shown⟩ := emit_cputchar (f.bytes.map fun ch => (ch.toNat : Int))
    (paper_shown s) inside maps
  have sent := cputchars_sent _ ran
  rw [foldl_putInt] at shown
  rw [List.flatMap_map] at sent
  refine ⟨s', ?_, shown, ?_⟩
  · simp [cprintf, vcprintf_emit (printed_text f plain []), ran]
  · simpa [ofInt_byte] using sent

def wrapped : Nat := (int32 (-1 - f.bytes.length)).toNat

include inside maps in
theorem cprintf_string :
    ∃ s', cprintf stringFormat [.str (some (f.bytes ++ [0]))] s = .done (0, s') ∧
      Shows s s' ((f.bytes.map charInt ++ List.replicate (wrapped f) 32).foldl Paper.putInt s.paper) ∧
      s'.sent = s.sent ++ (f.bytes.flatMap spread ++ List.replicate (wrapped f) 32).flatMap send := by
  obtain ⟨s', ran, -, shown⟩ := emit_cputchar
    (f.bytes.map charInt ++ List.replicate (wrapped f) 32) (paper_shown s) inside maps
  have sent := cputchars_sent _ ran
  have blank : spread (UInt32.ofInt 32).toUInt8 = [32] := rfl
  have blanks (count : Nat) : (List.replicate count (32 : Int)).flatMap
      (fun c => spread (UInt32.ofInt c).toUInt8) = List.replicate count 32 := by
    induction count with
    | zero => rfl
    | succ count ih => rw [List.replicate_succ, List.flatMap_cons, ih, blank]; rfl
  rw [List.flatMap_append, List.flatMap_map, blanks] at sent
  refine ⟨s', ?_, shown, ?_⟩
  · simp only [cprintf, vcprintf_emit (printed_string f.bytes f.noNul)]
    rw [← wrapped, ran, Outcome.done_bind]
  · simpa [charInt_low] using sent

theorem sameOutput_marks {s s₁ s₂ : Console} (bytes : List UInt8)
    (shown₁ : Shows s s₁ (bytes.foldl Paper.put s.paper))
    (shown₂ : Shows s s₂ ((bytes.map charInt).foldl Paper.putInt s.paper))
    (sent : s₁.sent = s₂.sent) :
    SameOutput s₁ s₂ ↔ s.paper.color = 0xFF ∨ ¬ s.HighInView bytes := by
  have marked := marks_correct s bytes
  have view := marked.scrolled
  have top : ((bytes.map charInt).foldl Paper.putInt s.paper).top =
      (bytes.foldl Paper.put s.paper).top := by rw [Paper.top, view.1, Paper.top]
  have marks_top : (s.marks bytes).top = (bytes.foldl Paper.put s.paper).top := by
    rw [Paper.top, view.2, Paper.top]
  have agree (i : Nat) (lt : i < 2000) : textCell s₁.mem s₁.crtBuf i =
      textCell s₂.mem s₂.crtBuf i ↔ s.paper.color = 0xFF ∨
        ((s.marks bytes).cell ((s.marks bytes).top + i)).color ≠ 1 := by
    rw [shown₁.crtBuf, shown₁.cells i lt, shown₂.crtBuf, shown₂.cells i lt, top, marks_top,
      ← marked.agree, eq_comm]
  have cursor : s₁.crtPos = s₂.crtPos := by
    have cursor₁ := shown₁.cursor
    have cursor₂ := shown₂.cursor
    rw [top, marked.cursor.1] at cursor₂
    exact UInt16.toNat_inj.1 (by omega)
  have cells : (∀ i < 2000, textCell s₁.mem s₁.crtBuf i = textCell s₂.mem s₂.crtBuf i) ↔
      s.paper.color = 0xFF ∨ ¬ s.HighInView bytes := by
    simp only [HighInView, not_exists, not_and, ← forall_or_left]
    exact forall₂_congr agree
  rw [← cells]
  exact ⟨fun same => same.cells, fun same => ⟨same, cursor, sent⟩⟩

include inside maps in
theorem cprintf_direct (plain : 37 ∉ f.bytes) :
    ∃ s₁ s₂, cprintf f [] s = .done (0, s₁) ∧
      cprintf stringFormat [.str (some (f.bytes ++ [0]))] s = .done (0, s₂) ∧
      (∀ i < 2000, textCell s₁.mem s₁.crtBuf i =
        (f.bytes.foldl Paper.put s.paper).cell ((f.bytes.foldl Paper.put s.paper).top + i)) ∧
      (SameOutput s₁ s₂ ↔ int32 (-1 - f.bytes.length) ≤ 0 ∧
        (s.paper.color = 0xFF ∨ ¬ s.HighInView f.bytes)) := by
  obtain ⟨s₁, ran₁, shown₁, sent₁⟩ := cprintf_text f s inside maps plain
  obtain ⟨s₂, ran₂, shown₂, sent₂⟩ := cprintf_string f s inside maps
  have cells := shown₁.cells
  rw [← shown₁.crtBuf] at cells
  refine ⟨s₁, s₂, ran₁, ran₂, cells, ?_⟩
  by_cases narrow : int32 (-1 - f.bytes.length) ≤ 0
  next =>
    have none : wrapped f = 0 := Int.toNat_of_nonpos narrow
    rw [none, List.replicate_zero, List.append_nil] at shown₂ sent₂
    rw [sameOutput_marks f.bytes shown₁ shown₂ (by rw [sent₁, sent₂])]
    simp [narrow]
  next =>
    refine iff_of_false (fun same => ?_) fun fits => narrow fits.1
    have sent := same.sent
    rw [sent₁, sent₂, List.flatMap_append, List.append_cancel_left_eq, List.self_eq_append_right]
      at sent
    have some : wrapped f ≠ 0 := by
      unfold wrapped
      omega
    obtain ⟨count, more⟩ := Nat.exists_eq_succ_of_ne_zero some
    rw [more, List.replicate_succ, List.flatMap_cons] at sent
    cases sent

def highByte : CString := ⟨[0x80], by decide⟩

theorem greeting_direct :
    ∃ s₁ s₂, cprintf greeting [] lastCell = .done (0, s₁) ∧
      cprintf stringFormat [.str (some (greeting.bytes ++ [0]))] lastCell = .done (0, s₂) ∧
      (∀ i < 2000, textCell s₁.mem s₁.crtBuf i = (greeting.bytes.foldl Paper.put lastCell.paper).cell
        ((greeting.bytes.foldl Paper.put lastCell.paper).top + i)) ∧
      (SameOutput s₁ s₂ ↔ int32 (-1 - greeting.bytes.length) ≤ 0 ∧
        (lastCell.paper.color = 0xFF ∨ ¬ lastCell.HighInView greeting.bytes)) :=
  cprintf_direct greeting lastCell (by decide) lastCell_maps (by decide)

theorem highByte_tinted :
    ∃ s₁ s₂, cprintf highByte [] lastCell = .done (0, s₁) ∧
      cprintf stringFormat [.str (some (highByte.bytes ++ [0]))] lastCell = .done (0, s₂) ∧
      textCell s₁.mem s₁.crtBuf 1919 = ⟨0x07, 0x80⟩ ∧
      textCell s₂.mem s₂.crtBuf 1919 = ⟨0xFF, 0x80⟩ ∧ ¬ SameOutput s₁ s₂ := by
  obtain ⟨s₁, ran₁, shown₁, -⟩ := cprintf_text highByte lastCell (by decide) lastCell_maps (by decide)
  obtain ⟨s₂, ran₂, shown₂, -⟩ := cprintf_string highByte lastCell (by decide) lastCell_maps
  have direct : textCell s₁.mem s₁.crtBuf 1919 = ⟨0x07, 0x80⟩ := by
    rw [shown₁.crtBuf, shown₁.cells 1919 (by decide)]
    decide +kernel
  have string : textCell s₂.mem s₂.crtBuf 1919 = ⟨0xFF, 0x80⟩ := by
    rw [shown₂.crtBuf, shown₂.cells 1919 (by decide)]
    decide +kernel
  refine ⟨s₁, s₂, ran₁, ran₂, direct, string, fun same => ?_⟩
  have cell := same.cells 1919 (by decide)
  rw [direct, string] at cell
  exact absurd cell (by decide)

end Console

end JosLab
