import JosLab.Kern.DeviceStreams
import JosLab.Kern.PrintfCount

set_option autoImplicit false

namespace JosLab

open Printfmt

theorem Paper.strike_colors (p : Paper) (color byte : UInt8) :
    (p.strike color byte).fg = p.fg ∧ (p.strike color byte).bg = p.bg := by
  have follow (p : Paper) : p.follow.fg = p.fg ∧ p.follow.bg = p.bg := by
    unfold Paper.follow
    split <;> exact ⟨rfl, rfl⟩
  have print (p : Paper) (cell : Cell) : (p.print cell).fg = p.fg ∧ (p.print cell).bg = p.bg :=
    follow _
  have space (p : Paper) : p.space.fg = p.fg ∧ p.space.bg = p.bg := print p _
  unfold Paper.strike
  split
  next =>
    unfold Paper.backspace
    split <;> exact ⟨rfl, rfl⟩
  split
  next => exact follow _
  split
  next => exact ⟨rfl, rfl⟩
  split
  next => simp [Paper.tab, space]
  next => exact print p _

theorem Paper.putInts_colors (w : List Int) (p : Paper) :
    (w.foldl Paper.putInt p).fg = p.fg ∧ (w.foldl Paper.putInt p).bg = p.bg := by
  induction w generalizing p with
  | nil => exact ⟨rfl, rfl⟩
  | cons c w ih =>
    obtain ⟨fg, bg⟩ := ih (p.putInt c)
    obtain ⟨fg', bg'⟩ := p.strike_colors (p.color ||| (UInt32.ofInt c >>> 8).toUInt8)
      (UInt32.ofInt c).toUInt8
    exact ⟨fg.trans fg', bg.trans bg'⟩

namespace Console

inductive Act where
  | text (w : List Int)
  | setBg (bg : UInt8)
  | setFg (fg : UInt8)
  | reset

def act (s : Console) : Act → Outcome Fault Console
  | .text w => emit cputchar w s
  | .setBg bg => return s.cgaSetBg bg
  | .setFg fg => return s.cgaSetFg fg
  | .reset => return s.cgaReset

def play (acts : List Act) (s : Console) : Outcome Fault Console := acts.foldlM act s

def Act.bytes : Act → List UInt8
  | .text w => w.map fun c => (UInt32.ofInt c).toUInt8
  | .setBg _ | .setFg _ | .reset => []

def Act.colors : UInt8 × UInt8 → Act → UInt8 × UInt8
  | colors, .text _ => colors
  | (fg, _), .setBg bg => (fg, bg)
  | (_, bg), .setFg fg => (fg, bg)
  | _, .reset => (0, 0)

theorem play_append (a b : List Act) (s : Console) :
    play (a ++ b) s = play a s >>= play b := by
  induction a generalizing s with
  | nil => rfl
  | cons act a ih =>
    simp only [play, List.cons_append, List.foldlM_cons, Outcome.bind_assoc] at ih ⊢
    congr 1
    funext s
    exact ih s

def Steady (origin s : Console) : Prop := s.crtPos < crtSize ∧ ∃ p, Shows origin s p

variable {origin s : Console}

theorem Shows.recolor {p : Paper} (shown : Shows origin s p) (fg bg : UInt8) :
    Shows origin { s with cgaFg := fg, cgaBg := bg } { p with fg, bg } :=
  ⟨shown.adapter, shown.confined, shown.cells, shown.cursor, rfl, rfl, shown.below⟩

variable (maps : origin.mem.Maps origin.crtBuf (origin.crtBuf + 4000))

theorem Steady.confined (steady : Steady origin s) : Confined origin.crtBuf origin.mem s.mem := by
  obtain ⟨-, p, shown⟩ := steady
  exact shown.confined

include maps

theorem act_steady (act : Act) (steady : Steady origin s) :
    ∃ s', s.act act = .done s' ∧ Steady origin s' ∧
      s'.sent = s.sent ++ (act.bytes.flatMap spread).flatMap send ∧
      (s'.cgaFg, s'.cgaBg) = act.colors (s.cgaFg, s.cgaBg) := by
  obtain ⟨inside, p, shown⟩ := steady
  cases act with
  | text w =>
    obtain ⟨s', ran, inside', shown'⟩ := emit_cputchar w shown inside maps
    refine ⟨s', ran, ⟨inside', _, shown'⟩, ?_, ?_⟩
    · rw [cputchars_sent w ran, Act.bytes, List.flatMap_map]
    · simp only [Act.colors, shown'.fg, shown'.bg, Paper.putInts_colors, shown.fg, shown.bg]
  | setBg bg =>
    exact ⟨_, rfl, ⟨inside, _, shown.recolor s.cgaFg bg⟩, (List.append_nil _).symm, rfl⟩
  | setFg fg =>
    exact ⟨_, rfl, ⟨inside, _, shown.recolor fg s.cgaBg⟩, (List.append_nil _).symm, rfl⟩
  | reset =>
    exact ⟨_, rfl, ⟨inside, _, shown.recolor 0 0⟩, (List.append_nil _).symm, rfl⟩

theorem play_steady (acts : List Act) (steady : Steady origin s) :
    ∃ s', play acts s = .done s' ∧ Steady origin s' ∧
      s'.sent = s.sent ++ ((acts.flatMap Act.bytes).flatMap spread).flatMap send ∧
      (s'.cgaFg, s'.cgaBg) = acts.foldl Act.colors (s.cgaFg, s.cgaBg) := by
  induction acts generalizing s with
  | nil => exact ⟨s, rfl, steady, (List.append_nil _).symm, rfl⟩
  | cons act acts ih =>
    obtain ⟨next, ran, next_steady, next_sent, next_colors⟩ := act_steady maps act steady
    obtain ⟨last, rest, last_steady, last_sent, last_colors⟩ := ih next_steady
    refine ⟨last, ?_, last_steady, ?_, ?_⟩
    · rw [play, List.foldlM_cons, ran]
      exact rest
    · rw [last_sent, next_sent]
      simp
    · rw [last_colors, next_colors]
      rfl

end Console

end JosLab
