import JosLab.Kern.Printf
import JosLab.Kern.ScreenRefinement
import JosLab.Lib.SilentFormats
import JosLab.Lib.Snprintf

set_option autoImplicit false

namespace JosLab

def Paper.putInt (p : Paper) (c : Int) : Paper :=
  p.strike (p.color ||| (UInt32.ofInt c >>> 8).toUInt8) (UInt32.ofInt c).toUInt8

namespace Console

open Printfmt

theorem emit_cputchar {origin s : Console} {p : Paper} (w : List Int) (shown : Shows origin s p)
    (inside : s.crtPos < crtSize) (maps : origin.mem.Maps origin.crtBuf (origin.crtBuf + 4000)) :
    ∃ s', emit cputchar w s = .done s' ∧ s'.crtPos < crtSize ∧
      Shows origin s' (w.foldl Paper.putInt p) := by
  induction w generalizing s p with
  | nil => exact ⟨s, rfl, inside, shown⟩
  | cons ch w ih =>
    obtain ⟨next, ran, next_inside, -, next_shown⟩ := cputchar_strikes ch shown inside maps
    obtain ⟨last, rest, last_inside, last_shown⟩ := ih next_shown next_inside
    exact ⟨last, by simp [ran, rest], last_inside, last_shown⟩

theorem emit_putch (w : List Int) (s : Console) (cnt : Int) :
    emit putch w (s, cnt) = emit cputchar w s >>= fun s => .done (s, cnt) := by
  induction w generalizing s with
  | nil => rfl
  | cons ch w ih => simp [putch, ih, Outcome.bind_assoc]

theorem vcprintf_emit {f : CString} {ap left : List Arg} {w : List Int}
    (prints : printed f ap = .done (w, left)) (s : Console) :
    vcprintf f ap s = emit cputchar w s >>= fun s => .done (0, s) := by
  simp [vcprintf, vprintfmt_emit prints, emit_putch, Outcome.bind_assoc]

theorem cprintf_shows {f : CString} {ap left : List Arg} {origin s : Console} {p : Paper}
    (enough : Consumes (demand .text f.bytes) ap left) (shown : Shows origin s p)
    (inside : s.crtPos < crtSize) (maps : origin.mem.Maps origin.crtBuf (origin.crtBuf + 4000)) :
    ∃ s' p', cprintf f ap s = .done (0, s') ∧ s'.crtPos < crtSize ∧ Shows origin s' p' := by
  obtain ⟨w, prints, -⟩ := vprintfmt_total f ap left enough
  obtain ⟨s', ran, inside', shown'⟩ := emit_cputchar w shown inside maps
  exact ⟨s', _, by simp [cprintf, vcprintf_emit prints, ran], inside', shown'⟩

theorem vcprintf_count (f : CString) (ap left : List Arg)
    (enough : Consumes (demand .text f.bytes) ap left) (s : Console) (inside : s.crtPos < crtSize)
    (maps : s.mem.Maps s.crtBuf (s.crtBuf + 4000)) :
    ∃ w rc s', printed f ap = .done (w, left) ∧ emit cputchar w s = .done s' ∧
      vcprintf f ap s = .done (rc, s') ∧ cprintf f ap s = .done (rc, s') ∧
      ((rc = w.length ∧ ∀ mem buf n, Buffer mem buf n →
        ∃ mem', vsnprintf mem buf n f ap = .done (rc, mem')) ↔ Silent f.bytes ap) := by
  obtain ⟨w, prints, -⟩ := vprintfmt_total f ap left enough
  obtain ⟨s', ran, -, -⟩ := emit_cputchar w (paper_shown s) inside maps
  have counted : vcprintf f ap s = .done (0, s') := by simp [vcprintf_emit prints, ran]
  refine ⟨w, 0, s', prints, ran, counted, counted, ?_⟩
  rw [← ((printed_iff f ap left w).1 prints).silent]
  constructor
  next =>
    rintro ⟨same, -⟩
    exact List.length_eq_zero_iff.mp (by omega)
  next =>
    rintro rfl
    refine ⟨rfl, fun mem buf n buffer => ?_⟩
    obtain ⟨mem', stored, -⟩ := vsnprintf_stored prints (by decide) buffer
    exact ⟨mem', stored⟩

-- "hi"
def greeting : CString := ⟨[104, 105], by decide⟩

theorem greeting_count :
    ∃ w rc s', printed greeting [] = .done (w, []) ∧ emit cputchar w lastCell = .done s' ∧
      vcprintf greeting [] lastCell = .done (rc, s') ∧
      cprintf greeting [] lastCell = .done (rc, s') ∧
      ((rc = w.length ∧ ∀ mem buf n, Buffer mem buf n →
        ∃ mem', vsnprintf mem buf n greeting [] = .done (rc, mem')) ↔ Silent greeting.bytes []) :=
  vcprintf_count greeting [] [] (.nil []) lastCell (by decide) lastCell_maps

theorem greeting_miscounted :
    printed greeting [] = .done ([104, 105], []) ∧
      ∃ s', emit cputchar [104, 105] lastCell = .done s' ∧
        vcprintf greeting [] lastCell = .done (0, s') ∧
        cprintf greeting [] lastCell = .done (0, s') ∧ (0 : Int) ≠ [104, 105].length := by
  have prints : printed greeting [] = .done ([104, 105], []) := by decide +kernel
  obtain ⟨s', ran, -, -⟩ := emit_cputchar [104, 105] (paper_shown lastCell) (by decide) lastCell_maps
  have counted : vcprintf greeting [] lastCell = .done (0, s') := by simp [vcprintf_emit prints, ran]
  exact ⟨prints, s', ran, counted, counted, by decide⟩

end Console

end JosLab
