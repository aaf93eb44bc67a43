import Mathlib

set_option autoImplicit false

namespace JosLab

structure Cell where
  color : UInt8
  byte : UInt8
  deriving DecidableEq, Repr

def Cell.blank : Cell := ⟨0x07, 32⟩

inductive ScreenCall where
  | cputchar (byte : UInt8)
  | setFg (fg : UInt8)
  | setBg (bg : UInt8)
  | reset
  deriving DecidableEq, Repr

-- An unbounded sheet of 80-column paper, of which 25 rows show.
structure Paper where
  cell : Nat → Cell
  cursor : Nat
  scrolled : Nat
  fg : UInt8
  bg : UInt8

namespace Paper

def color (p : Paper) : UInt8 :=
  if p.bg = 0 ∧ p.fg = 0 then 0x07 else p.fg ||| p.bg <<< 4

def top (p : Paper) : Nat := 80 * p.scrolled

def bottom (p : Paper) : Nat := p.top + 80 * 25

def ink (p : Paper) (index : Nat) (cell : Cell) : Paper :=
  { p with cell := Function.update p.cell index cell }

def moveTo (p : Paper) (cursor : Nat) : Paper := { p with cursor }

@[simp] theorem ink_top (p : Paper) (index : Nat) (cell : Cell) :
    (p.ink index cell).top = p.top := rfl

@[simp] theorem moveTo_top (p : Paper) (cursor : Nat) : (p.moveTo cursor).top = p.top := rfl

-- A row scrolls off exactly when the cursor has left the view.
def follow (p : Paper) : Paper :=
  if p.bottom ≤ p.cursor then { p with scrolled := p.scrolled + 1 } else p

@[simp] theorem follow_cell (p : Paper) : p.follow.cell = p.cell := by
  unfold follow
  split <;> rfl

@[simp] theorem follow_cursor (p : Paper) : p.follow.cursor = p.cursor := by
  unfold follow
  split <;> rfl

theorem follow_top (p : Paper) :
    p.follow.top = if p.bottom ≤ p.cursor then p.top + 80 else p.top := by
  unfold follow
  split
  next => exact Nat.mul_succ 80 p.scrolled
  next => rfl

def print (p : Paper) (cell : Cell) : Paper :=
  ((p.ink p.cursor cell).moveTo (p.cursor + 1)).follow

def backspace (p : Paper) (color : UInt8) : Paper :=
  if p.cursor = p.top then p
  else (p.ink (p.cursor - 1) ⟨color, 32⟩).moveTo (p.cursor - 1)

def newline (p : Paper) : Paper := (p.moveTo (80 * (p.cursor / 80 + 1))).follow

def carriageReturn (p : Paper) : Paper := p.moveTo (80 * (p.cursor / 80))

def space (p : Paper) : Paper := p.print ⟨p.color, 32⟩

def tab (p : Paper) : Paper := p.space.space.space.space.space

def strike (p : Paper) (color byte : UInt8) : Paper :=
  if byte = 8 then p.backspace color
  else if byte = 10 then p.newline
  else if byte = 13 then p.carriageReturn
  else if byte = 9 then p.tab
  else p.print ⟨color, byte⟩

def put (p : Paper) (byte : UInt8) : Paper := p.strike p.color byte

def call (p : Paper) : ScreenCall → Paper
  | .cputchar byte => p.put byte
  | .setFg fg => { p with fg }
  | .setBg bg => { p with bg }
  | .reset => { p with fg := 0, bg := 0 }

end Paper

end JosLab
