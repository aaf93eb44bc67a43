import JosLab.Lib.LineKeeping

set_option autoImplicit false

namespace JosLab.Readline

open Console

def edit (line : List UInt8) (c : Int) : List UInt8 :=
  if c = 8 ∨ c = 0x7f then line.dropLast
  else if 32 ≤ c then
    if line.length < buflen - 1 then line ++ [UInt8.ofInt c] else line
  else line

structure Strokes where
  held : Nat
  stray : Bool
  deriving DecidableEq, Repr

def Strokes.next (strokes : Strokes) (c : Int) : Strokes :=
  if c = 8 ∨ c = 0x7f then
    if 0 < strokes.held then ⟨strokes.held - 1, strokes.stray && decide (1 < strokes.held)⟩
    else if c = 0x7f then ⟨1, true⟩
    else strokes
  else if 32 ≤ c ∧ strokes.held < buflen - 1 then ⟨strokes.held + 1, strokes.stray⟩
  else strokes

def Stray (keys : List Int) : Prop := (keys.foldl Strokes.next ⟨0, false⟩).stray = true

structure Differs (strokes : Strokes) (kept edited : List UInt8) : Prop where
  held : strokes.held = kept.length
  room : kept.length < buflen
  room' : edited.length < buflen
  clean : 0x7f ∉ edited
  same : strokes.stray = false → kept = edited
  stray : strokes.stray = true →
    kept.head? = some 0x7f ∧ edited.length ≤ kept.length ∧ kept.length ≤ edited.length + 1

theorem differs_erase {strokes : Strokes} {kept edited : List UInt8} {c : Int}
    (differs : Differs strokes kept edited) (erases : c = 8 ∨ c = 0x7f) (some : 0 < strokes.held) :
    Differs (strokes.next c) (keep kept c) (edit edited c) := by
  have held := differs.held
  have room := differs.room
  have room' := differs.room'
  have stays : 0 < kept.length := held ▸ some
  have next : strokes.next c = ⟨strokes.held - 1, strokes.stray && decide (1 < strokes.held)⟩ := by
    simp [Strokes.next, erases, some]
  have kept_next : keep kept c = kept.dropLast := by simp [keep, erases, stays]
  have edited_next : edit edited c = edited.dropLast := by simp [edit, erases]
  have kept_length : kept.dropLast.length = kept.length - 1 := List.length_dropLast
  have edited_length : edited.dropLast.length = edited.length - 1 := List.length_dropLast
  rw [next, kept_next, edited_next]
  exact {
    held := by rw [kept_length, held]
    room := by omega
    room' := by omega
    clean := fun member => differs.clean (List.mem_of_mem_dropLast member)
    same := by
      intro clear
      cases stray : strokes.stray with
      | false => rw [differs.same stray]
      | true =>
        -- The stray 0x7f was all that was left.
        obtain ⟨-, le, -⟩ := differs.stray stray
        have last : ¬ 1 < strokes.held := by simpa [stray] using clear
        rw [List.length_eq_zero_iff.1 (by omega : kept.dropLast.length = 0),
          List.length_eq_zero_iff.1 (by omega : edited.dropLast.length = 0)]
    stray := by
      intro stray
      simp only [Bool.and_eq_true, decide_eq_true_eq] at stray
      obtain ⟨head, le, ge⟩ := differs.stray stray.1
      have more : 1 < kept.length := by omega
      exact ⟨by rw [List.head?_dropLast, if_pos more, head], by omega, by omega⟩ }

theorem differs_print {strokes : Strokes} {kept edited : List UInt8} {c : Int}
    (differs : Differs strokes kept edited) (editing : Editing c) (plain : ¬ (c = 8 ∨ c = 0x7f))
    (prints : 32 ≤ c) : Differs (strokes.next c) (keep kept c) (edit edited c) := by
  have held := differs.held
  have room := differs.room
  have room' := differs.room'
  have not_delete : (0x7f : UInt8) ≠ UInt8.ofInt c := by
    intro same
    have value := ofInt_toNat (by omega) editing.2.1
    rw [← same] at value
    exact plain (.inr value.symm)
  have clean : 0x7f ∉ edited ++ [UInt8.ofInt c] := by simp [differs.clean, not_delete]
  have kept_length : (kept ++ [UInt8.ofInt c]).length = kept.length + 1 := by simp
  have edited_length : (edited ++ [UInt8.ofInt c]).length = edited.length + 1 := by simp
  by_cases fits : kept.length < buflen - 1
  next =>
    have fits' : edited.length < buflen - 1 := by
      cases stray : strokes.stray with
      | false => rwa [← differs.same stray]
      | true =>
        obtain ⟨-, le, -⟩ := differs.stray stray
        omega
    have next : strokes.next c = ⟨strokes.held + 1, strokes.stray⟩ := by
      simp [Strokes.next, plain, prints, held, fits]
    have kept_next : keep kept c = kept ++ [UInt8.ofInt c] := by simp [keep, plain, prints, fits]
    have edited_next : edit edited c = edited ++ [UInt8.ofInt c] := by
      simp [edit, plain, prints, fits']
    rw [next, kept_next, edited_next]
    exact {
      held := by rw [kept_length, held]
      room := by omega
      room' := by omega
      clean := clean
      same := by
        intro clear
        rw [differs.same clear]
      stray := by
        intro stray
        obtain ⟨head, le, ge⟩ := differs.stray stray
        exact ⟨by simp [head], by omega, by omega⟩ }
  next =>
    have next : strokes.next c = strokes := by simp [Strokes.next, plain, held, fits]
    have kept_next : keep kept c = kept := by simp [keep, plain, fits]
    rw [next, kept_next]
    by_cases fits' : edited.length < buflen - 1
    next =>
      -- The stray 0x7f takes the place of the last character.
      have edited_next : edit edited c = edited ++ [UInt8.ofInt c] := by
        simp [edit, plain, prints, fits']
      rw [edited_next]
      exact {
        held := held
        room := room
        room' := by omega
        clean := clean
        same := by
          intro clear
          rw [differs.same clear] at fits
          exact absurd fits' fits
        stray := by
          intro stray
          obtain ⟨head, le, ge⟩ := differs.stray stray
          exact ⟨head, by omega, by omega⟩ }
    next =>
      have edited_next : edit edited c = edited := by simp [edit, plain, fits']
      rw [edited_next]
      exact differs

theorem differs_next {strokes : Strokes} {kept edited : List UInt8} {c : Int}
    (differs : Differs strokes kept edited) (editing : Editing c) :
    Differs (strokes.next c) (keep kept c) (edit edited c) := by
  by_cases erases : c = 8 ∨ c = 0x7f
  next =>
    by_cases some : 0 < strokes.held
    next => exact differs_erase differs erases some
    have empty : kept = [] := List.length_eq_zero_iff.1 (by rw [← differs.held]; omega)
    have clear : strokes.stray = false := by
      by_contra stray
      obtain ⟨head, -, -⟩ := differs.stray (Bool.not_eq_false _ ▸ stray)
      rw [empty] at head
      cases head
    have same : edited = [] := by rw [← differs.same clear, empty]
    rw [empty, same]
    by_cases delete : c = 0x7f
    next =>
      have next : strokes.next c = ⟨1, true⟩ := by simp [Strokes.next, some, delete]
      rw [next, delete]
      exact ⟨rfl, by decide, by decide, by decide, by decide, by decide⟩
    next =>
      have backspace : c = 8 := by omega
      have next : strokes.next c = strokes := by simp [Strokes.next, some, backspace]
      rw [next, backspace]
      rw [empty, same] at differs
      exact differs
  by_cases prints : 32 ≤ c
  next => exact differs_print differs editing erases prints
  next =>
    have next : strokes.next c = strokes := by simp [Strokes.next, erases, prints]
    have kept_next : keep kept c = kept := by simp [keep, erases, prints]
    have edited_next : edit edited c = edited := by simp [edit, erases, prints]
    rw [next, kept_next, edited_next]
    exact differs

theorem differs_run (keys : List Int) (editing : ∀ c ∈ keys, Editing c) (strokes : Strokes)
    (kept edited : List UInt8) (differs : Differs strokes kept edited) :
    Differs (keys.foldl Strokes.next strokes) (keys.foldl keep kept) (keys.foldl edit edited) := by
  induction keys generalizing strokes kept edited with
  | nil => exact differs
  | cons c rest ih =>
    exact ih (fun later member => editing later (by simp [member])) _ _ _
      (differs_next differs (editing c (by simp)))

theorem keep_eq_edit_iff (keys : List Int) (editing : ∀ c ∈ keys, Editing c) :
    keys.foldl keep [] = keys.foldl edit [] ↔ ¬ Stray keys := by
  have start : Differs ⟨0, false⟩ [] [] :=
    ⟨rfl, by decide, by decide, by decide, fun _ => rfl, by decide⟩
  have differs := differs_run keys editing _ _ _ start
  constructor
  next =>
    intro same stray
    obtain ⟨head, -, -⟩ := differs.stray stray
    rw [same] at head
    exact differs.clean (List.mem_of_head? head)
  next =>
    intro clear
    exact differs.same (Bool.not_eq_true _ ▸ clear)

theorem readline_edits_iff (prompt : Option Chars) (terminated : ∀ p, prompt = some p → 0 ∈ p)
    (keys rest : List Int) (stop : Int) (editing : ∀ c ∈ keys, Editing c)
    (newline : stop = 10 ∨ stop = 13) (buf : Buf) (mapped : ∀ i < buflen, buf.mapped i = true)
    (s : Console) (inside : s.crtPos < crtSize) (maps : s.mem.Maps s.crtBuf (s.crtBuf + 4000)) :
    ∃ buf' s', readline prompt (keys ++ stop :: rest) buf s = .done (some buf', s') ∧
      (text buf' = keys.foldl edit [] ↔ ¬ Stray keys) := by
  obtain ⟨buf', s', ran, result⟩ :=
    readline_keeps prompt terminated keys rest stop editing newline buf mapped s inside maps
  refine ⟨buf', s', ran, ?_⟩
  rw [result]
  exact keep_eq_edit_iff keys editing

theorem erased_edits :
    ∃ buf' s', readline none ([97, 98, 0x7f] ++ 10 :: []) blankBuf lastCell =
        .done (some buf', s') ∧
      (text buf' = [97, 98, 0x7f].foldl edit [] ↔ ¬ Stray [97, 98, 0x7f]) :=
  readline_edits_iff none (by simp) [97, 98, 0x7f] [] 10 (by decide) (by decide) blankBuf
    (by simp [blankBuf]) lastCell (by decide) lastCell_maps

theorem stray_delete :
    ∃ buf' s', readline none [0x7f, 10] blankBuf lastCell = .done (some buf', s') ∧
      text buf' = [0x7f] ∧ [0x7f].foldl edit [] = [] := by
  obtain ⟨buf', s', ran, result⟩ := readline_keeps none (by simp) [0x7f] [] 10 (by decide)
    (by decide) blankBuf (by simp [blankBuf]) lastCell (by decide) lastCell_maps
  exact ⟨buf', s', ran, result, rfl⟩

end JosLab.Readline
