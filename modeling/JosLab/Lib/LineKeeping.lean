import JosLab.Kern.PrintfCount
import JosLab.Lib.Readline

set_option autoImplicit false

namespace JosLab.Readline

open Console Printfmt

-- An empty line keeps 0x7f: erasing is refused there, and it passes for a printing key.
def keep (line : List UInt8) (c : Int) : List UInt8 :=
  if (c = 8 ∨ c = 0x7f) ∧ 0 < line.length then line.dropLast
  else if 32 ≤ c ∧ line.length < buflen - 1 then line ++ [UInt8.ofInt c]
  else line

def echoed (p : Paper) (line : List UInt8) (c : Int) : Paper :=
  if (c = 8 ∨ c = 0x7f) ∧ 0 < line.length then p.put 8
  else if 32 ≤ c ∧ line.length < buflen - 1 then p.put (UInt8.ofInt c)
  else p

def strike (t : Paper × List UInt8) (c : Int) : Paper × List UInt8 :=
  (echoed t.1 t.2 c, keep t.2 c)

def Editing (c : Int) : Prop := 1 ≤ c ∧ c ≤ 255 ∧ c ≠ 10 ∧ c ≠ 13

instance (c : Int) : Decidable (Editing c) :=
  inferInstanceAs (Decidable (1 ≤ c ∧ c ≤ 255 ∧ c ≠ 10 ∧ c ≠ 13))

structure Holds (origin : Console) (s : Editor) (t : Paper × List UInt8) : Prop where
  index : s.i = t.2.length
  room : t.2.length < buflen
  mapped : ∀ i < buflen, s.buf.mapped i = true
  held : ∀ k < t.2.length, s.buf.value k = t.2.getD k 0
  clean : 0 ∉ t.2
  inside : s.console.crtPos < crtSize
  shown : Shows origin s.console t.1

theorem strike_erases {t : Paper × List UInt8} {c : Int}
    (erases : (c = 8 ∨ c = 0x7f) ∧ 0 < t.2.length) : strike t c = (t.1.put 8, t.2.dropLast) := by
  simp [strike, echoed, keep, erases]

theorem strike_prints {t : Paper × List UInt8} {c : Int}
    (kept : ¬ ((c = 8 ∨ c = 0x7f) ∧ 0 < t.2.length))
    (prints : 32 ≤ c ∧ t.2.length < buflen - 1) :
    strike t c = (t.1.put (UInt8.ofInt c), t.2 ++ [UInt8.ofInt c]) := by
  simp [strike, echoed, keep, kept, prints]

theorem strike_ignores {t : Paper × List UInt8} {c : Int}
    (kept : ¬ ((c = 8 ∨ c = 0x7f) ∧ 0 < t.2.length))
    (dropped : ¬ (32 ≤ c ∧ t.2.length < buflen - 1)) : strike t c = t := by
  simp [strike, echoed, keep, kept, dropped]

theorem getD_dropLast (line : List UInt8) (k : Nat) (lt : k < line.length - 1) :
    line.dropLast.getD k 0 = line.getD k 0 := by
  have inside : k < line.length := by omega
  simp [List.dropLast_eq_take, List.getD, lt, inside]

theorem readlineKey_simulates (origin : Console)
    (maps : origin.mem.Maps origin.crtBuf (origin.crtBuf + 4000)) :
    InputLoop.Simulates readlineKey Editing strike (Holds origin) := by
  intro c s t editing holds
  obtain ⟨positive, le, not_newline, not_return⟩ := editing
  have not_error : ¬ c < 0 := by omega
  have not_stop : ¬ (c = 10 ∨ c = 13) := by omega
  have index := holds.index
  have room := holds.room
  by_cases erases : (c = 8 ∨ c = 0x7f) ∧ 0 < s.i
  next =>
    obtain ⟨console, ran, inside, -, shown⟩ := cputchar_byte 8 holds.shown holds.inside maps
    have echoes : cputchar 8 s.console = .done console := ran
    have erased : (c = 8 ∨ c = 0x7f) ∧ 0 < t.2.length := index ▸ erases
    have shorter : t.2.dropLast.length = t.2.length - 1 := List.length_dropLast
    rw [strike_erases erased]
    exact ⟨⟨s.i - 1, s.buf, console⟩,
      by simp [readlineKey, not_error, erases, echo, iscons, echoes], {
      index := by rw [shorter, index]
      room := by rw [shorter]; omega
      mapped := holds.mapped
      held := by
        intro k lt
        rw [shorter] at lt
        rw [holds.held k (by omega), getD_dropLast _ _ lt]
      clean := fun member => holds.clean (List.mem_of_mem_dropLast member)
      inside := inside
      shown := shown }⟩
  have kept : ¬ ((c = 8 ∨ c = 0x7f) ∧ 0 < t.2.length) := index ▸ erases
  by_cases prints : 32 ≤ c ∧ s.i < buflen - 1
  next =>
    obtain ⟨console, ran, inside, -, shown⟩ :=
      cputchar_byte (UInt8.ofInt c) holds.shown holds.inside maps
    rw [ofInt_toNat (by omega) le] at ran
    have stored := Memory.store_mapped Fault.index s.buf s.i (UInt8.ofInt c)
      (holds.mapped _ (by omega))
    have printed : 32 ≤ c ∧ t.2.length < buflen - 1 := index ▸ prints
    have longer : (t.2 ++ [UInt8.ofInt c]).length = t.2.length + 1 := by simp
    rw [strike_prints kept printed]
    exact ⟨⟨s.i + 1, Memory.set s.buf s.i (UInt8.ofInt c), console⟩,
      by simp [readlineKey, not_error, erases, prints, echo, iscons, ran, stored], {
        index := by rw [longer, index]
        room := by rw [longer]; omega
        mapped := holds.mapped
        held := by
          intro k lt
          rw [longer] at lt
          rw [Memory.set_value, index]
          by_cases last : k = t.2.length
          next => simp [last]
          next =>
            rw [if_neg last, holds.held k (by omega), List.getD_append _ _ _ _ (by omega)]
        clean := by
          have nonzero := ofInt_nonzero positive le
          simp [holds.clean, nonzero.symm]
        inside := inside
        shown := shown }⟩
  next =>
    have dropped : ¬ (32 ≤ c ∧ t.2.length < buflen - 1) := index ▸ prints
    rw [strike_ignores kept dropped]
    exact ⟨s, by simp [readlineKey, not_error, erases, prints, not_stop], holds⟩

def text (buf : Buf) : List UInt8 :=
  ((List.range buflen).map buf.value).takeWhile fun byte => byte ≠ 0

theorem text_eq (buf : Buf) (line : List UInt8) (room : line.length < buflen)
    (held : ∀ k < line.length, buf.value k = line.getD k 0) (ended : buf.value line.length = 0)
    (clean : 0 ∉ line) : text buf = line := by
  obtain ⟨more, size⟩ := Nat.exists_eq_add_of_lt room
  have before : (List.range line.length).map buf.value = line := by
    apply List.ext_getElem
    · simp
    · intro k lt lt'
      simp [held k lt', lt']
  rw [text, size, Nat.add_assoc, List.range_add, List.map_append, before,
    List.takeWhile_append_of_pos (by
      intro byte member
      exact decide_eq_true fun zero => clean (zero ▸ member))]
  simp [List.range_succ_eq_map, ended]

theorem readlineKey_stops {origin : Console} {c : Int} {s : Editor} {t : Paper × List UInt8}
    (maps : origin.mem.Maps origin.crtBuf (origin.crtBuf + 4000)) (holds : Holds origin s t)
    (newline : c = 10 ∨ c = 13) :
    ∃ buf console, readlineKey c s = .done (.leave (some buf, console)) ∧ text buf = t.2 := by
  have not_error : ¬ c < 0 := by omega
  have not_erase : ¬ ((c = 8 ∨ c = 0x7f) ∧ 0 < s.i) := by omega
  have not_print : ¬ (32 ≤ c ∧ s.i < buflen - 1) := by omega
  obtain ⟨console, ran, -⟩ := cputchar_byte 10 holds.shown holds.inside maps
  have echoes : cputchar 10 s.console = .done console := ran
  have index := holds.index
  have room := holds.room
  have stored := Memory.store_mapped Fault.index s.buf s.i 0 (holds.mapped _ (by omega))
  refine ⟨Memory.set s.buf s.i 0, console,
    by simp [readlineKey, not_error, not_erase, not_print, newline, echo, iscons, echoes, stored],
    ?_⟩
  apply text_eq _ _ room ?_ (by simp [index]) holds.clean
  intro k lt
  rw [Memory.set_value, if_neg (by omega), holds.held k lt]

theorem showPrompt_shows {prompt : Option Chars} {s : Console} (inside : s.crtPos < crtSize)
    (terminated : ∀ p, prompt = some p → 0 ∈ p) (maps : s.mem.Maps s.crtBuf (s.crtBuf + 4000)) :
    ∃ s' p', showPrompt prompt s = .done s' ∧ s'.crtPos < crtSize ∧ Shows s s' p' := by
  cases prompt with
  | none => exact ⟨s, s.paper, rfl, inside, paper_shown s⟩
  | some prompt =>
    have fits : Kind.string.matches (.str (some prompt)) = true := by
      simpa [Kind.matches] using terminated prompt rfl
    have enough : Consumes (demand .text stringFormat.bytes) [.str (some prompt)] [] :=
      .cons fits (.nil [])
    obtain ⟨s', p', ran, inside', shown⟩ := cprintf_shows enough (paper_shown s) inside maps
    exact ⟨s', p', by simp [showPrompt, ran], inside', shown⟩

theorem strikes_keep (keys : List Int) (t : Paper × List UInt8) :
    (keys.foldl strike t).2 = keys.foldl keep t.2 := by
  induction keys generalizing t with
  | nil => rfl
  | cons c rest ih => exact ih (strike t c)

theorem readline_keeps (prompt : Option Chars) (terminated : ∀ p, prompt = some p → 0 ∈ p)
    (keys rest : List Int) (stop : Int) (editing : ∀ c ∈ keys, Editing c)
    (newline : stop = 10 ∨ stop = 13) (buf : Buf) (mapped : ∀ i < buflen, buf.mapped i = true)
    (s : Console) (inside : s.crtPos < crtSize) (maps : s.mem.Maps s.crtBuf (s.crtBuf + 4000)) :
    ∃ buf' s', readline prompt (keys ++ stop :: rest) buf s = .done (some buf', s') ∧
      text buf' = keys.foldl keep [] := by
  obtain ⟨shown, sheet, prompted, shown_inside, shows⟩ := showPrompt_shows inside terminated maps
  have start : Holds s ⟨0, buf, shown⟩ (sheet, []) := {
    index := rfl
    room := Nat.zero_lt_succ _
    mapped := mapped
    held := by simp
    clean := by simp
    inside := shown_inside
    shown := shows }
  obtain ⟨last, fed, holds⟩ := (readlineKey_simulates s maps).feed keys _ _ editing start
  obtain ⟨buf', s', stopped, result⟩ := readlineKey_stops maps holds newline
  refine ⟨buf', s', ?_, by rw [result, strikes_keep]⟩
  rw [readline, prompted, Outcome.done_bind]
  exact InputLoop.run_feed fed stopped _ (by simp)

def blankBuf : Buf := ⟨fun i => decide (i < buflen), fun _ => 0⟩

end JosLab.Readline
