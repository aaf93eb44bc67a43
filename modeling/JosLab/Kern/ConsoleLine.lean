import JosLab.Kern.CommandLine
import JosLab.Kern.ConsoleActs
import JosLab.Kern.MonitorLoop
import JosLab.Lib.FormatPieces
import JosLab.Lib.LineKeeping
import JosLab.Shared.Safety

set_option autoImplicit false

namespace JosLab.Monitor

open Console Printfmt Readline

def Sends (s s' : Console) (bytes : List UInt8) : Prop :=
  s'.sent = s.sent ++ (bytes.flatMap spread).flatMap send

theorem Sends.nil (s : Console) : Sends s s [] := (List.append_nil _).symm

theorem Sends.append {s s₁ s₂ : Console} {a b : List UInt8} (first : Sends s s₁ a)
    (second : Sends s₁ s₂ b) : Sends s s₂ (a ++ b) := by
  unfold Sends at *
  rw [second, first]
  simp

structure Placed (origin : Console) (buf : Nat) : Prop where
  screen : origin.mem.Maps origin.crtBuf (origin.crtBuf + 4000)
  line : origin.mem.Maps buf (buf + buflen)
  bound : buf + buflen ≤ 2 ^ 32
  apart : buf + buflen ≤ origin.crtBuf ∨ origin.crtBuf + 4000 ≤ buf

structure Fit (origin : Console) (buf : Nat) (s : Console) : Prop where
  adapter : s.adapter = origin.adapter
  onScreen : s.crtPos < crtSize
  mapped : ∀ a, s.mem.mapped a = origin.mem.mapped a
  outside : ∀ a, (a < buf ∨ buf + buflen ≤ a) →
    (a < origin.crtBuf ∨ origin.crtBuf + 4000 ≤ a) → s.mem.value a = origin.mem.value a

theorem Fit.refl {origin : Console} (buf : Nat) (onScreen : origin.crtPos < crtSize) :
    Fit origin buf origin :=
  ⟨rfl, onScreen, fun _ => rfl, fun _ _ _ => rfl⟩

structure Printed (origin : Console) (buf : Nat) (s s' : Console) (bytes : List UInt8) : Prop where
  fit : Fit origin buf s'
  sends : Sends s s' bytes

variable {origin s : Console} {buf : Nat}

theorem Printed.append {s₁ s₂ : Console} {a b : List UInt8} (first : Printed origin buf s s₁ a)
    (second : Printed origin buf s₁ s₂ b) : Printed origin buf s s₂ (a ++ b) :=
  ⟨second.fit, first.sends.append second.sends⟩

theorem Fit.crtBuf (fit : Fit origin buf s) : s.crtBuf = origin.crtBuf := by
  rw [Console.crtBuf, fit.adapter]

theorem Fit.store (fit : Fit origin buf s) {mem : Mem} (mapped : ∀ a, mem.mapped a = s.mem.mapped a)
    (same : ∀ a, (a < buf ∨ buf + buflen ≤ a) → mem.value a = s.mem.value a) :
    Fit origin buf { s with mem } where
  adapter := fit.adapter
  onScreen := fit.onScreen
  mapped a := (mapped a).trans (fit.mapped a)
  outside a out off := (same a out).trans (fit.outside a out off)

theorem Fit.confined {s' : Console} (fit : Fit origin buf s) (adapter : s'.adapter = s.adapter)
    (onScreen : s'.crtPos < crtSize) (confined : Confined s.crtBuf s.mem s'.mem) :
    Fit origin buf s' where
  adapter := adapter.trans fit.adapter
  onScreen := onScreen
  mapped a := (confined.mapped a).trans (fit.mapped a)
  outside a out off :=
    (confined.outside a (fit.crtBuf.symm ▸ off)).trans (fit.outside a out off)

section Placed

variable (placed : Placed origin buf)

include placed

theorem Fit.screen (fit : Fit origin buf s) : s.mem.Maps s.crtBuf (s.crtBuf + 4000) := by
  intro a ge lt
  rw [fit.crtBuf] at ge lt
  rw [fit.mapped]
  exact placed.screen a ge lt

theorem Fit.line (fit : Fit origin buf s) : s.mem.Maps buf (buf + buflen) := by
  intro a ge lt
  rw [fit.mapped]
  exact placed.line a ge lt

theorem play_printed (fit : Fit origin buf s) (acts : List Act) :
    ∃ s', play acts s = .done s' ∧ Printed origin buf s s' (acts.flatMap Act.bytes) ∧
      Confined s.crtBuf s.mem s'.mem := by
  have steady : Steady s s := ⟨fit.onScreen, _, paper_shown s⟩
  obtain ⟨s', played, ⟨onScreen, p, shown⟩, sent, -⟩ := play_steady (fit.screen placed) acts steady
  exact ⟨s', played, ⟨fit.confined shown.adapter onScreen shown.confined, sent⟩, shown.confined⟩

theorem cputchar_printed (fit : Fit origin buf s) {c : Int} (nonneg : 0 ≤ c) (le : c ≤ 255) :
    ∃ s', cputchar c s = .done s' ∧ Printed origin buf s s' [UInt8.ofInt c] ∧
      Confined s.crtBuf s.mem s'.mem := by
  obtain ⟨s', played, printed, confined⟩ := play_printed placed fit [.text [c]]
  have ran : cputchar c s = .done s' := by simpa [play, act] using played
  have low : (UInt32.ofInt c).toUInt8 = UInt8.ofInt c := by
    have byte := ofInt_toNat nonneg le
    rw [← byte, ofInt_byte, UInt8.toUInt8_toUInt32, byte]
  have bytes : [Act.text [c]].flatMap Act.bytes = [UInt8.ofInt c] := by simp [Act.bytes, low]
  exact ⟨s', ran, bytes ▸ printed, confined⟩

theorem cprintf_printed (fit : Fit origin buf s) {f : CString} {ap left : List Arg} {w : List Int}
    (prints : printed f ap = .done (w, left)) :
    ∃ s', cprintf f ap s = .done (0, s') ∧
      Printed origin buf s s' (w.map fun c => (UInt32.ofInt c).toUInt8) := by
  obtain ⟨s', played, printed, -⟩ := play_printed placed fit [.text w]
  have ran : emit cputchar w s = .done s' := by simpa [play, act] using played
  refine ⟨s', by rw [cprintf, vcprintf_emit prints, ran, Outcome.done_bind], ?_⟩
  have bytes : [Act.text w].flatMap Act.bytes = w.map fun c => (UInt32.ofInt c).toUInt8 := by
    simp [Act.bytes]
  rwa [bytes] at printed

theorem cprintf_plain (fit : Fit origin buf s) {f : CString} (plain : 37 ∉ f.bytes)
    (ap : List Arg) :
    ∃ s', cprintf f ap s = .done (0, s') ∧ Printed origin buf s s' f.bytes := by
  obtain ⟨s', ran, printed⟩ := cprintf_printed placed fit (printed_text f plain ap)
  simp only [List.map_map, Function.comp_def, ofInt_byte, UInt8.toUInt8_toUInt32,
    List.map_id'] at printed
  exact ⟨s', ran, printed⟩

end Placed

structure Held (buf : Nat) (s : Typing) (line : List UInt8) : Prop where
  index : s.i = line.length
  room : line.length < buflen
  held : ∀ k < line.length, s.console.mem.value (buf + k) = line.getD k 0
  clean : 0 ∉ line

theorem Held.start (buf : Nat) (s : Console) : Held buf ⟨0, s⟩ [] :=
  ⟨rfl, Nat.zero_lt_succ _, by simp, by simp⟩

def keyEcho (line : List UInt8) (c : Int) : List UInt8 :=
  if (c = 8 ∨ c = 0x7f) ∧ 0 < line.length then [8]
  else if 32 ≤ c ∧ line.length < buflen - 1 then [UInt8.ofInt c]
  else []

def echoes : List UInt8 → List Int → List UInt8
  | _, [] => []
  | line, c :: rest => keyEcho line c ++ echoes (keep line c) rest

section Placed

variable (placed : Placed origin buf)

include placed

theorem Placed.untouched (fit : Fit origin buf s) {s' : Console}
    (confined : Confined s.crtBuf s.mem s'.mem) (k : Nat) (lt : k < buflen) :
    s'.mem.value (buf + k) = s.mem.value (buf + k) := by
  have apart := placed.apart
  apply confined.outside
  rw [fit.crtBuf]
  omega

theorem readlineKeyAt_erases {t : Typing} (fit : Fit origin buf t.console) {line : List UInt8}
    (holds : Held buf t line) {c : Int} (erases : (c = 8 ∨ c = 0x7f) ∧ 0 < t.i) :
    ∃ t', readlineKeyAt buf c t = .done (.again t') ∧ Held buf t' line.dropLast ∧
      Printed origin buf t.console t'.console [8] := by
  obtain ⟨console, ran, printed, confined⟩ := cputchar_printed placed fit (c := 8) (by decide)
    (by decide)
  have not_error : ¬ c < 0 := by omega
  have room := holds.room
  have index := holds.index
  have shorter : line.dropLast.length = line.length - 1 := List.length_dropLast
  refine ⟨⟨t.i - 1, console⟩,
    by simp [readlineKeyAt, not_error, erases, echo, iscons, ran], ?_, printed⟩
  exact {
    index := by rw [shorter, index]
    room := by omega
    held := by
      intro k lt
      rw [shorter] at lt
      rw [placed.untouched fit confined k (by omega), holds.held k (by omega),
        getD_dropLast _ _ lt]
    clean := fun member => holds.clean (List.mem_of_mem_dropLast member) }

theorem readlineKeyAt_prints {t : Typing} (fit : Fit origin buf t.console) {line : List UInt8}
    (holds : Held buf t line) {c : Int} (editing : Editing c)
    (kept : ¬ ((c = 8 ∨ c = 0x7f) ∧ 0 < t.i)) (prints : 32 ≤ c ∧ t.i < buflen - 1) :
    ∃ t', readlineKeyAt buf c t = .done (.again t') ∧ Held buf t' (line ++ [UInt8.ofInt c]) ∧
      Printed origin buf t.console t'.console [UInt8.ofInt c] := by
  obtain ⟨positive, le, -⟩ := editing
  obtain ⟨console, ran, printed, confined⟩ := cputchar_printed placed fit (c := c) (by omega) le
  have not_error : ¬ c < 0 := by omega
  have room := holds.room
  have index := holds.index
  have longer : (line ++ [UInt8.ofInt c]).length = line.length + 1 := by simp
  have stored := Memory.store_mapped Fault.store console.mem (buf + t.i) (UInt8.ofInt c)
    (printed.fit.line placed _ (by omega) (by omega))
  let mem := Memory.set console.mem (buf + t.i) (UInt8.ofInt c)
  have fit' : Fit origin buf { console with mem } := by
    have same (a : Nat) (out : a < buf ∨ buf + buflen ≤ a) :
        mem.value a = console.mem.value a := by
      rw [Memory.set_value, if_neg (by omega)]
    exact printed.fit.store (fun _ => rfl) same
  refine ⟨⟨t.i + 1, { console with mem }⟩,
    by simp [readlineKeyAt, not_error, kept, prints, echo, iscons, ran, stored, mem], ?_,
    ⟨fit', printed.sends⟩⟩
  exact {
    index := by rw [longer, index]
    room := by omega
    held := by
      intro k lt
      rw [longer] at lt
      rw [Memory.set_value, index]
      by_cases last : k = line.length
      next => simp [last]
      next =>
        rw [if_neg (by omega), placed.untouched fit confined k (by omega),
          holds.held k (by omega), List.getD_append _ _ _ _ (by omega)]
    clean := by
      have nonzero := ofInt_nonzero positive le
      simp [holds.clean, nonzero.symm] }

theorem readlineKeyAt_goes {t : Typing} (fit : Fit origin buf t.console) {line : List UInt8}
    (holds : Held buf t line) {c : Int} (editing : Editing c) :
    ∃ t', readlineKeyAt buf c t = .done (.again t') ∧ Held buf t' (keep line c) ∧
      Printed origin buf t.console t'.console (keyEcho line c) := by
  have index := holds.index
  by_cases erases : (c = 8 ∨ c = 0x7f) ∧ 0 < t.i
  next =>
    have erased : (c = 8 ∨ c = 0x7f) ∧ 0 < line.length := index ▸ erases
    rw [keep, keyEcho, if_pos erased, if_pos erased]
    exact readlineKeyAt_erases placed fit holds erases
  have kept : ¬ ((c = 8 ∨ c = 0x7f) ∧ 0 < line.length) := index ▸ erases
  rw [keep, keyEcho, if_neg kept, if_neg kept]
  by_cases prints : 32 ≤ c ∧ t.i < buflen - 1
  next =>
    have printed : 32 ≤ c ∧ line.length < buflen - 1 := index ▸ prints
    rw [if_pos printed, if_pos printed]
    exact readlineKeyAt_prints placed fit holds editing erases prints
  next =>
    obtain ⟨positive, le, not_newline, not_return⟩ := editing
    have not_error : ¬ c < 0 := by omega
    have dropped : ¬ (32 ≤ c ∧ line.length < buflen - 1) := index ▸ prints
    rw [if_neg dropped, if_neg dropped]
    exact ⟨t, by simp [readlineKeyAt, not_error, erases, prints, not_newline, not_return], holds,
      fit, .nil _⟩

theorem readlineKeyAt_ends {t : Typing} (fit : Fit origin buf t.console) {line : List UInt8}
    (holds : Held buf t line) {c : Int} (newline : c = 10 ∨ c = 13) :
    ∃ s', readlineKeyAt buf c t = .done (.leave (some buf, s')) ∧ StringAt s'.mem buf line ∧
      Printed origin buf t.console s' [10] := by
  obtain ⟨console, ran, printed, confined⟩ := cputchar_printed placed fit (c := 10) (by decide)
    (by decide)
  have not_error : ¬ c < 0 := by omega
  have not_erase : ¬ ((c = 8 ∨ c = 0x7f) ∧ 0 < t.i) := by omega
  have not_print : ¬ (32 ≤ c ∧ t.i < buflen - 1) := by omega
  have index := holds.index
  have room := holds.room
  have bound := placed.bound
  have stored := Memory.store_mapped Fault.store console.mem (buf + t.i) 0
    (printed.fit.line placed _ (by omega) (by omega))
  let mem := Memory.set console.mem (buf + t.i) 0
  have fit' : Fit origin buf { console with mem } := by
    have same (a : Nat) (out : a < buf ∨ buf + buflen ≤ a) :
        mem.value a = console.mem.value a := by
      rw [Memory.set_value, if_neg (by omega)]
    exact printed.fit.store (fun _ => rfl) same
  refine ⟨{ console with mem },
    by simp [readlineKeyAt, not_error, not_erase, not_print, newline, echo, iscons, ran, stored, mem],
    ?_,
    ⟨fit', printed.sends⟩⟩
  exact {
    noNul := holds.clean
    chars := by
      intro k lt
      rw [Memory.set_value, if_neg (by omega), placed.untouched fit confined k (by omega),
        holds.held k lt]
    terminated := by simp [mem, index]
    maps := (fit'.line placed).narrow le_rfl (by omega)
    bound := by omega }

end Placed

end JosLab.Monitor
