import JosLab.Kern.InputQueue
import JosLab.Kern.KernelCommands

set_option autoImplicit false

namespace JosLab

open Console Monitor Readline

namespace Kernel

def Polls {μ : Type} (inv : μ → Prop) (proc : μ → Outcome Fault (Int × μ)) : Prop :=
  ∀ machine, inv machine →
    Outcome.Safe (fun result => (-1 ≤ result.1 ∧ result.1 ≤ 255) ∧ inv result.2) (proc machine)

structure Sound {μ : Type} (inv : μ → Prop) (k : Kernel μ) : Prop where
  ring : ∃ ring, k.cons.Shows ring
  machine : inv k.machine

theorem consIntr_safe {μ : Type} {inv : μ → Prop} {proc : μ → Outcome Fault (Int × μ)}
    (polls : Polls inv proc) (fuel : Nat) (k : Kernel μ) (sound : Sound inv k) :
    Outcome.Safe (Sound inv) (consIntr proc fuel k) := by
  apply Loop.run_safe (Sound inv) (Sound inv) ?_ fuel k sound
  rintro ⟨machine, cons⟩ ⟨⟨ring, shows⟩, holds⟩
  apply (polls machine holds).bind
  rintro ⟨c, machine'⟩ ⟨-, holds'⟩
  by_cases finished : c = -1
  next =>
    simp only [finished, if_true]
    exact ⟨⟨ring, shows⟩, holds'⟩
  by_cases zero : c = 0
  next =>
    simp only [zero, if_true]
    exact ⟨⟨ring, shows⟩, holds'⟩
  next =>
    have stored := Memory.store_mapped Fault.index cons.buf cons.wpos.toNat (UInt8.ofInt c)
      (shows.mapped _ (shows.wpos ▸ ring.wpos.isLt))
    simp only [finished, zero, if_false, stored, Outcome.done_bind]
    exact ⟨⟨_, shows.put (UInt8.ofInt c)⟩, holds'⟩

theorem grab_safe {μ : Type} {inv : μ → Prop} {k : Kernel μ} (sound : Sound inv k) :
    Outcome.Safe (fun result => (0 ≤ result.1 ∧ result.1 ≤ 255) ∧ Sound inv result.2) (grab k) := by
  obtain ⟨⟨ring, shows⟩, holds⟩ := sound
  by_cases met : ring.rpos = ring.wpos
  next =>
    rw [grab_met (shows.met_iff.2 met)]
    exact ⟨⟨le_rfl, by simp⟩, ⟨ring, shows⟩, holds⟩
  next =>
    have below := (ring.slot ring.rpos).toNat_lt
    rw [grab_waiting shows met]
    exact ⟨by simp only; omega, ⟨_, shows.take⟩, holds⟩

section Devices

variable {δ : Type} (inb : Nat → δ → UInt8 × δ) {origin : Console}

def Ready (origin : Console) (m : Machine δ) : Prop := Steady origin m.console

theorem serialProcData_polls : Polls (Ready origin) (serialProcData inb) := by
  intro m ready
  by_cases none : (Keyboard.inPort inb (0x3F8 + 5) m).1 &&& 0x01 = 0
  next =>
    simp only [serialProcData, none, if_true]
    exact ⟨⟨le_rfl, by simp⟩, ready⟩
  next =>
    have below := UInt8.toNat_lt (Keyboard.inPort inb (0x3F8 + 0)
      (Keyboard.inPort inb (0x3F8 + 5) m).2).1
    simp only [serialProcData, none, if_false]
    exact ⟨by simp only; omega, ready⟩

section Printing

variable (maps : origin.mem.Maps origin.crtBuf (origin.crtBuf + 4000))

include maps

theorem finish_safe {m : Machine δ} (c : Int) (ready : Ready origin m) :
    Outcome.Safe (fun result => Ready origin result.2) (Keyboard.finish c m) := by
  by_cases reboot : ~~~m.shift &&& (Keyboard.ctl ||| Keyboard.alt).toUInt32 = 0 ∧
      c = Keyboard.keyDel.toNat
  next =>
    obtain ⟨onScreen, p, shown⟩ := ready
    have enough : Printfmt.Consumes (Printfmt.demand .text Keyboard.rebooting.bytes) [] [] := .nil []
    obtain ⟨console, p', ran, onScreen', shown'⟩ := cprintf_shows enough shown onScreen maps
    simp only [Keyboard.finish, if_pos reboot, ran, Outcome.done_bind]
    exact ⟨onScreen', p', shown'.outb 0x92 0x3⟩
  next =>
    simp only [Keyboard.finish, if_neg reboot]
    exact ready

theorem press_safe {m : Machine δ} (data : UInt8) (ready : Ready origin m) :
    Outcome.Safe (fun result => Ready origin result.2) (Keyboard.press data m) :=
  finish_safe maps _ ready

theorem kbdProcData_ready {m : Machine δ} (ready : Ready origin m) :
    Outcome.Safe (fun result => Ready origin result.2) (Keyboard.kbdProcData inb m) := by
  unfold Keyboard.kbdProcData
  dsimp only
  split
  next => exact ready
  split
  next => exact ready
  split
  next => exact ready
  split
  next => exact ready
  split
  next => exact press_safe maps _ ready
  next => exact press_safe maps _ ready

theorem kbdProcData_polls : Polls (Ready origin) (Keyboard.kbdProcData inb) := by
  intro m ready
  have safe := kbdProcData_ready inb maps ready
  cases called : Keyboard.kbdProcData inb m with
  | done result =>
    rw [called] at safe
    exact ⟨Keyboard.kbdProcData_byte inb called, safe⟩
  | fault error =>
    rw [called] at safe
    exact safe
  | spin => trivial

variable {k : Kernel (Machine δ)}

theorem consGetc_safe (fuel : Nat) (sound : Sound (Ready origin) k) :
    Outcome.Safe (fun result => (0 ≤ result.1 ∧ result.1 ≤ 255) ∧ Sound (Ready origin) result.2)
      (consGetc inb fuel k) := by
  have serial : Outcome.Safe (Sound (Ready origin)) (serialIntr inb fuel k) := by
    unfold serialIntr
    split
    next => exact consIntr_safe (serialProcData_polls inb) fuel k sound
    next => exact sound
  apply serial.bind
  intro polled polled_sound
  apply (consIntr_safe (kbdProcData_polls inb maps) fuel polled polled_sound).bind
  intro ready ready_sound
  exact grab_safe ready_sound

theorem getchar_safe (fuel : Nat) (sound : Sound (Ready origin) k) :
    Outcome.Safe (fun result => (1 ≤ result.1 ∧ result.1 ≤ 255) ∧ Sound (Ready origin) result.2)
      (getchar inb fuel k) := by
  apply Loop.run_safe (Sound (Ready origin)) _ ?_ fuel k sound
  intro k sound
  apply (consGetc_safe inb maps fuel sound).bind
  rintro ⟨c, k'⟩ ⟨range, sound'⟩
  by_cases zero : c = 0
  next =>
    simp only [zero, if_true]
    exact sound'
  next =>
    simp only [zero, if_false]
    simp only at range
    exact ⟨by simp only; omega, sound'⟩

end Printing

end Devices

end Kernel

namespace Monitor

def Delivering {κ : Type} (sound : κ → Prop)
    (getchar : κ → Console → Outcome Fault (Int × κ × Console)) : Prop :=
  ∀ source s, sound source → s.crtPos < crtSize → s.mem.Maps s.crtBuf (s.crtBuf + 4000) →
    Outcome.Safe (fun result => (1 ≤ result.1 ∧ result.1 ≤ 255) ∧ sound result.2.1 ∧
      Steady s result.2.2) (getchar source s)

theorem getchar_delivering {δ : Type} (inb : Nat → δ → UInt8 × δ) (fuel : Nat) :
    Delivering (fun inputs : Inputs δ => ∃ ring, inputs.cons.Shows ring)
      (Inputs.getchar inb fuel) := by
  intro inputs s ⟨ring, shows⟩ onScreen maps
  have sound : Kernel.Sound (Kernel.Ready s) (inputs.kernel s) :=
    ⟨⟨ring, shows⟩, onScreen, _, paper_shown s⟩
  apply (Kernel.getchar_safe inb maps fuel sound).bind
  rintro ⟨c, k⟩ ⟨range, ring', ready⟩
  exact ⟨range, ring', ready⟩

section Source

variable {κ : Type} {origin : Console} {buf : Nat} {sound : κ → Prop}
  {getchar : κ → Console → Outcome Fault (Int × κ × Console)}
  (placed : Placed origin buf) (delivering : Delivering sound getchar)

include placed delivering

theorem read_safe (fuel : Nat) {source : κ} {t : Typing} {line : List UInt8} (holds : Held buf t line)
    (fit : Fit origin buf t.console) (start : sound source) :
    Outcome.Safe (fun result => result.1 = some buf ∧ sound result.2.1 ∧
      Fit origin buf result.2.2 ∧
      ∃ line, line.length < buflen ∧ StringAt result.2.2.mem buf line)
      (Loop.run (readPass getchar buf) fuel (source, t)) := by
  apply Loop.run_safe (fun state => sound state.1 ∧ Fit origin buf state.2.console ∧
    ∃ line, Held buf state.2 line) _ ?_ fuel (source, t) ⟨start, fit, line, holds⟩
  rintro ⟨source, t⟩ ⟨start, fit, line, holds⟩
  apply (delivering source t.console start fit.onScreen (fit.screen placed)).bind
  rintro ⟨c, source', console⟩ ⟨⟨positive, le⟩, start', onScreen, p, shown⟩
  have fit' : Fit origin buf console := fit.confined shown.adapter onScreen shown.confined
  have holds' : Held buf { t with console } line := {
    index := holds.index
    room := holds.room
    held := by
      intro k lt
      have room := holds.room
      rw [placed.untouched fit shown.confined k (by omega), holds.held k lt]
    clean := holds.clean }
  by_cases newline : c = 10 ∨ c = 13
  next =>
    obtain ⟨s', ended, stored, printed⟩ :=
      readlineKeyAt_ends placed (t := { t with console }) fit' holds'
      newline
    simp only [ended, Outcome.done_bind]
    exact ⟨rfl, start', printed.fit, line, holds.room, stored⟩
  next =>
    have editing : Editing c := by
      simp only at positive le
      unfold Editing
      omega
    obtain ⟨t', went, kept, printed⟩ :=
      readlineKeyAt_goes placed (t := { t with console }) fit' holds'
      editing
    simp only [went, Outcome.done_bind]
    exact ⟨start', printed.fit, _, kept⟩

variable {func : Command → Nat → Argv → Nat → Console → Outcome Fault (Int × Console)}
  (harmless : Harmless origin buf func) (junk : κ → Console → Nat → Nat) (fuel tf : Nat)

include harmless

theorem monitorPass_safe {source : κ} {s : Console} (start : sound source)
    (fit : Fit origin buf s) :
    Outcome.Safe (Pass.Either (fun state => sound state.1 ∧ Fit origin buf state.2)
      fun _ => False) (monitorPass getchar buf func junk fuel tf (source, s)) := by
  obtain ⟨shown, prompted, printed⟩ := showPrompt_printed placed fit
  have read := read_safe placed delivering fuel (Held.start buf shown) printed.fit start
  simp only [monitorPass, readline, prompted, Outcome.done_bind]
  apply read.bind
  rintro ⟨line, source', console⟩ ⟨at_buf, start', fit', line', room, stored⟩
  simp only at at_buf start' fit' stored
  obtain ⟨rc, s', replied, nonneg, kept⟩ :=
    runcmd_harmless (junk source' console) placed fit' stored room harmless tf
  rw [at_buf]
  simp only [replied, Outcome.done_bind, not_lt.2 nonneg, if_false]
  exact ⟨start', kept⟩

theorem monitor_safe (lines : Nat) {source : κ} {s : Console} (start : sound source)
    (fit : Fit origin buf s) :
    Outcome.Safe (fun _ => False) (monitor getchar buf func junk fuel lines tf source s) := by
  obtain ⟨greeted, first, welcomed⟩ := cprintf_plain placed fit (f := welcome) (by decide) []
  obtain ⟨ready, second, helped⟩ :=
    cprintf_plain placed welcomed.fit (f := typeHelp) (by decide) []
  simp only [monitor, first, second, Outcome.done_bind]
  apply Loop.run_safe (fun state => sound state.1 ∧ Fit origin buf state.2) _ ?_ lines _
    ⟨start, helped.fit⟩
  rintro ⟨source, s⟩ ⟨start, fit⟩
  exact monitorPass_safe placed delivering harmless junk fuel tf start fit

end Source

theorem monitor_endless {δ : Type} (inb : Nat → δ → UInt8 × δ) {origin : Console} {buf : Nat}
    (placed : Placed origin buf) (onScreen : origin.crtPos < crtSize) (link : Symbols)
    {tables : Kdebug.DebugTables} {ebp : UInt32} {frames : List Frame}
    (stack : Stack origin buf tables ebp frames) (walk : Nat) (enough : frames.length < walk)
    (inputs : Inputs δ) {ring : RingBuffer UInt8 512} (shows : inputs.cons.Shows ring)
    (junk : Inputs δ → Console → Nat → Nat) (polls fuel lines tf : Nat) :
    monitor (Inputs.getchar inb polls) buf (func link tables walk ebp) junk fuel lines tf inputs
      origin = .spin :=
  (monitor_safe placed (getchar_delivering inb polls)
    (func_harmless placed link tables walk ebp stack enough) junk fuel tf lines ⟨ring, shows⟩
    (Fit.refl buf onScreen)).spins

theorem floating_endless :
    monitor (Inputs.getchar (fun _ (d : Unit) => (0xff, d)) 9) 0x2000
      (func someSymbols Kdebug.sampleTables 2 stackedFrame.ebp) (fun _ _ _ => 7) 9 9 0
      ⟨(), true, 0, Cons.zero⟩ stacked = .spin :=
  monitor_endless _ stacked_placed (by decide) someSymbols stacked_stack 2 (by decide) _
    Cons.zero_shows _ 9 9 9 0

end Monitor

end JosLab
