import JosLab.Kern.ConsoleInput
import JosLab.Shared.RingBuffer
import JosLab.Shared.Trace

set_option autoImplicit false

namespace JosLab

namespace Cons

def put (cons : Cons) (byte : UInt8) : Cons where
  buf := Memory.set cons.buf cons.wpos.toNat byte
  rpos := cons.rpos
  wpos := if cons.wpos + 1 = consbufsize then 0 else cons.wpos + 1

def take (cons : Cons) : Cons :=
  { cons with rpos := if cons.rpos + 1 = consbufsize then 0 else cons.rpos + 1 }

def readable (cons : Cons) : Nat := (cons.wpos.toNat + 512 - cons.rpos.toNat) % 512

structure Shows (cons : Cons) (ring : RingBuffer UInt8 512) : Prop where
  mapped : ∀ i < 512, cons.buf.mapped i = true
  value : ∀ i, cons.buf.value i = ring.slot i
  rpos : cons.rpos.toNat = ring.rpos
  wpos : cons.wpos.toNat = ring.wpos

def emptyRing : RingBuffer UInt8 512 := ⟨fun _ => 0, 0, 0⟩

theorem zero_shows : zero.Shows emptyRing where
  mapped := fun _ lt => decide_eq_true lt
  value := fun _ => rfl
  rpos := rfl
  wpos := rfl

theorem next_toNat (pos : UInt32) (ring : Fin 512) (here : pos.toNat = ring) :
    (if pos + 1 = consbufsize then 0 else pos + 1).toNat = (RingBuffer.next ring).val := by
  have below := ring.isLt
  have one : (pos + 1).toNat = ring + 1 := by
    rw [UInt32.toNat_add, here]
    exact Nat.mod_eq_of_lt (by simp; omega)
  have wraps : pos + 1 = consbufsize ↔ ring.val + 1 = 512 := by
    rw [← UInt32.toNat_inj, one]
    rfl
  rw [RingBuffer.next_val]
  by_cases last : ring.val + 1 = 512
  next =>
    rw [if_pos (wraps.2 last), if_neg (by omega)]
    rfl
  next =>
    rw [if_neg (fun full => last (wraps.1 full)), if_pos (by omega), one]

theorem Shows.put {cons : Cons} {ring : RingBuffer UInt8 512} (shows : cons.Shows ring)
    (byte : UInt8) : (cons.put byte).Shows (ring.push byte) where
  mapped := shows.mapped
  value := by
    intro i
    simp [Cons.put, RingBuffer.push, Function.update_apply, shows.value, shows.wpos]
  rpos := shows.rpos
  wpos := next_toNat _ _ shows.wpos

theorem Shows.puts {cons : Cons} {ring : RingBuffer UInt8 512} (shows : cons.Shows ring)
    (bytes : List UInt8) : (bytes.foldl Cons.put cons).Shows (ring.pushes bytes) := by
  induction bytes generalizing cons ring with
  | nil => exact shows
  | cons byte rest ih => exact ih (shows.put byte)

theorem Shows.take {cons : Cons} {ring : RingBuffer UInt8 512} (shows : cons.Shows ring) :
    cons.take.Shows ring.pop where
  mapped := shows.mapped
  value := shows.value
  rpos := next_toNat _ _ shows.rpos
  wpos := shows.wpos

theorem Shows.readable {cons : Cons} {ring : RingBuffer UInt8 512} (shows : cons.Shows ring) :
    cons.readable = ring.readable := by
  have rpos := ring.rpos.isLt
  have wpos := ring.wpos.isLt
  simp only [Cons.readable, RingBuffer.readable, shows.rpos, shows.wpos, Fin.le_def]
  split <;> omega

theorem Shows.met_iff {cons : Cons} {ring : RingBuffer UInt8 512} (shows : cons.Shows ring) :
    cons.rpos = cons.wpos ↔ ring.rpos = ring.wpos := by
  rw [← UInt32.toNat_inj, Fin.ext_iff, shows.rpos, shows.wpos]

theorem Shows.inside {cons : Cons} {ring : RingBuffer UInt8 512} (shows : cons.Shows ring) :
    cons.rpos < consbufsize ∧ cons.wpos < consbufsize := by
  have rpos := ring.rpos.isLt
  have wpos := ring.wpos.isLt
  simp only [UInt32.lt_iff_toNat_lt, shows.rpos, shows.wpos]
  exact ⟨rpos, wpos⟩

end Cons

namespace Kernel

section Buffer

variable {μ : Type} (proc : μ → Outcome Fault (Int × μ))

def burst : Nat → μ → Outcome Fault (List UInt8 × μ)
  | 0, _ => .spin
  | fuel + 1, machine => do
      let (c, machine) ← proc machine
      if c = -1 then return ([], machine)
      else
        let (bytes, machine) ← burst fuel machine
        return (if c = 0 then bytes else UInt8.ofInt c :: bytes, machine)

theorem consIntr_burst (fuel : Nat) (s : Kernel μ) (ring : RingBuffer UInt8 512)
    (shows : s.cons.Shows ring) :
    consIntr proc fuel s = burst proc fuel s.machine >>= fun delivered =>
      .done ⟨delivered.2, delivered.1.foldl Cons.put s.cons⟩ := by
  induction fuel generalizing s ring with
  | zero => rfl
  | succ fuel ih =>
    cases called : proc s.machine with
    | fault error => simp [consIntr, Loop.run, consIntrPass, burst, called]
    | spin => simp [consIntr, Loop.run, consIntrPass, burst, called]
    | done result =>
      obtain ⟨c, machine⟩ := result
      by_cases finished : c = -1
      next => simp [consIntr, Loop.run, consIntrPass, burst, called, finished]
      by_cases zero : c = 0
      next =>
        have again : Loop.run (consIntrPass proc) (fuel + 1) s =
            Loop.run (consIntrPass proc) fuel ⟨machine, s.cons⟩ :=
          Loop.run_again fuel (by simp [consIntrPass, called, zero])
        have rest := ih ⟨machine, s.cons⟩ ring shows
        rw [consIntr] at rest ⊢
        rw [again, rest]
        simp [burst, called, zero]
      next =>
        have stored := Memory.store_mapped Fault.index s.cons.buf s.cons.wpos.toNat (UInt8.ofInt c)
          (shows.mapped _ (shows.wpos ▸ ring.wpos.isLt))
        have again : Loop.run (consIntrPass proc) (fuel + 1) s =
            Loop.run (consIntrPass proc) fuel ⟨machine, s.cons.put (UInt8.ofInt c)⟩ :=
          Loop.run_again fuel (by simp [consIntrPass, called, finished, zero, stored, Cons.put])
        have rest := ih ⟨machine, s.cons.put (UInt8.ofInt c)⟩ _ (shows.put _)
        rw [consIntr] at rest ⊢
        rw [again, rest]
        simp [burst, called, finished, zero, Outcome.bind_assoc]

def Delivers : Prop := ∀ machine c machine', proc machine = .done (c, machine') → -1 ≤ c ∧ c ≤ 255

theorem burst_nonzero (delivers : Delivers proc) (fuel : Nat) (machine machine' : μ)
    (bytes : List UInt8) (ran : burst proc fuel machine = .done (bytes, machine')) : 0 ∉ bytes := by
  induction fuel generalizing machine bytes with
  | zero => cases ran
  | succ fuel ih =>
    obtain ⟨⟨c, next⟩, called, rest⟩ := (Outcome.bind_eq_done _ _ _).1 ran
    by_cases finished : c = -1
    next =>
      simp only [finished, if_true, Outcome.pure_eq, Outcome.done.injEq, Prod.mk.injEq] at rest
      simp [← rest.1]
    next =>
      simp only [finished, if_false, Outcome.bind_eq_done] at rest
      obtain ⟨⟨later, last⟩, ran_rest, same⟩ := rest
      have clean := ih next later (by
        cases same
        exact ran_rest)
      by_cases zero : c = 0
      next =>
        simp only [zero, if_true, Outcome.pure_eq, Outcome.done.injEq, Prod.mk.injEq] at same
        rw [← same.1]
        exact clean
      next =>
        simp only [zero, if_false, Outcome.pure_eq, Outcome.done.injEq, Prod.mk.injEq] at same
        have range := delivers _ _ _ called
        have nonzero := ofInt_nonzero (by omega) range.2
        rw [← same.1, List.mem_cons, not_or]
        exact ⟨nonzero.symm, clean⟩

end Buffer

end Kernel

-- The bytes a device delivered, with how many were waiting before them, and the value that
-- `cons_getc` returned.
inductive Event where
  | burst (waiting : Nat) (bytes : List UInt8)
  | returned (value : Int)
  deriving DecidableEq, Repr

inductive Call where
  | serialIntr
  | kbdIntr
  | consGetc
  deriving DecidableEq, Repr

namespace Kernel

variable {δ : Type} (inb : Nat → δ → UInt8 × δ)

def burstEvent {μ : Type} (proc : μ → Outcome Fault (Int × μ)) (fuel : Nat) (s : Kernel μ) :
    Outcome Fault Event := do
  let (bytes, _) ← burst proc fuel s.machine
  return .burst s.cons.readable bytes

def serialEvents (fuel : Nat) (s : Kernel (Machine δ)) : Outcome Fault (List Event) :=
  if s.machine.serialExists then do return [← burstEvent (serialProcData inb) fuel s] else return []

def kbdEvents (fuel : Nat) (s : Kernel (Machine δ)) : Outcome Fault (List Event) := do
  return [← burstEvent (Keyboard.kbdProcData inb) fuel s]

def observe (fuel : Nat) (call : Call) (s : Kernel (Machine δ)) :
    Outcome Fault (List Event × Kernel (Machine δ)) := do
  match call with
  | .serialIntr => return (← serialEvents inb fuel s, ← serialIntr inb fuel s)
  | .kbdIntr => return (← kbdEvents inb fuel s, ← kbdIntr inb fuel s)
  | .consGetc =>
      let serial ← serialEvents inb fuel s
      let polled ← serialIntr inb fuel s
      let kbd ← kbdEvents inb fuel polled
      let (value, s) ← consGetc inb fuel s
      return (serial ++ kbd ++ [.returned value], s)

def observeAll (fuel : Nat) : List Call → Kernel (Machine δ) →
    Outcome Fault (List Event × Kernel (Machine δ))
  | [], s => return ([], s)
  | call :: calls, s => do
      let (events, s) ← observe inb fuel call s
      let (rest, s) ← observeAll fuel calls s
      return (events ++ rest, s)

theorem serialProcData_delivers : Delivers (serialProcData inb) := by
  intro machine c machine' called
  simp only [serialProcData, Outcome.pure_eq] at called
  split at called
  next =>
    cases called
    decide
  next =>
    cases called
    have below := UInt8.toNat_lt (Keyboard.inPort inb (0x3F8 + 0)
      (Keyboard.inPort inb (0x3F8 + 5) machine).2).1
    omega

theorem kbdProcData_delivers : Delivers (Keyboard.kbdProcData inb) :=
  fun _ _ _ called => Keyboard.kbdProcData_byte inb called

end Kernel

inductive QueueStep : RingBuffer UInt8 512 → Event → RingBuffer UInt8 512 → Prop where
  | burst (ring : RingBuffer UInt8 512) (bytes : List UInt8) (nonzero : 0 ∉ bytes) :
      QueueStep ring (.burst ring.readable bytes) (ring.pushes bytes)
  | taken (ring : RingBuffer UInt8 512) (waiting : ring.rpos ≠ ring.wpos) :
      QueueStep ring (.returned (ring.slot ring.rpos).toNat) ring.pop
  | empty (ring : RingBuffer UInt8 512) (met : ring.rpos = ring.wpos) :
      QueueStep ring (.returned 0) ring

def Recorded (events : List Event) (cons : Cons) : Prop :=
  ∃ ring, Trace QueueStep Cons.emptyRing events ring ∧ cons.Shows ring

namespace Kernel

theorem consIntr_recorded {μ : Type} {proc : μ → Outcome Fault (Int × μ)} (delivers : Delivers proc)
    {fuel : Nat} {s s' : Kernel μ} {past : List Event} {event : Event}
    (recorded : Recorded past s.cons) (ran : consIntr proc fuel s = .done s')
    (seen : burstEvent proc fuel s = .done event) : Recorded (past ++ [event]) s'.cons := by
  obtain ⟨ring, trace, shows⟩ := recorded
  obtain ⟨⟨bytes, machine⟩, delivered, same⟩ := (Outcome.bind_eq_done _ _ _).1 seen
  rw [consIntr_burst proc fuel s ring shows, delivered] at ran
  cases ran
  cases same
  rw [shows.readable]
  exact ⟨_, trace.snoc (.burst ring bytes (burst_nonzero proc delivers _ _ _ _ delivered)),
    shows.puts bytes⟩

variable {δ : Type} (inb : Nat → δ → UInt8 × δ)

theorem serialIntr_recorded {fuel : Nat} {s s' : Kernel (Machine δ)} {past events : List Event}
    (recorded : Recorded past s.cons) (ran : serialIntr inb fuel s = .done s')
    (seen : serialEvents inb fuel s = .done events) : Recorded (past ++ events) s'.cons := by
  unfold serialIntr at ran
  unfold serialEvents at seen
  by_cases attached : s.machine.serialExists
  next =>
    simp only [attached, if_true] at ran seen
    obtain ⟨event, watched, same⟩ := (Outcome.bind_eq_done _ _ _).1 seen
    cases same
    exact consIntr_recorded (serialProcData_delivers inb) recorded ran watched
  next =>
    simp only [attached] at ran seen
    cases ran
    cases seen
    rw [List.append_nil]
    exact recorded

theorem kbdIntr_recorded {fuel : Nat} {s s' : Kernel (Machine δ)} {past events : List Event}
    (recorded : Recorded past s.cons) (ran : kbdIntr inb fuel s = .done s')
    (seen : kbdEvents inb fuel s = .done events) : Recorded (past ++ events) s'.cons := by
  obtain ⟨event, watched, same⟩ := (Outcome.bind_eq_done _ _ _).1 seen
  cases same
  exact consIntr_recorded (kbdProcData_delivers inb) recorded ran watched

theorem grab_met {μ : Type} {s : Kernel μ} (met : s.cons.rpos = s.cons.wpos) :
    grab s = .done (0, s) := by
  simp [grab, met]

theorem grab_waiting {μ : Type} {s : Kernel μ} {ring : RingBuffer UInt8 512}
    (shows : s.cons.Shows ring) (waiting : ring.rpos ≠ ring.wpos) :
    grab s = .done ((ring.slot ring.rpos).toNat, ⟨s.machine, s.cons.take⟩) := by
  have apart : s.cons.rpos ≠ s.cons.wpos := fun met => waiting (shows.met_iff.1 met)
  have loaded := Memory.load_mapped Fault.index s.cons.buf s.cons.rpos.toNat
    (shows.mapped _ (shows.rpos ▸ ring.rpos.isLt))
  rw [shows.value, shows.rpos] at loaded
  simp [grab, apart, shows.rpos, loaded, Cons.take]

theorem grab_recorded {μ : Type} {s : Kernel μ} {past : List Event} (recorded : Recorded past s.cons) :
    ∃ value cons, grab s = .done (value, ⟨s.machine, cons⟩) ∧
      Recorded (past ++ [.returned value]) cons := by
  obtain ⟨ring, trace, shows⟩ := recorded
  by_cases met : ring.rpos = ring.wpos
  next =>
    exact ⟨0, s.cons, grab_met (shows.met_iff.2 met), ring, trace.snoc (.empty ring met), shows⟩
  next =>
    exact ⟨_, s.cons.take, grab_waiting shows met, ring.pop, trace.snoc (.taken ring met),
      shows.take⟩

theorem observe_recorded {fuel : Nat} {call : Call} {s s' : Kernel (Machine δ)}
    {past events : List Event} (recorded : Recorded past s.cons)
    (ran : observe inb fuel call s = .done (events, s')) : Recorded (past ++ events) s'.cons := by
  cases call with
  | serialIntr =>
    simp only [observe, Outcome.bind_eq_done] at ran
    obtain ⟨seen, watched, after, called, same⟩ := ran
    cases same
    exact serialIntr_recorded inb recorded called watched
  | kbdIntr =>
    simp only [observe, Outcome.bind_eq_done] at ran
    obtain ⟨seen, watched, after, called, same⟩ := ran
    cases same
    exact kbdIntr_recorded inb recorded called watched
  | consGetc =>
    simp only [observe, Outcome.bind_eq_done] at ran
    obtain ⟨serial, serial_seen, polled, serial_ran, kbd, kbd_seen, ⟨value, last⟩, got, same⟩ := ran
    cases same
    simp only [consGetc, serial_ran, Outcome.done_bind, Outcome.bind_eq_done] at got
    obtain ⟨ready, kbd_ran, grabbed⟩ := got
    have after_serial := serialIntr_recorded inb recorded serial_ran serial_seen
    have after_kbd := kbdIntr_recorded inb after_serial kbd_ran kbd_seen
    obtain ⟨value, cons, grab, after⟩ := grab_recorded after_kbd
    rw [grab] at grabbed
    cases grabbed
    simpa only [List.append_assoc] using after

theorem observeAll_recorded {fuel : Nat} {calls : List Call} {s s' : Kernel (Machine δ)}
    {past events : List Event} (recorded : Recorded past s.cons)
    (ran : observeAll inb fuel calls s = .done (events, s')) :
    Recorded (past ++ events) s'.cons := by
  induction calls generalizing s past events with
  | nil =>
    cases ran
    rw [List.append_nil]
    exact recorded
  | cons call calls ih =>
    simp only [observeAll, Outcome.bind_eq_done] at ran
    obtain ⟨⟨first, middle⟩, called, ⟨rest, last⟩, ran_rest, same⟩ := ran
    cases same
    rw [← List.append_assoc]
    exact ih (observe_recorded inb recorded called) ran_rest

theorem observeAll_zero {fuel : Nat} {calls : List Call} {machine : Machine δ}
    {events : List Event} {s : Kernel (Machine δ)}
    (ran : observeAll inb fuel calls ⟨machine, Cons.zero⟩ = .done (events, s)) :
    Recorded events s.cons := by
  have start : Recorded [] (⟨machine, Cons.zero⟩ : Kernel (Machine δ)).cons :=
    ⟨Cons.emptyRing, .nil, Cons.zero_shows⟩
  exact observeAll_recorded inb start ran

end Kernel

end JosLab
