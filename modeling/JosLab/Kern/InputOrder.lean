import JosLab.Kern.InputQueue

set_option autoImplicit false

namespace JosLab.Kernel

def delivered (events : List Event) : List UInt8 :=
  events.flatMap fun
    | .burst _ bytes => bytes
    | .returned _ => []

def answers (events : List Event) : List Int :=
  events.filterMap fun
    | .burst .. => none
    | .returned value => if value = 0 then none else some value

def values (bytes : List UInt8) : List Int := bytes.map fun byte => byte.toNat

def KeptUp (events : List Event) : Prop :=
  ∀ past, past <+: events → (delivered past).length ≤ (answers past).length + 511

@[simp] theorem delivered_burst (events : List Event) (waiting : Nat) (bytes : List UInt8) :
    delivered (events ++ [.burst waiting bytes]) = delivered events ++ bytes := by
  simp [delivered]

@[simp] theorem delivered_returned (events : List Event) (value : Int) :
    delivered (events ++ [.returned value]) = delivered events := by
  simp [delivered]

@[simp] theorem answers_burst (events : List Event) (waiting : Nat) (bytes : List UInt8) :
    answers (events ++ [.burst waiting bytes]) = answers events := by
  simp [answers]

@[simp] theorem answers_zero (events : List Event) :
    answers (events ++ [.returned 0]) = answers events := by
  simp [answers]

theorem answers_nonzero (events : List Event) (value : Int) (nonzero : value ≠ 0) :
    answers (events ++ [.returned value]) = answers events ++ [value] := by
  simp [answers, nonzero]

theorem values_append (a b : List UInt8) : values (a ++ b) = values a ++ values b :=
  List.map_append

theorem values_length (bytes : List UInt8) : (values bytes).length = bytes.length :=
  List.length_map _

theorem values_inj {a b : List UInt8} : values a = values b ↔ a = b :=
  List.map_inj_right fun _ _ same => UInt8.toNat_inj.1 (Int.ofNat_inj.1 same)

theorem byte_nonzero {byte : UInt8} (nonzero : byte ≠ 0) : (byte.toNat : Int) ≠ 0 := by
  intro zero
  exact nonzero (UInt8.toNat_inj.1 (Int.ofNat_inj.1 zero))

theorem slot_nonzero {ring : RingBuffer UInt8 512} {written read : List UInt8}
    (reads : ring.Reads written read) (clean : 0 ∉ written) (waiting : ring.rpos ≠ ring.wpos) :
    ring.slot ring.rpos ≠ 0 := by
  obtain ⟨first, holds, -⟩ := reads
  have member := List.mem_of_getElem? (holds.pop waiting).1
  intro zero
  rw [zero] at member
  exact clean member

theorem emptyRing_holds : Cons.emptyRing.Holds [] 0 where
  reached := le_rfl
  near := Nat.zero_lt_succ _
  rpos := rfl
  wpos := rfl
  slots := fun i _ lt => absurd lt (Nat.not_lt_zero i)

theorem trace_reads {events : List Event} {ring : RingBuffer UInt8 512}
    (trace : Trace QueueStep Cons.emptyRing events ring) :
    0 ∉ delivered events ∧
      ∃ read, answers events = values read ∧ ring.Reads (delivered events) read := by
  induction trace with
  | nil =>
    exact ⟨by simp [delivered], [], rfl, 0, emptyRing_holds, .slnil⟩
  | @snoc events event ring ring' past stepped ih =>
    obtain ⟨clean, read, answered, reads⟩ := ih
    cases stepped with
    | burst bytes nonzero =>
      rw [delivered_burst, answers_burst]
      exact ⟨by simp [clean, nonzero], read, answered, reads.pushes bytes⟩
    | taken waiting =>
      have nonzero := slot_nonzero reads clean waiting
      rw [delivered_returned, answers_nonzero _ _ (byte_nonzero nonzero), answered]
      exact ⟨clean, read ++ [ring.slot ring.rpos], (values_append read [_]).symm, reads.pop waiting⟩
    | empty met =>
      rw [delivered_returned, answers_zero]
      exact ⟨clean, read, answered, reads⟩

theorem KeptUp.before {events past : List Event} (kept : KeptUp events) (leads : past <+: events) :
    KeptUp past :=
  fun early early_leads => kept early (early_leads.trans leads)

theorem trace_keepsUp {events : List Event} {ring : RingBuffer UInt8 512}
    (trace : Trace QueueStep Cons.emptyRing events ring) (kept : KeptUp events) :
    ∃ read, answers events = values read ∧ ring.KeepsUp (delivered events) read := by
  induction trace with
  | nil => exact ⟨[], rfl, emptyRing_holds, rfl⟩
  | @snoc events event ring ring' past stepped ih =>
    obtain ⟨read, answered, keeps⟩ := ih (kept.before (List.prefix_append ..))
    have room := kept _ (List.prefix_refl _)
    cases stepped with
    | burst bytes nonzero =>
      rw [delivered_burst, answers_burst, answered, values_length, List.length_append] at room
      rw [delivered_burst, answers_burst]
      exact ⟨read, answered, keeps.pushes bytes (by omega)⟩
    | taken waiting =>
      obtain ⟨clean, read', -, reads⟩ := trace_reads past
      have nonzero := slot_nonzero reads clean waiting
      rw [delivered_returned, answers_nonzero _ _ (byte_nonzero nonzero), answered]
      exact ⟨read ++ [ring.slot ring.rpos], (values_append read [_]).symm, keeps.pop waiting⟩
    | empty met =>
      rw [delivered_returned, answers_zero]
      exact ⟨read, answered, keeps⟩

theorem trace_ordered {events : List Event} {ring : RingBuffer UInt8 512}
    (trace : Trace QueueStep Cons.emptyRing events ring) :
    (answers events).Sublist (values (delivered events)) := by
  obtain ⟨-, read, answered, reads⟩ := trace_reads trace
  rw [answered]
  exact reads.sublist.map _

theorem trace_prefix {events : List Event} {ring : RingBuffer UInt8 512}
    (trace : Trace QueueStep Cons.emptyRing events ring) (kept : KeptUp events) :
    answers events <+: values (delivered events) := by
  obtain ⟨read, answered, keeps⟩ := trace_keepsUp trace kept
  rw [answered]
  exact keeps.prefix.map _

theorem trace_zero {events : List Event} {ring : RingBuffer UInt8 512} {value : Int}
    (trace : Trace QueueStep Cons.emptyRing (events ++ [.returned value]) ring)
    (kept : KeptUp (events ++ [.returned value])) :
    value = 0 ↔ answers events = values (delivered events) := by
  obtain ⟨before, past, stepped⟩ := trace.last
  obtain ⟨read, answered, keeps⟩ := trace_keepsUp past (kept.before (List.prefix_append ..))
  rw [answered, values_inj, ← keeps.empty_iff]
  cases stepped with
  | taken waiting =>
    obtain ⟨clean, read', -, reads⟩ := trace_reads past
    have nonzero := byte_nonzero (slot_nonzero reads clean waiting)
    exact ⟨fun zero => absurd zero nonzero, fun met => absurd met waiting⟩
  | empty met => simp [met]

section Polled

variable {δ : Type} (inb : Nat → δ → UInt8 × δ) (fuel : Nat)

def serialBurst (machine : Machine δ) : Outcome Fault (List UInt8 × Machine δ) :=
  if machine.serialExists then burst (serialProcData inb) fuel machine else return ([], machine)

-- The device's side of a call: every burst that it asks for, whatever becomes of the bytes.
def polled (call : Call) (machine : Machine δ) : Outcome Fault (Machine δ) := do
  match call with
  | .serialIntr => return (← serialBurst inb fuel machine).2
  | .kbdIntr => return (← burst (Keyboard.kbdProcData inb) fuel machine).2
  | .consGetc =>
      let (_, machine) ← serialBurst inb fuel machine
      return (← burst (Keyboard.kbdProcData inb) fuel machine).2

def polledAll : List Call → Machine δ → Outcome Fault (Machine δ)
  | [], machine => return machine
  | call :: calls, machine => do polledAll calls (← polled inb fuel call machine)

variable {inb fuel} {s : Kernel (Machine δ)} {ring : RingBuffer UInt8 512}

theorem serialIntr_burst (shows : s.cons.Shows ring) :
    serialIntr inb fuel s = serialBurst inb fuel s.machine >>= fun delivered =>
      .done ⟨delivered.2, delivered.1.foldl Cons.put s.cons⟩ := by
  unfold serialIntr serialBurst
  by_cases attached : s.machine.serialExists
  next =>
    simp only [attached, if_true]
    exact consIntr_burst (serialProcData inb) fuel s ring shows
  next =>
    simp only [attached]
    rfl

theorem kbdIntr_burst (shows : s.cons.Shows ring) :
    kbdIntr inb fuel s = burst (Keyboard.kbdProcData inb) fuel s.machine >>= fun delivered =>
      .done ⟨delivered.2, delivered.1.foldl Cons.put s.cons⟩ :=
  consIntr_burst (Keyboard.kbdProcData inb) fuel s ring shows

theorem serialEvents_burst {bytes : List UInt8} {machine : Machine δ}
    (ended : serialBurst inb fuel s.machine = .done (bytes, machine)) :
    ∃ events, serialEvents inb fuel s = .done events := by
  unfold serialEvents
  unfold serialBurst at ended
  by_cases attached : s.machine.serialExists
  next =>
    simp only [attached, if_true] at ended ⊢
    exact ⟨_, by rw [burstEvent, ended]; rfl⟩
  next =>
    simp only [attached]
    exact ⟨[], rfl⟩

theorem kbdEvents_burst {bytes : List UInt8} {machine : Machine δ}
    (ended : burst (Keyboard.kbdProcData inb) fuel s.machine = .done (bytes, machine)) :
    kbdEvents inb fuel s = .done [.burst s.cons.readable bytes] := by
  rw [kbdEvents, burstEvent, ended]
  rfl

theorem observe_ends {call : Call} {machine : Machine δ} {past : List Event}
    (recorded : Recorded past s.cons) (ended : polled inb fuel call s.machine = .done machine) :
    ∃ events cons, observe inb fuel call s = .done (events, ⟨machine, cons⟩) := by
  obtain ⟨ring, trace, shows⟩ := recorded
  cases call with
  | serialIntr =>
    simp only [polled, Outcome.bind_eq_done] at ended
    obtain ⟨⟨bytes, machine⟩, serial, same⟩ := ended
    cases same
    obtain ⟨events, seen⟩ := serialEvents_burst serial
    refine ⟨events, bytes.foldl Cons.put s.cons, ?_⟩
    rw [observe, seen, serialIntr_burst shows, serial]
    rfl
  | kbdIntr =>
    simp only [polled, Outcome.bind_eq_done] at ended
    obtain ⟨⟨bytes, machine⟩, kbd, same⟩ := ended
    cases same
    refine ⟨[.burst s.cons.readable bytes], bytes.foldl Cons.put s.cons, ?_⟩
    rw [observe, kbdEvents_burst kbd, kbdIntr_burst shows, kbd]
    rfl
  | consGetc =>
    simp only [polled, Outcome.bind_eq_done] at ended
    obtain ⟨⟨bytes, middle⟩, serial, ⟨bytes', machine⟩, kbd, same⟩ := ended
    cases same
    obtain ⟨events, seen⟩ := serialEvents_burst serial
    have first : serialIntr inb fuel s = .done ⟨middle, bytes.foldl Cons.put s.cons⟩ := by
      rw [serialIntr_burst shows, serial]
      rfl
    have shows' := shows.puts bytes
    have second : kbdIntr inb fuel ⟨middle, bytes.foldl Cons.put s.cons⟩ =
        .done ⟨machine, bytes'.foldl Cons.put (bytes.foldl Cons.put s.cons)⟩ := by
      rw [kbdIntr_burst shows', kbd]
      rfl
    have third := serialIntr_recorded inb ⟨ring, trace, shows⟩ first seen
    have watched : kbdEvents inb fuel ⟨middle, bytes.foldl Cons.put s.cons⟩ =
        .done [.burst (bytes.foldl Cons.put s.cons).readable bytes'] := kbdEvents_burst kbd
    have fourth := kbdIntr_recorded inb third second watched
    obtain ⟨value, cons, grabbed, -⟩ := grab_recorded
      (s := ⟨machine, bytes'.foldl Cons.put (bytes.foldl Cons.put s.cons)⟩) fourth
    refine ⟨events ++ [.burst (bytes.foldl Cons.put s.cons).readable bytes'] ++ [.returned value],
      cons, ?_⟩
    simp only [observe, seen, first, watched, consGetc, second, grabbed, Outcome.done_bind]
    rfl

-- An interrupt that has returned has been through its device's burst.
theorem burst_ended {μ : Type} {run : Outcome Fault (Kernel μ)}
    {delivery : Outcome Fault (List UInt8 × μ)} {cons : Cons} {s' : Kernel μ}
    (pours : run = delivery >>= fun delivered =>
      .done ⟨delivered.2, delivered.1.foldl Cons.put cons⟩) (ran : run = .done s') :
    ∃ bytes, delivery = .done (bytes, s'.machine) ∧ s'.cons = bytes.foldl Cons.put cons := by
  rw [pours, Outcome.bind_eq_done] at ran
  obtain ⟨⟨bytes, machine⟩, ended, same⟩ := ran
  cases same
  exact ⟨bytes, ended, rfl⟩

theorem grab_machine {μ : Type} {value : Int} {s s' : Kernel μ}
    (ran : grab s = .done (value, s')) : s'.machine = s.machine := by
  unfold grab at ran
  dsimp only at ran
  split at ran
  next =>
    obtain ⟨c, -, same⟩ := (Outcome.bind_eq_done _ _ _).1 ran
    cases same
    rfl
  next =>
    cases ran
    rfl

theorem observe_polled {call : Call} {events : List Event} {s' : Kernel (Machine δ)}
    (shows : s.cons.Shows ring) (ran : observe inb fuel call s = .done (events, s')) :
    polled inb fuel call s.machine = .done s'.machine := by
  cases call with
  | serialIntr =>
    simp only [observe, Outcome.bind_eq_done] at ran
    obtain ⟨seen, -, after, called, same⟩ := ran
    cases same
    obtain ⟨bytes, ended, -⟩ := burst_ended (serialIntr_burst shows) called
    rw [polled, ended]
    rfl
  | kbdIntr =>
    simp only [observe, Outcome.bind_eq_done] at ran
    obtain ⟨seen, -, after, called, same⟩ := ran
    cases same
    obtain ⟨bytes, ended, -⟩ := burst_ended (kbdIntr_burst shows) called
    rw [polled, ended]
    rfl
  | consGetc =>
    simp only [observe, Outcome.bind_eq_done] at ran
    obtain ⟨serial, -, middle, serial_ran, kbd, -, ⟨value, last⟩, got, same⟩ := ran
    cases same
    simp only [consGetc, serial_ran, Outcome.done_bind, Outcome.bind_eq_done] at got
    obtain ⟨ready, kbd_ran, grabbed⟩ := got
    obtain ⟨bytes, ended, poured⟩ := burst_ended (serialIntr_burst shows) serial_ran
    have shows' : middle.cons.Shows (ring.pushes bytes) := poured ▸ shows.puts bytes
    obtain ⟨bytes', ended', -⟩ := burst_ended (kbdIntr_burst shows') kbd_ran
    simp [polled, ended, ended', grab_machine grabbed]

theorem observeAll_ends (calls : List Call) {past : List Event} (recorded : Recorded past s.cons)
    (machine : Machine δ) :
    polledAll inb fuel calls s.machine = .done machine ↔
      ∃ events cons, observeAll inb fuel calls s = .done (events, ⟨machine, cons⟩) := by
  induction calls generalizing s past with
  | nil =>
    constructor
    next =>
      intro ended
      cases ended
      exact ⟨[], s.cons, rfl⟩
    next =>
      rintro ⟨events, cons, ran⟩
      cases ran
      rfl
  | cons call calls ih =>
    constructor
    next =>
      intro ended
      obtain ⟨middle, first, rest⟩ := (Outcome.bind_eq_done _ _ _).1 ended
      obtain ⟨events, cons, called⟩ := observe_ends recorded first
      have after := observe_recorded inb recorded called
      obtain ⟨later, cons', ran⟩ := (ih (s := ⟨middle, cons⟩) after).1 rest
      refine ⟨events ++ later, cons', ?_⟩
      simp [observeAll, called, ran]
    next =>
      rintro ⟨events, cons, ran⟩
      simp only [observeAll, Outcome.bind_eq_done] at ran
      obtain ⟨⟨first, middle⟩, called, ⟨rest, last⟩, ran_rest, same⟩ := ran
      cases same
      have after := observe_recorded inb recorded called
      obtain ⟨ring, -, shows⟩ := recorded
      rw [polledAll, observe_polled shows called]
      exact (ih after).2 ⟨rest, cons, ran_rest⟩

end Polled

theorem consGetc_fifo {δ : Type} (inb : Nat → δ → UInt8 × δ) (fuel : Nat) (calls : List Call)
    (machine : Machine δ) :
    (∀ machine', polledAll inb fuel calls machine = .done machine' ↔
      ∃ events cons, observeAll inb fuel calls ⟨machine, Cons.zero⟩ =
        .done (events, ⟨machine', cons⟩)) ∧
    ∀ events s, observeAll inb fuel calls ⟨machine, Cons.zero⟩ = .done (events, s) →
      (∀ past, past <+: events → (answers past).Sublist (values (delivered past))) ∧
        (KeptUp events →
          (∀ past, past <+: events → answers past <+: values (delivered past)) ∧
            ∀ past value, past ++ [.returned value] <+: events →
              (value = 0 ↔ answers past = values (delivered past))) ∧
        s.cons.rpos < consbufsize ∧ s.cons.wpos < consbufsize := by
  constructor
  next =>
    intro machine'
    exact observeAll_ends (s := ⟨machine, Cons.zero⟩) calls
      ⟨Cons.emptyRing, .nil, Cons.zero_shows⟩ machine'
  intro events s ran
  obtain ⟨ring, trace, shows⟩ := observeAll_zero inb ran
  refine ⟨?_, ?_, shows.inside⟩
  · intro past leads
    obtain ⟨early, earlier⟩ := trace.before leads
    exact trace_ordered earlier
  · intro kept
    constructor
    next =>
      intro past leads
      obtain ⟨early, earlier⟩ := trace.before leads
      exact trace_prefix earlier (kept.before leads)
    next =>
      intro past value leads
      obtain ⟨early, earlier⟩ := trace.before leads
      exact trace_zero earlier (kept.before leads)

def serialLine (port : Nat) (line : List UInt8) : UInt8 × List UInt8 :=
  if port = 0x3F8 + 5 then (if line = [] then 0 else 1, line)
  else if port = 0x3F8 then (line.headD 0, line.tail)
  else (0, line)

def serialMachine (line : List UInt8) : Machine (List UInt8) where
  device := line
  serialExists := true
  shift := 0
  console := ⟨.cga, 0, 0, 0, ⟨fun _ => true, fun _ => 0⟩, []⟩

def twoReads : List Event :=
  [.burst 0 [107], .burst 1 [], .returned 107, .burst 0 [], .burst 0 [], .returned 0]

theorem twoReads_fifo :
    ∃ s, observeAll serialLine 9 [.consGetc, .consGetc] ⟨serialMachine [107], Cons.zero⟩ =
        .done (twoReads, s) ∧
      (answers twoReads).Sublist (values (delivered twoReads)) ∧
      s.cons.rpos < consbufsize ∧ s.cons.wpos < consbufsize := by
  have fifo := (consGetc_fifo serialLine 9 [.consGetc, .consGetc] (serialMachine [107])).2
    twoReads _ rfl
  exact ⟨_, rfl, fifo.1 twoReads (List.prefix_refl _), fifo.2.2⟩

end JosLab.Kernel
