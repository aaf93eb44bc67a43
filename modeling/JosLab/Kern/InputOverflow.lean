import JosLab.Kern.InputOrder

set_option autoImplicit false

namespace JosLab.Kernel

-- The burst does not take the writer round to the reader, or takes it all the way to just
-- behind the reader.
def Fits (waiting count : Nat) : Prop := waiting + count < 512 ∨ (waiting + count) % 512 = 511

def hold (held : Nat) : Event → Nat
  | .burst _ bytes => min (held + bytes.length) 511
  | .returned _ => held - 1

def held (events : List Event) : Nat := events.foldl hold 0

@[simp] theorem held_concat (events : List Event) (event : Event) :
    held (events ++ [event]) = hold (held events) event := by
  simp [held]

theorem fits_iff (waiting count : Nat) (below : waiting < 512) :
    min (waiting + count) 511 ≤ (waiting + count) % 512 ↔ Fits waiting count := by
  unfold Fits
  omega

theorem trace_holds {events : List Event} {ring : RingBuffer UInt8 512}
    (trace : Trace QueueStep Cons.emptyRing events ring)
    (fits : ∀ waiting bytes, .burst waiting bytes ∈ events → Fits waiting bytes.length) :
    held events ≤ ring.readable := by
  induction trace with
  | nil => simp [held]
  | @snoc events event ring ring' past stepped ih =>
    have kept := ih fun waiting bytes member => fits waiting bytes (List.mem_append_left _ member)
    rw [held_concat]
    cases stepped with
    | burst bytes nonzero =>
      have fit := fits ring.readable bytes (by simp)
      have enough := (fits_iff _ _ ring.readable_lt).2 fit
      rw [RingBuffer.pushes_readable]
      simp only [hold]
      omega
    | taken waiting =>
      have popped := ring.pop_readable waiting
      simp only [hold]
      omega
    | empty met =>
      have none := ring.readable_eq_zero.2 met
      simp only [hold]
      omega

theorem trace_returned_zero {events : List Event} {ring : RingBuffer UInt8 512}
    (trace : Trace QueueStep Cons.emptyRing (events ++ [.returned 0]) ring) :
    ∃ before, Trace QueueStep Cons.emptyRing events before ∧ before.readable = 0 := by
  obtain ⟨before, past, stepped⟩ := trace.last
  generalize answer : Event.returned 0 = event at stepped
  cases stepped with
  | burst bytes nonzero => cases answer
  | taken waiting =>
    obtain ⟨clean, read, -, reads⟩ := trace_reads past
    have nonzero := byte_nonzero (slot_nonzero reads clean waiting)
    injection answer with zero
    exact absurd zero.symm nonzero
  | empty met => exact ⟨ring, past, ring.readable_eq_zero.2 met⟩

theorem consIntr_overflow {δ : Type} (inb : Nat → δ → UInt8 × δ) (fuel : Nat) (calls : List Call)
    (machine : Machine δ) (events : List Event) (s : Kernel (Machine δ))
    (ran : observeAll inb fuel calls ⟨machine, Cons.zero⟩ = .done (events, s)) :
    (∀ (proc : Machine δ → Outcome Fault (Int × Machine δ)) more bytes machine',
      burst proc more s.machine = .done (bytes, machine') →
        ∃ s', consIntr proc more s = .done s' ∧
          (min (s.cons.readable + bytes.length) 511 ≤ s'.cons.readable ↔
            Fits s.cons.readable bytes.length)) ∧
      ((∀ waiting bytes, .burst waiting bytes ∈ events → Fits waiting bytes.length) →
        held events ≤ s.cons.readable ∧
          ∀ past, past ++ [.returned 0] <+: events → held past = 0) := by
  obtain ⟨ring, trace, shows⟩ := observeAll_zero inb ran
  constructor
  next =>
    intro proc more bytes machine' delivered
    have after := consIntr_burst proc more s ring shows
    rw [delivered, Outcome.done_bind] at after
    refine ⟨_, after, ?_⟩
    rw [(shows.puts bytes).readable, shows.readable, RingBuffer.pushes_readable]
    exact fits_iff _ _ ring.readable_lt
  next =>
    intro fits
    constructor
    next =>
      rw [shows.readable]
      exact trace_holds trace fits
    next =>
      intro past leads
      obtain ⟨early, earlier⟩ := trace.before leads
      obtain ⟨before, run, empty⟩ := trace_returned_zero earlier
      have kept := trace_holds run fun waiting bytes member =>
        fits waiting bytes (leads.subset (List.mem_append_left _ member))
      omega

theorem shortBurst_kept :
    ∃ s', consIntr (serialProcData serialLine) 9 ⟨serialMachine [97, 98, 99], Cons.zero⟩ =
        .done s' ∧
      (min (Cons.zero.readable + 3) 511 ≤ s'.cons.readable ↔ Fits Cons.zero.readable 3) :=
  (consIntr_overflow serialLine 9 [] (serialMachine [97, 98, 99]) [] _ rfl).1
    (serialProcData serialLine) 9 [97, 98, 99] (serialMachine []) rfl

theorem serialLine_burst (line : List UInt8) (clean : 0 ∉ line) (more : Nat) :
    burst (serialProcData serialLine) (line.length + 1 + more) (serialMachine line) =
      .done (line, serialMachine []) := by
  induction line with
  | nil =>
    rw [List.length_nil, Nat.zero_add, Nat.add_comm]
    simp [burst, serialProcData, Keyboard.inPort, serialMachine, serialLine]
  | cons byte rest ih =>
    rw [List.mem_cons, not_or] at clean
    have nonzero := byte_nonzero (Ne.symm clean.1)
    have called : serialProcData serialLine (serialMachine (byte :: rest)) =
        .done (byte.toNat, serialMachine rest) := by
      simp [serialProcData, Keyboard.inPort, serialMachine, serialLine]
    have positive : (byte.toNat : Int) ≠ -1 := by omega
    have length : (byte :: rest).length + 1 + more = rest.length + 1 + more + 1 := by
      rw [List.length_cons]
      omega
    rw [length]
    simp only [burst, called, Outcome.done_bind, positive, if_false, ih clean.2, nonzero, toNat_ofInt,
      Outcome.pure_eq]

theorem consGetc_idle (fuel : Nat) (cons : Cons) :
    consGetc serialLine (fuel + 1) ⟨serialMachine [], cons⟩ = grab ⟨serialMachine [], cons⟩ := by
  have serial : serialProcData serialLine (serialMachine []) = .done (-1, serialMachine []) := rfl
  have kbd : Keyboard.kbdProcData serialLine (serialMachine []) = .done (-1, serialMachine []) := rfl
  have idle (proc : Machine (List UInt8) → Outcome Fault (Int × Machine (List UInt8)))
      (called : proc (serialMachine []) = .done (-1, serialMachine [])) :
      consIntr proc (fuel + 1) ⟨serialMachine [], cons⟩ = .done ⟨serialMachine [], cons⟩ :=
    Loop.run_leave fuel (by simp [consIntrPass, called])
  simp [consGetc, serialIntr, kbdIntr, serialMachine] at idle serial kbd ⊢
  simp [idle _ serial, idle _ kbd]

theorem fullBurst_lost :
    ∃ s, burst (serialProcData serialLine) 600 (serialMachine (List.replicate 512 97)) =
        .done (List.replicate 512 97, serialMachine []) ∧
      consIntr (serialProcData serialLine) 600 ⟨serialMachine (List.replicate 512 97), Cons.zero⟩ =
        .done s ∧
      ¬ min (Cons.zero.readable + 512) 511 ≤ s.cons.readable ∧
      consGetc serialLine 600 s = .done (0, s) := by
  have clean : 0 ∉ List.replicate 512 (97 : UInt8) :=
    fun member => absurd (List.eq_of_mem_replicate member) (by decide)
  have delivered := serialLine_burst (List.replicate 512 97) clean 87
  rw [List.length_replicate] at delivered
  have after := consIntr_burst (serialProcData serialLine) 600
    ⟨serialMachine (List.replicate 512 97), Cons.zero⟩ Cons.emptyRing Cons.zero_shows
  rw [delivered, Outcome.done_bind] at after
  have shows := Cons.zero_shows.puts (List.replicate 512 97)
  have none : (Cons.emptyRing.pushes (List.replicate 512 97)).readable = 0 := by
    rw [RingBuffer.pushes_readable, List.length_replicate]
    rfl
  have met := shows.met_iff.2 ((RingBuffer.readable_eq_zero _).1 none)
  refine ⟨_, delivered, after, ?_, ?_⟩
  · rw [shows.readable, none]
    decide
  · rw [consGetc_idle, grab, if_neg (not_not.2 met)]
    rfl

end JosLab.Kernel
