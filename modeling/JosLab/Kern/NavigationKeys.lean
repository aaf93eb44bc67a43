import JosLab.Kern.Modifiers

set_option autoImplicit false

namespace JosLab.Keyboard

inductive Navigation where
  | home
  | up
  | pgup
  | lf
  | rt
  | endKey
  | dn
  | pgdn
  | ins
  | del
  deriving DecidableEq, Repr

def Navigation.code : Navigation → UInt8
  | .home => 0x47
  | .up => 0x48
  | .pgup => 0x49
  | .lf => 0x4B
  | .rt => 0x4D
  | .endKey => 0x4F
  | .dn => 0x50
  | .pgdn => 0x51
  | .ins => 0x52
  | .del => 0x53

def keyCodes : List UInt8 :=
  [keyHome, keyEnd, keyUp, keyDn, keyLf, keyRt, keyPgup, keyPgdn, keyIns, keyDel]

def Strikes (key : Navigation) (m : Machine Unit) (c : Int) : Prop :=
  ∃ m' m'', feed [0xE0] m = .done m' ∧ kbdProcData (controller key.code) m' = .done (c, m'')

def SameCode (key : Navigation) (m₁ m₂ : Machine Unit) : Prop :=
  ∃ code ∈ keyCodes, Strikes key m₁ code.toNat ∧ Strikes key m₂ code.toNat

variable {m m₁ m₂ : Machine Unit}

theorem kbdProcData_ready (ready : Ready m) (byte : UInt8) :
    ∃ c m', kbdProcData (controller byte) m = .done (c, m') ∧ Ready m' := by
  have kept (shift : UInt32) : Ready { m with shift } := ⟨ready.inside, ready.maps⟩
  rw [kbdProcData_sent]
  split
  next => exact ⟨_, _, rfl, kept _⟩
  split
  next => exact ⟨_, _, rfl, kept _⟩
  split
  next =>
    obtain ⟨c, m', ran, ready', -⟩ := press_ready (kept (m.shift &&& ~~~e0esc.toUInt32))
      (byte ||| 0x80)
    exact ⟨c, m', ran, ready'⟩
  next =>
    obtain ⟨c, m', ran, ready', -⟩ := press_ready ready byte
    exact ⟨c, m', ran, ready'⟩

theorem feed_ready (ready : Ready m) (bytes : List UInt8) :
    ∃ m', feed bytes m = .done m' ∧ Ready m' := by
  induction bytes generalizing m with
  | nil => exact ⟨m, rfl, ready⟩
  | cons byte bytes ih =>
    obtain ⟨c, next, ran, ready'⟩ := kbdProcData_ready ready byte
    obtain ⟨last, fed, ready''⟩ := ih ready'
    exact ⟨last, by rw [feed_cons, ran]; exact fed, ready''⟩

def ctlHeld (shift : UInt32) : Prop := shift &&& Keyboard.ctl.toUInt32 ≠ 0

instance (shift : UInt32) : Decidable (ctlHeld shift) :=
  inferInstanceAs (Decidable (shift &&& Keyboard.ctl.toUInt32 ≠ 0))

def Navigation.value (key : Navigation) (ctl : Bool) : UInt8 :=
  match key with
  | .home => if ctl then 0 else keyHome
  | .up => keyUp
  | .pgup => keyPgup
  | .lf => keyLf
  | .rt => keyRt
  | .endKey => keyEnd
  | .dn => keyDn
  | .pgdn => keyPgdn
  | .ins => keyIns
  | .del => keyDel

theorem charcode_table (shift : UInt32) :
    charcode shift = ctlmap ∧ ctlHeld shift ∨
      (charcode shift = normalmap ∨ charcode shift = shiftmap) ∧ ¬ ctlHeld shift := by
  let bits := shift &&& (Keyboard.ctl ||| shiftBit).toUInt32
  have held : ctlHeld shift ↔ bits &&& Keyboard.ctl.toUInt32 ≠ 0 := by
    have inner : (Keyboard.ctl ||| shiftBit).toUInt32 &&& Keyboard.ctl.toUInt32 =
        Keyboard.ctl.toUInt32 := by decide
    rw [ctlHeld, UInt32.and_assoc, inner]
  have small : bits = 0 ∨ bits = 1 ∨ bits = 2 ∨ bits = 3 := by
    have le : bits.toNat ≤ 3 := by
      rw [UInt32.toNat_and]
      exact Nat.and_le_right
    simp only [← UInt32.toNat_inj, UInt32.reduceToNat]
    omega
  have chosen : charcode shift = if bits = 0 then normalmap else if bits = 1 then shiftmap
      else ctlmap := rfl
  rw [held, chosen]
  rcases small with zero | one | two | three
  · exact .inr ⟨.inl (if_pos zero), by rw [zero]; decide⟩
  · exact .inr ⟨.inr (by rw [one]; rfl), by rw [one]; decide⟩
  · exact .inl ⟨by rw [two]; rfl, by rw [two]; decide⟩
  · exact .inl ⟨by rw [three]; rfl, by rw [three]; decide⟩

theorem charcode_navigation (key : Navigation) (shift : UInt32) :
    charcode shift (key.code ||| 0x80) = key.value (decide (ctlHeld shift)) := by
  rcases charcode_table shift with ⟨table, held⟩ | ⟨table | table, free⟩
  · rw [table, decide_eq_true held]
    cases key <;> rfl
  · rw [table, decide_eq_false free]
    cases key <;> rfl
  · rw [table, decide_eq_false free]
    cases key <;> rfl

-- Caps lock rewrites letters, and these are none.
theorem capsLock_value (key : Navigation) (ctl : Bool) (shift : UInt32) :
    capsLock shift (key.value ctl).toNat = (key.value ctl).toNat := by
  have other : ∀ key ctl, ¬ (97 ≤ ((Navigation.value key ctl).toNat : Int) ∧
      ((Navigation.value key ctl).toNat : Int) ≤ 122) ∧
      ¬ (65 ≤ ((Navigation.value key ctl).toNat : Int) ∧
        ((Navigation.value key ctl).toNat : Int) ≤ 90) := by
    intro key ctl
    cases key <;> cases ctl <;> decide
  obtain ⟨lower, upper⟩ := other key ctl
  rw [capsLock, if_neg lower, if_neg upper, ite_self]

def unescape (shift : UInt32) : UInt32 := (shift ||| e0esc.toUInt32) &&& ~~~e0esc.toUInt32

theorem unescape_ctl (shift : UInt32) : ctlHeld (unescape shift) ↔ ctlHeld shift := by
  have apart : has e0esc.toUInt32 Modifier.ctl.index = false := by decide
  have bit (shift : UInt32) : ctlHeld shift ↔ has shift Modifier.ctl.index = true :=
    Modifier.ctl.bit_has shift
  rw [bit, bit, unescape, has_clear _ _ _ (by decide), has_or, apart, Bool.or_false, Bool.not_false,
    Bool.and_true]

theorem Navigation.codes (key : Navigation) :
    key.code ≠ 0xE0 ∧ key.code &&& 0x80 = 0 ∧ shiftcode (key.code ||| 0x80) = 0 ∧
      togglecode (key.code ||| 0x80) = 0 := by
  cases key <;> decide

theorem strikes_value (ready : Ready m) (key : Navigation) (c : Int) :
    Strikes key m c ↔ c = (key.value (decide (ctlHeld m.shift))).toNat := by
  obtain ⟨not_escape, down, no_shift, no_toggle⟩ := key.codes
  have start : feed [0xE0] m = .done { m with shift := m.shift ||| e0esc.toUInt32 } := by
    simp [feed, kbdProcData_sent]
  have struck : Ready { m with shift := unescape m.shift } := ⟨ready.inside, ready.maps⟩
  obtain ⟨last, ran, -, -⟩ := finish_ready struck (key.value (decide (ctlHeld m.shift))).toNat
  have pressed : kbdProcData (controller key.code) { m with shift := m.shift ||| e0esc.toUInt32 } =
      .done ((key.value (decide (ctlHeld m.shift))).toNat, last) := by
    have same : decide (ctlHeld (unescape m.shift)) = decide (ctlHeld m.shift) :=
      decide_eq_decide.2 (unescape_ctl m.shift)
    have shifted : (unescape m.shift ||| (shiftcode (key.code ||| 0x80)).toUInt32) ^^^
        (togglecode (key.code ||| 0x80)).toUInt32 = unescape m.shift := by
      simp [no_shift, no_toggle]
    have struck_at : press (key.code ||| 0x80) { m with shift := unescape m.shift } =
        finish (capsLock (unescape m.shift) (charcode (unescape m.shift) (key.code ||| 0x80)).toNat)
          { m with shift := unescape m.shift } := by
      simp only [press, shifted]
    rw [charcode_navigation, same, capsLock_value, ran] at struck_at
    rw [kbdProcData_sent, if_neg not_escape, if_neg (not_not.2 down), if_pos (escaped m.shift)]
    exact struck_at
  constructor
  · rintro ⟨m', m'', fed, called⟩
    rw [start] at fed
    cases fed
    rw [pressed] at called
    cases called
    rfl
  · rintro rfl
    exact ⟨_, last, start, pressed⟩

theorem Navigation.value_same (key : Navigation) (extended : key ≠ .home) (ctl ctl' : Bool) :
    key.value ctl = key.value ctl' := by
  cases key
  case home => exact absurd rfl extended
  all_goals rfl

theorem value_mem (key : Navigation) (ctl : Bool) :
    key.value ctl ∈ keyCodes ↔ key ≠ .home ∨ ctl = false := by
  cases key <;> cases ctl <;> decide

theorem sameCode_iff (ready₁ : Ready m₁) (ready₂ : Ready m₂) (key : Navigation) :
    SameCode key m₁ m₂ ↔ key ≠ .home ∨ ¬ ctlHeld m₁.shift ∧ ¬ ctlHeld m₂.shift := by
  simp only [SameCode, strikes_value ready₁, strikes_value ready₂]
  constructor
  · rintro ⟨code, member, first, second⟩
    have one := UInt8.toNat_inj.1 (Int.ofNat_inj.1 first)
    have two := UInt8.toNat_inj.1 (Int.ofNat_inj.1 second)
    have free₁ := (value_mem key _).1 (one ▸ member)
    have free₂ := (value_mem key _).1 (two ▸ member)
    by_cases home : key = .home
    · exact .inr ⟨of_decide_eq_false (free₁.resolve_left (not_not.2 home)),
        of_decide_eq_false (free₂.resolve_left (not_not.2 home))⟩
    · exact .inl home
  · rintro (extended | ⟨free₁, free₂⟩)
    · exact ⟨key.value false, (value_mem key false).2 (.inl extended),
        by rw [key.value_same extended false], by rw [key.value_same extended false]⟩
    · exact ⟨key.value false, (value_mem key false).2 (.inr rfl),
        by rw [decide_eq_false free₁], by rw [decide_eq_false free₂]⟩

theorem navigation_independent (key : Navigation) (ready₁ : Ready m₁) (ready₂ : Ready m₂)
    (history₁ history₂ : List UInt8) :
    ∃ m₁' m₂', feed history₁ m₁ = .done m₁' ∧ feed history₂ m₂ = .done m₂' ∧
      (SameCode key m₁' m₂' ↔ key ≠ .home ∨ ¬ ctlHeld m₁'.shift ∧ ¬ ctlHeld m₂'.shift) := by
  obtain ⟨m₁', fed₁, ready₁'⟩ := feed_ready ready₁ history₁
  obtain ⟨m₂', fed₂, ready₂'⟩ := feed_ready ready₂ history₂
  exact ⟨m₁', m₂', fed₁, fed₂, sameCode_iff ready₁' ready₂' key⟩

theorem home_independent :
    (∃ m₁' m₂', feed [0x1D] poweredOn = .done m₁' ∧ feed [0x3A, 0xBA] poweredOn = .done m₂' ∧
      (SameCode .home m₁' m₂' ↔ Navigation.home ≠ .home ∨
        ¬ ctlHeld m₁'.shift ∧ ¬ ctlHeld m₂'.shift)) ∧
    ∃ m₁' m₂', feed [0x1D] poweredOn = .done m₁' ∧ feed [0x3A, 0xBA] poweredOn = .done m₂' ∧
      SameCode .up m₁' m₂' := by
  constructor
  · exact navigation_independent .home poweredOn_ready poweredOn_ready [0x1D] [0x3A, 0xBA]
  · obtain ⟨m₁', m₂', fed₁, fed₂, same⟩ :=
      navigation_independent .up poweredOn_ready poweredOn_ready [0x1D] [0x3A, 0xBA]
    exact ⟨m₁', m₂', fed₁, fed₂, same.2 (.inl Navigation.noConfusion)⟩

theorem ctlHome_lost :
    ∃ m₁' m₂', feed [0x1D] poweredOn = .done m₁' ∧ feed [] poweredOn = .done m₂' ∧
      Strikes .home m₁' 0 ∧ Strikes .home m₂' keyHome.toNat ∧ ¬ SameCode .home m₁' m₂' := by
  obtain ⟨m₁', fed₁, ready₁, shift⟩ := feed_press poweredOn_ready rfl ⟨false, 0x1D, by decide⟩
  have held : ctlHeld m₁'.shift := by
    rw [shift]
    decide
  refine ⟨m₁', poweredOn, fed₁, rfl, ?_, ?_, ?_⟩
  · rw [strikes_value ready₁, decide_eq_true held]
    rfl
  · exact (strikes_value poweredOn_ready .home _).2 rfl
  · rw [sameCode_iff ready₁ poweredOn_ready]
    rintro (other | ⟨free, -⟩)
    · exact other rfl
    · exact free held

end JosLab.Keyboard
