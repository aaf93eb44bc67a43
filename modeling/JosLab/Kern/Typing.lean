import JosLab.Kern.MouseBytes

set_option autoImplicit false

namespace JosLab.Keyboard

def struck (data : UInt8) (shift : UInt32) : Int × UInt32 :=
  let shift := (shift ||| (shiftcode data).toUInt32) ^^^ (togglecode data).toUInt32
  (capsLock shift (charcode shift data).toNat, shift)

def tap (shift : UInt32) (byte : UInt8) : Int × UInt32 :=
  if byte = 0xE0 then (0, shift ||| e0esc.toUInt32)
  else if byte &&& 0x80 ≠ 0 then
    let data := if shift &&& e0esc.toUInt32 ≠ 0 then byte else byte &&& 0x7F
    (0, shift &&& ~~~(shiftcode data ||| e0esc).toUInt32)
  else if shift &&& e0esc.toUInt32 ≠ 0 then
    struck (byte ||| 0x80) (shift &&& ~~~e0esc.toUInt32)
  else struck byte shift

def taps : UInt32 → List UInt8 → List UInt8 × UInt32
  | shift, [] => ([], shift)
  | shift, byte :: rest =>
      let (c, shift) := tap shift byte
      let (chars, shift) := taps shift rest
      (if c = 0 then chars else UInt8.ofInt c :: chars, shift)

theorem finish_zero {δ : Type} (m : Machine δ) : finish 0 m = .done (0, m) := by
  have other : ¬ (~~~m.shift &&& (ctl ||| alt).toUInt32 = 0 ∧ (0 : Int) = keyDel.toNat) := by
    rintro ⟨-, same⟩
    exact absurd same (by decide)
  rw [finish, if_neg other]
  rfl

theorem kbdProcData_tap {δ : Type} (inb : Nat → δ → UInt8 × δ) (m : Machine δ) {stat byte : UInt8}
    {device device' : δ} (status : inb 0x64 m.device = (stat, device)) (waiting : stat &&& 0x01 ≠ 0)
    (keyboard : stat &&& 0x20 = 0) (read : inb 0x60 device = (byte, device')) :
    kbdProcData inb m = finish (tap m.shift byte).1
      { m with device := device', shift := (tap m.shift byte).2 } := by
  simp only [kbdProcData, inPort, status, read, keyboard, if_neg waiting, ne_eq, not_true_eq_false,
    if_false, tap]
  by_cases escape : byte = 0xE0
  next =>
    simp only [if_pos escape, finish_zero]
    rfl
  by_cases up : byte &&& 0x80 = 0
  next =>
    by_cases escaped : m.shift &&& e0esc.toUInt32 = 0
    next => simp only [if_neg escape, up, escaped, not_true_eq_false, if_false, press, struck]
    next =>
      simp only [if_neg escape, up, escaped, not_true_eq_false, if_false, not_false_eq_true, if_true,
        press, struck]
  next =>
    simp only [if_neg escape, up, not_false_eq_true, if_true, finish_zero]
    rfl

theorem taps_append (shift : UInt32) (first second : List UInt8) :
    taps shift (first ++ second) =
      ((taps shift first).1 ++ (taps (taps shift first).2 second).1,
        (taps (taps shift first).2 second).2) := by
  induction first generalizing shift with
  | nil => rfl
  | cons byte rest ih =>
    simp only [List.cons_append, taps, ih]
    split_ifs <;> rfl

theorem taps_single (shift : UInt32) (byte : UInt8) : taps shift [byte] =
    (if (tap shift byte).1 = 0 then [] else [UInt8.ofInt (tap shift byte).1],
      (tap shift byte).2) := rfl

theorem taps_escape (shift : UInt32) (rest : List UInt8) :
    taps shift (0xE0 :: rest) = taps (shift ||| e0esc.toUInt32) rest := rfl

theorem taps_press {shift : UInt32} (calm : has shift escIndex = false) (key : Key) :
    taps shift (scancodes (.press key)) =
      (if (struck key.data shift).1 = 0 then [] else [UInt8.ofInt (struck key.data shift).1],
        (struck key.data shift).2) := by
  obtain ⟨not_escape, down, -⟩ := key.codes
  by_cases extended : key.extended = true
  next =>
    have cleared : (shift ||| e0esc.toUInt32) &&& ~~~e0esc.toUInt32 = shift := by
      simpa using (escape_cleared shift 0 calm).2
    have code : tap (shift ||| e0esc.toUInt32) key.code = struck key.data shift := by
      rw [tap, if_neg not_escape, if_neg (not_not.2 down), if_pos (escaped shift), cleared, Key.data,
        if_pos extended]
    rw [scancodes, Key.escape, if_pos extended, List.singleton_append, taps_escape, taps_single,
      code]
  next =>
    have code : tap shift key.code = struck key.data shift := by
      rw [tap, if_neg not_escape, if_neg (not_not.2 down), if_neg (not_not.2 (unescaped shift calm)),
        Key.data, if_neg extended]
    rw [scancodes, Key.escape, if_neg extended, List.nil_append, taps_single, code]

theorem taps_release {shift : UInt32} (calm : has shift escIndex = false) (key : Key) :
    taps shift (scancodes (.release key)) =
      ([], shift &&& ~~~(shiftcode key.data).toUInt32) := by
  obtain ⟨-, -, not_escape, up, low⟩ := key.codes
  obtain ⟨plain_clears, extended_clears⟩ :=
    escape_cleared shift (shiftcode key.data).toUInt32 calm
  have joined (data : UInt8) :
      (shiftcode data ||| e0esc).toUInt32 = (shiftcode data).toUInt32 ||| e0esc.toUInt32 := by
    simp
  by_cases extended : key.extended = true
  next =>
    have code : tap (shift ||| e0esc.toUInt32) (key.code ||| 0x80) =
        (0, shift &&& ~~~(shiftcode key.data).toUInt32) := by
      rw [← extended_clears, Key.data, if_pos extended, tap, if_neg not_escape, if_pos up,
        if_pos (escaped shift)]
      simp only [joined]
    rw [scancodes, Key.escape, if_pos extended, List.singleton_append, taps_escape, taps_single,
      code]
    rfl
  next =>
    have code : tap shift (key.code ||| 0x80) =
        (0, shift &&& ~~~(shiftcode key.data).toUInt32) := by
      rw [← plain_clears, Key.data, if_neg extended, tap, if_neg not_escape, if_pos up,
        if_neg (not_not.2 (unescaped shift calm)), low]
      simp only [joined]
    rw [scancodes, Key.escape, if_neg extended, List.nil_append, taps_single, code]
    rfl

theorem decoded_taps {m : Machine Unit} (ready : Ready m) (bytes : List UInt8) :
    ∃ m', decoded bytes m = .done ((taps m.shift bytes).1, m') ∧ Ready m' ∧
      m'.shift = (taps m.shift bytes).2 := by
  induction bytes generalizing m with
  | nil => exact ⟨m, rfl, ready, rfl⟩
  | cons byte rest ih =>
    have status : controller byte 0x64 m.device = (0x01, m.device) := rfl
    have data : controller byte 0x60 m.device = (byte, m.device) := rfl
    have read := kbdProcData_tap (controller byte) m status (by decide) rfl data
    have kept : Ready { m with shift := (tap m.shift byte).2 } := ⟨ready.inside, ready.maps⟩
    obtain ⟨m₁, finished, same, ready₁⟩ := finish_ready kept (tap m.shift byte).1
    obtain ⟨m', ran, ready', shift⟩ := ih ready₁
    simp only [same] at ran shift
    refine ⟨m', ?_, ready', shift⟩
    have first : kbdProcData (controller byte) m = .done ((tap m.shift byte).1, m₁) :=
      read.trans finished
    simp only [decoded, first, ran, Outcome.done_bind, taps]
    rfl

@[ext] structure Board where
  held : Modifier → Bool
  caps : Bool

def capsKey : Key := ⟨false, 0x3A, by decide⟩

def swapCase (c : UInt8) : UInt8 :=
  if 97 ≤ c ∧ c ≤ 122 then c - 32 else if 65 ≤ c ∧ c ≤ 90 then c + 32 else c

namespace Board

-- The bit of a modifier is set by either of its keys, and cleared by either.
def press (b : Board) (key : Key) : Board where
  held modifier := b.held modifier || decide (key ∈ modifier.keys)
  caps := b.caps ^^ decide (key = capsKey)

def release (b : Board) (key : Key) : Board where
  held modifier := b.held modifier && !decide (key ∈ modifier.keys)
  caps := b.caps

def after (b : Board) : Latch.Event Key → Board
  | .press key => b.press key
  | .release key => b.release key

def legend (b : Board) (key : Key) : UInt8 :=
  let map :=
    if b.held .ctl then ctlmap
    else if b.held .shift then shiftmap
    else normalmap
  map key.data

def char (b : Board) (key : Key) : UInt8 :=
  if b.caps then swapCase (b.legend key) else b.legend key

def types : Board → List (Latch.Event Key) → List UInt8
  | _, [] => []
  | b, .press key :: rest =>
      let b := b.press key
      if b.char key = 0 then types b rest else b.char key :: types b rest
  | b, .release key :: rest => types (b.release key) rest

structure Shows (b : Board) (shift : UInt32) : Prop where
  held : ∀ modifier : Modifier, has shift modifier.index = b.held modifier
  caps : has shift 3 = b.caps
  calm : has shift escIndex = false

end Board

theorem capslock_has (shift : UInt32) : shift &&& capslock.toUInt32 ≠ 0 ↔ has shift 3 = true :=
  and_shiftLeft shift 3 (by decide) _ (by decide)

theorem codes_caps (key : Key) :
    has (togglecode key.data).toUInt32 3 = decide (key = capsKey) ∧
      has (shiftcode key.data).toUInt32 3 = false := by
  obtain ⟨extended, code, plain, other⟩ := key
  have table : ∀ code : UInt8, code < 0x80 →
      has (togglecode code).toUInt32 3 = decide (code = 0x3A) ∧
      has (togglecode (code ||| 0x80)).toUInt32 3 = false ∧
      has (shiftcode code).toUInt32 3 = false ∧
      has (shiftcode (code ||| 0x80)).toUInt32 3 = false := by decide +kernel
  obtain ⟨toggle, toggle_escaped, shift, shift_escaped⟩ := table code plain
  cases extended
  next => exact ⟨toggle.trans (by simp [capsKey]), shift⟩
  next => exact ⟨toggle_escaped.trans (by simp [capsKey]), shift_escaped⟩

theorem capsLock_swap (shift : UInt32) (c : UInt8) :
    capsLock shift c.toNat = ((if has shift 3 then swapCase c else c).toNat : Int) := by
  have letters : ∀ c : UInt8, (if 97 ≤ (c.toNat : Int) ∧ (c.toNat : Int) ≤ 122 then
        (c.toNat : Int) + (65 - 97)
      else if 65 ≤ (c.toNat : Int) ∧ (c.toNat : Int) ≤ 90 then (c.toNat : Int) + (97 - 65)
      else c.toNat) = (swapCase c).toNat := by
    decide +kernel
  by_cases on : shift &&& capslock.toUInt32 ≠ 0
  next =>
    have bit := (capslock_has shift).1 on
    rw [capsLock, if_pos on, letters, bit]
    rfl
  next =>
    have bit : has shift 3 = false := Bool.eq_false_iff.2 fun set => on ((capslock_has shift).2 set)
    rw [capsLock, if_neg on, bit]
    rfl

theorem charcode_held (shift : UInt32) :
    charcode shift = if has shift 1 then ctlmap else if has shift 0 then shiftmap
      else normalmap := by
  have control := Modifier.bit_has shift .ctl
  have upper := Modifier.bit_has shift .shift
  have control_mask : (Modifier.bit .ctl).toUInt32 =
      (Keyboard.ctl ||| shiftBit).toUInt32 &&& (Modifier.bit .ctl).toUInt32 := by decide
  have upper_mask : (Modifier.bit .shift).toUInt32 =
      (Keyboard.ctl ||| shiftBit).toUInt32 &&& (Modifier.bit .shift).toUInt32 := by decide
  rw [control_mask, ← UInt32.and_assoc] at control
  rw [upper_mask, ← UInt32.and_assoc] at upper
  have chosen : charcode shift = if shift &&& (Keyboard.ctl ||| shiftBit).toUInt32 = 0 then normalmap
      else if shift &&& (Keyboard.ctl ||| shiftBit).toUInt32 = 1 then shiftmap else ctlmap := rfl
  have small : (shift &&& (Keyboard.ctl ||| shiftBit).toUInt32).toNat ≤ 3 := by
    rw [UInt32.toNat_and]
    exact Nat.and_le_right
  rw [chosen]
  simp only [Modifier.index] at control upper
  generalize shift &&& (Keyboard.ctl ||| shiftBit).toUInt32 = bits at control upper small
  have cases : bits = 0 ∨ bits = 1 ∨ bits = 2 ∨ bits = 3 := by
    simp only [← UInt32.toNat_inj, UInt32.reduceToNat]
    omega
  rcases cases with rfl | rfl | rfl | rfl
  · have bit0 : has shift 0 = false := Bool.eq_false_iff.2 fun set => upper.2 set (by decide)
    have bit1 : has shift 1 = false := Bool.eq_false_iff.2 fun set => control.2 set (by decide)
    rw [bit0, bit1]
    rfl
  · have bit0 : has shift 0 = true := upper.1 (by decide)
    have bit1 : has shift 1 = false := Bool.eq_false_iff.2 fun set => control.2 set (by decide)
    rw [bit0, bit1]
    rfl
  · rw [control.1 (by decide)]
    rfl
  · rw [control.1 (by decide)]
    rfl

namespace Board

variable {b : Board} {shift : UInt32}

theorem Shows.struck (shows : b.Shows shift) (key : Key) :
    (Keyboard.struck key.data shift).1 = ((b.press key).char key).toNat ∧
      (b.press key).Shows (Keyboard.struck key.data shift).2 := by
  obtain ⟨toggles, toggles_esc, shifts_esc⟩ := codes_other key.data
  obtain ⟨toggle_caps, shift_caps⟩ := codes_caps key
  have after : (b.press key).Shows (Keyboard.struck key.data shift).2 := by
    refine ⟨fun modifier => ?_, ?_, ?_⟩
    · simp [Keyboard.struck, press, toggles, shiftcode_has, shows.held]
    · simp [Keyboard.struck, press, toggle_caps, shift_caps, shows.caps]
    · simp [Keyboard.struck, toggles_esc, shifts_esc, shows.calm]
  refine ⟨?_, after⟩
  have control := after.held .ctl
  have upper := after.held .shift
  have caps := after.caps
  simp only [Modifier.index] at control upper
  change capsLock (Keyboard.struck key.data shift).2
    (charcode (Keyboard.struck key.data shift).2 key.data).toNat = _
  rw [capsLock_swap, charcode_held, control, upper, caps, char, legend]

theorem Shows.press (shows : b.Shows shift) (key : Key) :
    ∃ shift', taps shift (scancodes (.press key)) =
        (if (b.press key).char key = 0 then [] else [(b.press key).char key], shift') ∧
      (b.press key).Shows shift' := by
  obtain ⟨char, after⟩ := shows.struck key
  refine ⟨_, ?_, after⟩
  rw [taps_press shows.calm, char]
  simp [← UInt8.toNat_inj, toNat_ofInt]

theorem Shows.release (shows : b.Shows shift) (key : Key) :
    ∃ shift', taps shift (scancodes (.release key)) = ([], shift') ∧
      (b.release key).Shows shift' := by
  refine ⟨_, taps_release shows.calm key, fun modifier => ?_, ?_, ?_⟩
  · have inside : modifier.index < 32 := by cases modifier <;> decide
    rw [has_clear _ _ _ inside, shiftcode_has, shows.held]
    rfl
  · rw [has_clear _ _ _ (by decide), (codes_caps key).2, shows.caps]
    exact Bool.and_true _
  · rw [has_clear _ _ _ (by decide), shows.calm, Bool.false_and]

theorem Shows.types (shows : b.Shows shift) (events : List (Latch.Event Key)) :
    ∃ shift', taps shift (events.flatMap scancodes) = (b.types events, shift') ∧
      (events.foldl Board.after b).Shows shift' := by
  induction events generalizing b shift with
  | nil => exact ⟨shift, rfl, shows⟩
  | cons event rest ih =>
    rw [List.flatMap_cons, List.foldl_cons]
    cases event with
    | press key =>
      obtain ⟨shift₁, pressed, after⟩ := shows.press key
      obtain ⟨shift', typed, last⟩ := ih after
      refine ⟨shift', ?_, last⟩
      rw [taps_append, pressed, typed, Board.types]
      split_ifs <;> rfl
    | release key =>
      obtain ⟨shift₁, released, after⟩ := shows.release key
      obtain ⟨shift', typed, last⟩ := ih after
      refine ⟨shift', ?_, last⟩
      rw [taps_append, released, typed]
      rfl

end Board

def mainKey (i : Fin 0x5F) : Key := ⟨false, UInt8.ofNat (i + 1), by revert i; decide⟩

theorem leftShift_plain : (0x2A : UInt8) < 0x80 ∧ (0x2A : UInt8) ≠ 0x60 := by decide

def leftShift : Key := ⟨false, 0x2A, leftShift_plain⟩

def keyFor (map : UInt8 → UInt8) (c : UInt8) : Option Key :=
  ((List.finRange 0x5F).map mainKey).find? fun key => map key.code = c

def strike (c : UInt8) : List (Latch.Event Key) :=
  match keyFor normalmap c with
  | some key => [.press key, .release key]
  | none =>
      match keyFor shiftmap c with
      | some key => [.press leftShift, .press key, .release key, .release leftShift]
      | none => []

def Typable (c : UInt8) : Prop := c ≠ 0 ∧ strike c ≠ []

instance (c : UInt8) : Decidable (Typable c) := inferInstanceAs (Decidable (_ ∧ _))

theorem printable_typable : ∀ c : UInt8, c ∈ [8, 9, 10, 27] ∨ 32 ≤ c ∧ c ≤ 126 → Typable c := by
  decide +kernel

namespace Board

def idle (caps : Bool) : Board := ⟨fun _ => false, caps⟩

theorem keyFor_key {map : UInt8 → UInt8} {c : UInt8} {key : Key} (found : keyFor map c = some key) :
    map key.code = c ∧ key.data = key.code := by
  unfold keyFor at found
  obtain ⟨i, -, rfl⟩ := List.mem_map.1 (List.mem_of_find?_eq_some found)
  exact ⟨by simpa using List.find?_some found, rfl⟩

theorem plain_key {key : Key} (legend : normalmap key.code ≠ 0 ∨ shiftmap key.code ≠ 0) :
    (∀ modifier : Modifier, key ∉ modifier.keys) ∧ key ≠ capsKey := by
  have table : ∀ code ∈ [(0x2A : UInt8), 0x36, 0x1D, 0x38, 0x3A],
      normalmap code = 0 ∧ shiftmap code = 0 := by decide +kernel
  have other (special : Key) (member : special.code ∈ [(0x2A : UInt8), 0x36, 0x1D, 0x38, 0x3A]) :
      key ≠ special := by
    rintro rfl
    obtain ⟨normal, shifted⟩ := table key.code member
    rcases legend with some | some
    next => exact some normal
    next => exact some shifted
  refine ⟨fun modifier member => ?_, other capsKey (by decide)⟩
  cases modifier <;> rcases List.mem_pair.1 member with same | same <;>
    exact other _ (by decide) same

theorem press_plain {key : Key} (plain : (∀ modifier : Modifier, key ∉ modifier.keys) ∧ key ≠ capsKey)
    (b : Board) : b.press key = b ∧ b.release key = b := by
  constructor
  next => ext <;> simp [Board.press, plain.1, plain.2]
  next => ext <;> simp [Board.release, plain.1]

theorem idle_shows (caps : Bool) :
    (idle caps).Shows (if caps then capslock.toUInt32 else 0) where
  held modifier := by cases caps <;> cases modifier <;> rfl
  caps := by cases caps <;> rfl
  calm := by cases caps <;> rfl

theorem press_shift (caps : Bool) :
    (idle caps).press leftShift = ⟨fun modifier => decide (modifier = .shift), caps⟩ ∧
      Board.release ⟨fun modifier => decide (modifier = .shift), caps⟩ leftShift = idle caps := by
  constructor
  next =>
    ext modifier
    next => cases modifier <;> rfl
    next => cases caps <;> rfl
  next =>
    ext modifier
    next => cases modifier <;> rfl
    next => rfl

theorem swapCase_nonzero {c : UInt8} (nonzero : c ≠ 0) (caps : Bool) :
    (if caps then swapCase c else c) ≠ 0 := by
  have letters : ∀ c : UInt8, c ≠ 0 → swapCase c ≠ 0 := by decide +kernel
  cases caps
  next => exact nonzero
  next => exact letters c nonzero

theorem types_strike {c : UInt8} (typable : Typable c) (caps : Bool)
    (rest : List (Latch.Event Key)) :
    (idle caps).types (strike c ++ rest) =
      (if caps then swapCase c else c) :: (idle caps).types rest := by
  obtain ⟨nonzero, struck⟩ := typable
  have shown := swapCase_nonzero nonzero caps
  unfold strike at struck ⊢
  cases normal : keyFor normalmap c with
  | some key =>
    obtain ⟨legend, data⟩ := keyFor_key normal
    have plain := press_plain (plain_key (.inl (legend ▸ nonzero))) (idle caps)
    have char : (idle caps).char key = if caps then swapCase c else c := by
      rw [char, Board.legend, data, ← legend]
      rfl
    simp only [List.cons_append, List.nil_append, types, plain.1, plain.2, char, if_neg shown]
  | none =>
    rw [normal] at struck
    simp only at struck ⊢
    cases upper : keyFor shiftmap c with
    | some key =>
      obtain ⟨legend, data⟩ := keyFor_key upper
      obtain ⟨down, up⟩ := press_shift caps
      have plain := press_plain (plain_key (.inr (legend ▸ nonzero)))
        ⟨fun modifier => decide (modifier = .shift), caps⟩
      have silent : Board.char ⟨fun modifier => decide (modifier = .shift), caps⟩ leftShift = 0 := by
        cases caps <;> decide +kernel
      have char : Board.char ⟨fun modifier => decide (modifier = .shift), caps⟩ key =
          if caps then swapCase c else c := by
        rw [Board.char, Board.legend, data, ← legend]
        rfl
      simp only [List.cons_append, List.nil_append, types, down, up, silent, plain.1, plain.2, char,
        if_neg shown, if_true]
    | none =>
      rw [upper] at struck
      exact absurd rfl struck

theorem types_text (text : List UInt8) (typable : ∀ c ∈ text, Typable c) (caps : Bool) :
    (idle caps).types (text.flatMap strike) = if caps then text.map swapCase else text := by
  induction text with
  | nil => cases caps <;> rfl
  | cons c rest ih =>
    rw [List.flatMap_cons, types_strike (typable c (by simp)),
      ih fun other member => typable other (by simp [member])]
    cases caps <;> rfl

end Board

theorem keyboard_types {m : Machine Unit} (ready : Ready m) {b : Board} (shows : b.Shows m.shift)
    (events : List (Latch.Event Key)) :
    ∃ m', decoded (events.flatMap scancodes) m = .done (b.types events, m') ∧
      (events.foldl Board.after b).Shows m'.shift := by
  obtain ⟨shift', typed, last⟩ := shows.types events
  obtain ⟨m', ran, -, shift⟩ := decoded_taps ready (events.flatMap scancodes)
  rw [typed] at ran shift
  exact ⟨m', ran, shift ▸ last⟩

def chord : List (Latch.Event Key) :=
  [.press (mainKey 0x1C), .press leftShift, .press (mainKey 0x1D), .release (mainKey 0x1D),
    .release (mainKey 0x1C), .press (mainKey 0x2D), .press (mainKey 0x2D)]

theorem chord_types : ∃ m', decoded (chord.flatMap scancodes) poweredOn = .done ([1, 67, 67], m') ∧
    (chord.foldl Board.after (Board.idle false)).Shows m'.shift := by
  obtain ⟨m', typed, after⟩ := keyboard_types poweredOn_ready (Board.idle_shows false) chord
  have chars : (Board.idle false).types chord = [1, 67, 67] := by decide +kernel
  rw [chars] at typed
  exact ⟨m', typed, after⟩

theorem text_typed {m : Machine Unit} (ready : Ready m) (caps : Bool)
    (idle : (Board.idle caps).Shows m.shift) (text : List UInt8) (typable : ∀ c ∈ text, Typable c) :
    ∃ m', decoded ((text.flatMap strike).flatMap scancodes) m =
      .done (if caps then text.map swapCase else text, m') := by
  obtain ⟨shift', typed, -⟩ := idle.types (text.flatMap strike)
  obtain ⟨m', ran, -⟩ := decoded_taps ready ((text.flatMap strike).flatMap scancodes)
  rw [typed, Board.types_text text typable] at ran
  exact ⟨m', ran⟩

theorem text_shouted :
    ∃ m', decoded (([72, 105].flatMap strike).flatMap scancodes)
      { poweredOn with shift := capslock.toUInt32 } = .done ([104, 73], m') :=
  text_typed (m := { poweredOn with shift := capslock.toUInt32 })
    ⟨poweredOn_ready.inside, poweredOn_ready.maps⟩ true (Board.idle_shows true) [72, 105]
    (by decide +kernel)

end JosLab.Keyboard
