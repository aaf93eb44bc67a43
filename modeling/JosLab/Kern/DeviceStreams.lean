import JosLab.Kern.ScreenRefinement

set_option autoImplicit false

namespace JosLab.Console

def com1 : Nat := 0x3F8

def lptData : Nat := 0x378

def transmitted (port : Nat) (s : Console) : List UInt8 :=
  (s.ports.filter fun write => write.1 = port).map Prod.snd

def toScreen (write : Nat × UInt8) : Bool := write.1 ∈ [0x3B4, 0x3B5, 0x3D4, 0x3D5]

def sent (s : Console) : List (Nat × UInt8) := s.ports.filter fun write => !toScreen write

def send (byte : UInt8) : List (Nat × UInt8) :=
  [(0x3F8, byte), (0x378, byte), (0x37A, 0x08 ||| 0x04 ||| 0x01), (0x37A, 0x08)]

-- The screen driver prints a tab as five spaces, and prints them to every device.
def spread (byte : UInt8) : List UInt8 := if byte = 9 then [9, 32, 32, 32, 32, 32] else [byte]

variable {s s' : Console}

theorem storeCell_ports {i : Nat} {value : UInt16} (ran : s.storeCell i value = .done s') :
    s'.ports = s.ports := by
  simp only [storeCell, Outcome.bind_eq_done, Outcome.pure_eq, Outcome.done.injEq] at ran
  obtain ⟨mem, -, rfl⟩ := ran
  rfl

theorem blankCells_ports {count i : Nat} (ran : blankCells count i s = .done s') :
    s'.ports = s.ports := by
  induction count generalizing i s with
  | zero =>
    cases ran
    rfl
  | succ count ih =>
    simp only [blankCells, Outcome.bind_eq_done] at ran
    obtain ⟨next, stored, rest⟩ := ran
    exact (ih rest).trans (storeCell_ports stored)

theorem scroll_ports (ran : s.scroll = .done s') : s'.ports = s.ports := by
  unfold scroll at ran
  split at ran
  next =>
    simp only [Outcome.bind_eq_done, Outcome.pure_eq, Outcome.done.injEq] at ran
    obtain ⟨mem, -, blanked, rows, rfl⟩ := ran
    have kept := blankCells_ports rows
    exact kept
  next =>
    cases ran
    rfl

theorem moveCursor_sent (s : Console) : s.moveCursor.sent = s.sent := by
  cases adapter : s.adapter <;>
    simp [sent, moveCursor, outb, toScreen, adapter, Adapter.addr6845]

theorem putKey_sent {consPutc : UInt32 → Console → Outcome Fault Console} {c : UInt32}
    (spaces : c.toUInt8 = 9 → ∀ t t', consPutc 32 t = .done t' → t'.sent = t.sent ++ send 32)
    (ran : putKey consPutc (c ||| s.attr) s = .done s') :
    s'.sent = s.sent ++ if c.toUInt8 = 9 then (List.replicate 5 32).flatMap send else [] := by
  have key := key_eq c s
  have same (equal : s'.ports = s.ports) : s'.sent = s.sent := congrArg (List.filter _) equal
  have other (byte : UInt8) (not_tab : byte ≠ 9) (hit : c.toUInt8 = byte) : c.toUInt8 ≠ 9 :=
    hit ▸ not_tab
  unfold putKey at ran
  split at ran
  next hit =>
    rw [if_neg (other 8 (by decide) ((key 8).1 hit)), List.append_nil]
    split at ran
    · have kept := storeCell_ports ran
      exact same kept
    · cases ran
      rfl
  split at ran
  next hit =>
    rw [if_neg (other 10 (by decide) ((key 10).1 hit)), List.append_nil]
    cases ran
    rfl
  split at ran
  next hit =>
    rw [if_neg (other 13 (by decide) ((key 13).1 hit)), List.append_nil]
    cases ran
    rfl
  split at ran
  next hit =>
    have spaces := spaces ((key 9).1 hit)
    rw [if_pos ((key 9).1 hit)]
    simp only [Outcome.bind_eq_done] at ran
    obtain ⟨s₁, ran₁, s₂, ran₂, s₃, ran₃, s₄, ran₄, ran₅⟩ := ran
    simp [spaces _ _ ran₅, spaces _ _ ran₄, spaces _ _ ran₃, spaces _ _ ran₂, spaces _ _ ran₁,
      List.replicate]
  next none =>
    have not_tab : c.toUInt8 ≠ 9 := fun tab => none ((key 9).2 tab)
    rw [if_neg not_tab, List.append_nil]
    simp only [Outcome.bind_eq_done, Outcome.pure_eq, Outcome.done.injEq] at ran
    obtain ⟨stored, store, rfl⟩ := ran
    have kept := storeCell_ports store
    exact same kept

theorem consPutc_sent {depth : Nat} {c : UInt32}
    (spaces : c.toUInt8 = 9 → ∀ t t', consPutc depth 32 t = .done t' → t'.sent = t.sent ++ send 32)
    (ran : consPutc (depth + 1) c s = .done s') :
    s'.sent = s.sent ++ (spread c.toUInt8).flatMap send := by
  simp only [consPutc, cgaPutc, Outcome.bind_eq_done, Outcome.pure_eq, Outcome.done.injEq] at ran
  obtain ⟨struck, keyed, scrolled, rolled, rfl⟩ := ran
  have first : (lptPutc c (serialPutc c s)).sent = s.sent ++ send c.toUInt8 := by
    simp [sent, lptPutc, serialPutc, outb, toScreen, send]
  have kept : scrolled.sent = struck.sent := congrArg (List.filter _) (scroll_ports rolled)
  rw [moveCursor_sent, kept]
  rw [putKey_sent spaces keyed, first]
  by_cases tab : c.toUInt8 = 9
  next => simp [spread, tab, List.replicate]
  next => simp [spread, tab]

theorem cputchar_sent (c : Int) (ran : s.cputchar c = .done s') :
    s'.sent = s.sent ++ (spread (UInt32.ofInt c).toUInt8).flatMap send := by
  refine consPutc_sent (fun _ t t' space => ?_) ran
  have spaced := consPutc_sent (fun tab => absurd tab (by decide)) space
  simpa [spread] using spaced

theorem cputchars_sent (chars : List Int)
    (ran : chars.foldlM (fun s c => s.cputchar c) s = .done s') :
    s'.sent = s.sent ++
      (chars.flatMap fun c => spread (UInt32.ofInt c).toUInt8).flatMap send := by
  induction chars generalizing s with
  | nil =>
    cases ran
    simp
  | cons c rest ih =>
    rw [List.foldlM_cons, Outcome.bind_eq_done] at ran
    obtain ⟨next, struck, rest_ran⟩ := ran
    rw [ih rest_ran, cputchar_sent c struck]
    simp

theorem transmitted_sent (port : Nat) (other : port ∉ [0x3B4, 0x3B5, 0x3D4, 0x3D5]) (s : Console) :
    transmitted port s = (s.sent.filter fun write => write.1 = port).map Prod.snd := by
  rw [transmitted, sent, List.filter_filter]
  congr 2
  funext write
  by_cases same : write.1 = port
  next =>
    subst same
    simp [toScreen, other]
  next => simp [same]

theorem transmitted_spread (port : Nat) (device : port = com1 ∨ port = lptData)
    (bytes : List UInt8) (more : s'.sent = s.sent ++ bytes.flatMap send) :
    transmitted port s' = transmitted port s ++ bytes := by
  have other : port ∉ [0x3B4, 0x3B5, 0x3D4, 0x3D5] := by
    rcases device with rfl | rfl <;> decide
  have stream (bytes : List UInt8) :
      ((bytes.flatMap send).filter fun write => write.1 = port).map Prod.snd = bytes := by
    induction bytes with
    | nil => rfl
    | cons byte rest ih => rcases device with rfl | rfl <;> simpa [send, com1, lptData] using ih
  rw [transmitted_sent port other, transmitted_sent port other, more, List.filter_append,
    List.map_append, stream]

def cputbytes (bytes : List UInt8) (s : Console) : Outcome Fault Console :=
  bytes.foldlM (fun s byte => s.cputchar byte.toNat) s

theorem cputbytes_sent (bytes : List UInt8) (ran : s.cputbytes bytes = .done s') :
    s'.sent = s.sent ++ (bytes.flatMap spread).flatMap send := by
  have chars : (bytes.map fun byte => (byte.toNat : Int)).foldlM (fun s c => s.cputchar c) s =
      .done s' := by
    rw [List.foldlM_map]
    exact ran
  rw [cputchars_sent _ chars, List.flatMap_map]
  simp [ofInt_byte]

theorem flatMap_spread (bytes : List UInt8) : bytes.flatMap spread = bytes ↔ 9 ∉ bytes := by
  have length (bytes : List UInt8) :
      (bytes.flatMap spread).length = bytes.length + 5 * bytes.count 9 := by
    induction bytes with
    | nil => rfl
    | cons byte rest ih =>
      by_cases tab : byte = 9
      next =>
        simp [spread, tab, ih]
        omega
      next =>
        simp [spread, tab, ih]
        omega
  constructor
  next =>
    intro same
    have count := length bytes
    rw [same] at count
    exact List.count_eq_zero.mp (by omega)
  next =>
    intro none
    have single : ∀ byte ∈ bytes, spread byte = [byte] := by
      intro byte member
      have not_tab : byte ≠ 9 := fun tab => none (tab ▸ member)
      simp [spread, not_tab]
    simpa using List.flatMap_congr single

theorem cputbytes_streams (s : Console) (inside : s.crtPos < crtSize)
    (maps : s.mem.Maps s.crtBuf (s.crtBuf + 4000)) (bytes : List UInt8) :
    ∃ s', s.cputbytes bytes = .done s' ∧ ∀ port, port = com1 ∨ port = lptData →
      transmitted port s' = transmitted port s ++ bytes.flatMap spread := by
  obtain ⟨s', ran, -⟩ := calls_correct (bytes.map .cputchar) s s.paper (paper_shown s) inside maps
  rw [List.foldlM_map] at ran
  exact ⟨s', ran, fun port device => transmitted_spread port device _ (cputbytes_sent bytes ran)⟩

theorem devices_stream (s : Console) (inside : s.crtPos < crtSize)
    (maps : s.mem.Maps s.crtBuf (s.crtBuf + 4000)) (bytes : List UInt8) :
    ∃ s', s.cputbytes bytes = .done s' ∧
      (∀ port, port = com1 ∨ port = lptData →
        transmitted port s' = transmitted port s ++ bytes.flatMap spread) ∧
      ((transmitted com1 s' = transmitted com1 s ++ bytes ∧
        transmitted lptData s' = transmitted lptData s ++ bytes) ↔ 9 ∉ bytes) := by
  obtain ⟨s', ran, streams⟩ := cputbytes_streams s inside maps bytes
  refine ⟨s', ran, streams, ?_⟩
  rw [streams com1 (.inl rfl), streams lptData (.inr rfl), List.append_cancel_left_eq,
    List.append_cancel_left_eq, and_self, flatMap_spread]

theorem lastCell_stream :
    ∃ s', lastCell.cputbytes [65, 9] = .done s' ∧
      (∀ port, port = com1 ∨ port = lptData →
        transmitted port s' = transmitted port lastCell ++ [65, 9].flatMap spread) ∧
      ((transmitted com1 s' = transmitted com1 lastCell ++ [65, 9] ∧
        transmitted lptData s' = transmitted lptData lastCell ++ [65, 9]) ↔ (9 : UInt8) ∉ [65, 9]) :=
  devices_stream lastCell (by decide) lastCell_maps [65, 9]

theorem lastCell_tab :
    ∃ s', lastCell.cputbytes [9] = .done s' ∧
      transmitted com1 s' = [9, 32, 32, 32, 32, 32] ∧
      transmitted lptData s' = [9, 32, 32, 32, 32, 32] ∧
      transmitted com1 s' ≠ transmitted com1 lastCell ++ [9] := by
  obtain ⟨s', ran, streams⟩ := cputbytes_streams lastCell (by decide) lastCell_maps [9]
  have tab : ∀ port, transmitted port lastCell ++ [9].flatMap spread = [9, 32, 32, 32, 32, 32] :=
    fun _ => rfl
  have serial := (streams com1 (.inl rfl)).trans (tab com1)
  have parallel := (streams lptData (.inr rfl)).trans (tab lptData)
  exact ⟨s', ran, serial, parallel, by rw [serial]; decide⟩

end JosLab.Console
