import JosLab.Kern.CommandLine

set_option autoImplicit false

namespace JosLab

-- for (n = 0; *s != '\0'; s++) n++;
def strlenPass (mem : Mem) (state : Int × Nat) : Outcome Fault (Pass (Int × Nat) Int) := do
  let (n, s) := state
  if (← mem.load .load s) ≠ 0 then return .again (int32 (n + 1), wrap (s + 1))
  else return .leave n

def strlen (fuel s : Nat) (mem : Mem) : Outcome Fault Int := Loop.run (strlenPass mem) fuel (0, s)

-- while ((*dst++ = *src++) != '\0') /* do nothing */;
def strcpyPass (state : Nat × Nat × Mem) : Outcome Fault (Pass (Nat × Nat × Mem) Mem) := do
  let (dst, src, mem) := state
  let ch ← mem.load .load src
  let mem ← mem.store .store dst ch
  if ch ≠ 0 then return .again (wrap (dst + 1), wrap (src + 1), mem)
  else return .leave mem

def strcpy (fuel dst src : Nat) (mem : Mem) : Outcome Fault (Nat × Mem) := do
  let ret := dst
  return (ret, ← Loop.run strcpyPass fuel (dst, src, mem))

def moved (p : Nat) (n : Int) : Nat := ((p + n) % 2 ^ 32).toNat

def strcat (fuel dst src : Nat) (mem : Mem) : Outcome Fault (Nat × Mem) := do
  let len ← strlen fuel dst mem
  let (_, mem) ← strcpy fuel (moved dst len) src mem
  return (dst, mem)

-- for (i = 0; i < size; i++), by how many rounds are left
def strncpyFrom : Nat → Nat → Nat → Mem → Outcome Fault Mem
  | 0, _, _, mem => return mem
  | rounds + 1, dst, src, mem => do
      let mem ← mem.store .store dst (← mem.load .load src)
      if (← mem.load .load src) ≠ 0 then strncpyFrom rounds (wrap (dst + 1)) (wrap (src + 1)) mem
      else strncpyFrom rounds (wrap (dst + 1)) src mem

def strncpy (dst src size : Nat) (mem : Mem) : Outcome Fault (Nat × Mem) := do
  let ret := dst
  return (ret, ← strncpyFrom size dst src mem)

-- while (--size > 0 && *src != '\0') *dst++ = *src++;
def strlcpyFrom : Nat → Nat → Nat → Mem → Outcome Fault (Nat × Mem)
  | size + 2, dst, src, mem => do
      if (← mem.load .load src) ≠ 0 then
        let mem ← mem.store .store dst (← mem.load .load src)
        strlcpyFrom (size + 1) (wrap (dst + 1)) (wrap (src + 1)) mem
      else return (dst, mem)
  | _, dst, _, mem => return (dst, mem)

def strlcpy (dst src size : Nat) (mem : Mem) : Outcome Fault (Nat × Mem) := do
  let dstIn := dst
  if 0 < size then
    let (dst, mem) ← strlcpyFrom size dst src mem
    let mem ← mem.store .store dst 0
    return (wrap (dst + 2 ^ 32 - dstIn), mem)
  else return (wrap (dst + 2 ^ 32 - dstIn), mem)

theorem strlenPass_again {mem : Mem} {p : Nat} {c : UInt8} {rest : List UInt8}
    (spells : StringAt mem p (c :: rest)) (n : Int) :
    strlenPass mem (n, p) = .done (.again (int32 (n + 1), p + 1)) := by
  have bound := spells.bound
  rw [List.length_cons] at bound
  have next := wrap_of_lt (p + 1) (by omega)
  simp [strlenPass, spells.load_cons, spells.head_nonzero, next]

theorem strlen_run {mem : Mem} {p : Nat} {text : List UInt8} (spells : StringAt mem p text)
    (k : Int) (fuel : Nat) :
    Loop.run (strlenPass mem) fuel (int32 k, p) =
      if text.length < fuel then .done (int32 (k + text.length)) else .spin := by
  induction text generalizing p k fuel with
  | nil =>
    cases fuel with
    | zero => rfl
    | succ fuel =>
      rw [Loop.run_leave fuel (by simp [strlenPass, spells.load_nil]; rfl)]
      simp
  | cons c rest ih =>
    cases fuel with
    | zero => rfl
    | succ fuel =>
      have count : int32 (int32 k + 1) = int32 (k + 1) := by
        unfold int32
        exact Int.bmod_add_bmod
      have total : k + 1 + (rest.length : Int) = k + ((c :: rest).length : Nat) := by
        rw [List.length_cons]
        omega
      rw [Loop.run_again fuel (strlenPass_again spells (int32 k)), count, ih spells.tail, total]
      simp only [List.length_cons, Nat.succ_lt_succ_iff]

theorem strlen_eq {mem : Mem} {p : Nat} {text : List UInt8} (spells : StringAt mem p text)
    (fuel : Nat) :
    strlen fuel p mem = if text.length < fuel then .done (int32 text.length) else .spin := by
  have run := strlen_run spells 0 fuel
  rw [Int.zero_add] at run
  exact run

def Window (k : Nat) (mem : Mem) (s : Nat) : Prop := ∀ i < k, mem.value (wrap (s + i)) ≠ 0

-- A destination `k` bytes ahead is overwritten before it is read: no NUL is ever met.
def Ahead (k : Nat) (state : Nat × Nat × Mem) : Prop :=
  state.1 = wrap (state.2.1 + k) ∧ state.2.1 < 2 ^ 32 ∧ Window k state.2.2 state.2.1

theorem Ahead.nonzero {k dst src : Nat} {mem : Mem} (positive : 0 < k)
    (ahead : Ahead k (dst, src, mem)) : mem.value src ≠ 0 := by
  have first := ahead.2.2 0 positive
  rwa [Nat.add_zero, wrap_of_lt src ahead.2.1] at first

theorem Ahead.next {k dst src : Nat} {mem : Mem} (positive : 0 < k)
    (ahead : Ahead k (dst, src, mem)) :
    Ahead k (wrap (dst + 1), wrap (src + 1), mem.set dst (mem.value src)) := by
  have nonzero := ahead.nonzero positive
  obtain ⟨here, lt, window⟩ := ahead
  dsimp only at here lt window
  refine ⟨?_, wrap_lt _, ?_⟩
  · rw [here]
    unfold wrap
    dsimp only
    omega
  · intro i i_lt
    have address : wrap (wrap (src + 1) + i) = wrap (src + (i + 1)) := by
      unfold wrap
      omega
    rw [address, Memory.set_value]
    split
    next => exact nonzero
    next other =>
      apply window (i + 1)
      by_contra last
      have reached : i + 1 = k := by omega
      exact other (by rw [here, reached])

theorem Ahead.again {k dst src : Nat} {mem : Mem} (positive : 0 < k)
    (ahead : Ahead k (dst, src, mem)) (readable : mem.mapped src = true)
    (writable : mem.mapped dst = true) :
    strcpyPass (dst, src, mem) =
      .done (.again (wrap (dst + 1), wrap (src + 1), mem.set dst (mem.value src))) := by
  have loaded := Memory.load_mapped Fault.load mem src readable
  have stored := Memory.store_mapped Fault.store mem dst (mem.value src) writable
  simp [strcpyPass, loaded, stored, ahead.nonzero positive]

theorem strcpy_never {k : Nat} (positive : 0 < k) (fuel : Nat) {state : Nat × Nat × Mem}
    (ahead : Ahead k state) (after : Mem) : Loop.run strcpyPass fuel state ≠ .done after := by
  apply Loop.run_never (Ahead k) ?_ fuel state ahead
  rintro ⟨dst, src, mem⟩ ahead
  by_cases readable : mem.mapped src = true
  next =>
    by_cases writable : mem.mapped dst = true
    next => exact .inr ⟨_, ahead.again positive readable writable, ahead.next positive⟩
    next =>
      exact .inl ⟨.store dst, by simp [strcpyPass, Memory.load, Memory.store, readable, writable]⟩
  next => exact .inl ⟨.load src, by simp [strcpyPass, Memory.load, readable]⟩

theorem strcpy_forever {k : Nat} (positive : 0 < k) (fuel : Nat) {state : Nat × Nat × Mem}
    (ahead : Ahead k state) (maps : state.2.2.Maps 0 (2 ^ 32)) :
    Loop.run strcpyPass fuel state = .spin := by
  apply Loop.run_forever (fun state => Ahead k state ∧ state.2.2.Maps 0 (2 ^ 32)) ?_ fuel state
    ⟨ahead, maps⟩
  rintro ⟨dst, src, mem⟩ ⟨ahead, maps⟩
  have dst_lt : dst < 2 ^ 32 := by
    have here : dst = wrap (src + k) := ahead.1
    have lt := wrap_lt (src + k)
    omega
  exact ⟨_, ahead.again positive (maps src (Nat.zero_le _) ahead.2.1)
    (maps dst (Nat.zero_le _) dst_lt), ahead.next positive, maps⟩

def written (mem : Mem) (dst : Nat) (text : List UInt8) : Mem :=
  mem.blit dst (text.length + 1) fun i => text.getD i 0

def taken (mem : Mem) (src dst i : Nat) : UInt8 := mem.value (src + i % (dst - src))

theorem taken_carried (mem : Mem) (src dst k m : Nat) (now : m = k ∨ m = k + 1) :
    (mem.blit dst m (taken mem src dst)).value (src + k) = taken mem src dst k := by
  by_cases inside : dst ≤ src + k ∧ src + k < dst + m
  next =>
    obtain ⟨i, here⟩ := Nat.exists_eq_add_of_le inside.1
    rw [here, Memory.blit_inside _ _ _ _ _ (by omega), taken, taken]
    by_cases behind : src < dst
    next =>
      have period : k = i + (dst - src) := by omega
      rw [period, Nat.add_mod_right]
    next =>
      have same : k = i := by omega
      rw [same]
  next =>
    rw [Memory.blit_outside _ _ _ _ _ (by omega), taken]
    by_cases behind : src < dst
    next => rw [Nat.mod_eq_of_lt (by omega)]
    next =>
      have zero : dst - src = 0 := by omega
      rw [zero, Nat.mod_zero]

theorem taken_stored (mem : Mem) (src dst k : Nat) (mapped : mem.mapped (dst + k) = true) :
    (mem.blit dst k (taken mem src dst)).store Fault.store (dst + k) (taken mem src dst k) =
      .done (mem.blit dst (k + 1) (taken mem src dst)) := by
  rw [Memory.store_mapped Fault.store (mem.blit dst k _) (dst + k) _ mapped,
    ← Memory.blit_blit mem dst k 1]
  exact congrArg _ (Memory.set_eq_blit _ (dst + k) fun i => taken mem src dst (k + i))

structure Brought (mem : Mem) (src dst n : Nat) (out : List UInt8) : Prop where
  noNul : 0 ∉ out
  bytes : ∀ i < out.length, taken mem src dst i = out.getD i 0
  fits : out.length ≤ n
  ends : out.length < n → taken mem src dst out.length = 0
  reads : ∀ i < n, i ≤ out.length → mem.mapped (src + i) = true ∧ src + i < 2 ^ 32

namespace Brought

variable {mem : Mem} {src dst n : Nat} {out : List UInt8}

theorem nonzero (brought : Brought mem src dst n out) {i : Nat} (lt : i < out.length) :
    taken mem src dst i ≠ 0 := by
  rw [brought.bytes i lt, List.getD_eq_getElem _ _ lt]
  intro nul
  apply brought.noNul
  rw [← nul]
  exact List.getElem_mem lt

theorem load (brought : Brought mem src dst n out) {i m : Nat} (lt : i < n) (le : i ≤ out.length)
    (now : m = i ∨ m = i + 1) :
    (mem.blit dst m (taken mem src dst)).load Fault.load (src + i) =
      .done (taken mem src dst i) := by
  rw [Memory.load_mapped Fault.load (mem.blit dst m _) (src + i) (brought.reads i lt le).1,
    taken_carried mem src dst i m now]

theorem written_eq (brought : Brought mem src dst n out) (short : out.length < n) :
    mem.blit dst (out.length + 1) (taken mem src dst) = written mem dst out := by
  apply Memory.blit_congr
  intro i lt
  by_cases early : i < out.length
  next => exact brought.bytes i early
  next =>
    have last : i = out.length := by omega
    rw [last, brought.ends short]
    simp

end Brought

def copied (src dst n : Nat) (text : List UInt8) : List UInt8 :=
  if src < dst ∧ dst ≤ src + text.length then
    (List.range n).map fun i => text.getD (i % (dst - src)) 0
  else text.take n

theorem brought_behind {mem : Mem} {src dst n : Nat} {text : List UInt8}
    (spells : StringAt mem src text) (maps : mem.Maps dst (dst + n)) (bound : dst + n ≤ 2 ^ 32)
    (behind : src < dst ∧ dst ≤ src + text.length) :
    Brought mem src dst n ((List.range n).map fun i => text.getD (i % (dst - src)) 0) := by
  have early (i : Nat) : i % (dst - src) < text.length := by
    have below := Nat.mod_lt i (y := dst - src) (by omega)
    omega
  exact {
    noNul := by
      intro nul
      obtain ⟨i, _, zero⟩ := List.mem_map.1 nul
      apply spells.noNul
      rw [← zero, List.getD_eq_getElem _ _ (early i)]
      exact List.getElem_mem (early i)
    bytes := by
      intro i lt
      rw [taken, spells.chars _ (early i), List.getD_eq_getElem _ _ lt, List.getElem_map,
        List.getElem_range]
    fits := by simp
    ends := by simp
    reads := by
      intro i lt _
      by_cases inside : i ≤ text.length
      next => exact ⟨spells.maps _ (by omega) (by omega), by omega⟩
      next => exact ⟨maps _ (by omega) (by omega), by omega⟩ }

theorem brought_clear {mem : Mem} {src dst : Nat} {text : List UInt8}
    (spells : StringAt mem src text) (n : Nat) (clear : ¬ (src < dst ∧ dst ≤ src + text.length)) :
    Brought mem src dst n (text.take n) := by
  have bound := spells.bound
  have plain (i : Nat) (le : i ≤ text.length) : taken mem src dst i = mem.value (src + i) := by
    by_cases above : src < dst
    next => rw [taken, Nat.mod_eq_of_lt (by omega)]
    next =>
      have zero : dst - src = 0 := by omega
      rw [taken, zero, Nat.mod_zero]
  exact {
    noNul := fun nul => spells.noNul (List.mem_of_mem_take nul)
    bytes := by
      intro i lt
      rw [List.length_take] at lt
      rw [plain i (by omega), spells.chars i (by omega), List.getD_eq_getElem?_getD,
        List.getD_eq_getElem?_getD, List.getElem?_take_of_lt (by omega)]
    fits := by simp
    ends := by
      intro short
      rw [List.length_take] at short ⊢
      have whole : min n text.length = text.length := by omega
      rw [whole, plain _ le_rfl, spells.terminated]
    reads := by
      intro i lt le
      rw [List.length_take] at le
      exact ⟨spells.maps _ (by omega) (by omega), by omega⟩ }

theorem brought_copied {mem : Mem} {src dst n : Nat} {text : List UInt8}
    (spells : StringAt mem src text) (maps : mem.Maps dst (dst + n)) (bound : dst + n ≤ 2 ^ 32) :
    Brought mem src dst n (copied src dst n text) := by
  unfold copied
  split
  next behind => exact brought_behind spells maps bound behind
  next clear => exact brought_clear spells n clear

theorem strcpy_leaves {mem : Mem} {src dst n : Nat} {out : List UInt8}
    (brought : Brought mem src dst n out) (short : out.length < n)
    (maps : mem.Maps dst (dst + out.length + 1)) (bound : dst + out.length < 2 ^ 32)
    (left k : Nat) (all : k + left = out.length) :
    Loop.Leaves strcpyPass left (dst + k, src + k, mem.blit dst k (taken mem src dst))
      (written mem dst out) := by
  have loaded := brought.load (i := k) (m := k) (by omega) (by omega) (.inl rfl)
  have stored := taken_stored mem src dst k (maps (dst + k) (by omega) (by omega))
  induction left generalizing k with
  | zero =>
    rw [Nat.add_zero] at all
    rw [all, brought.ends short] at loaded stored
    apply Loop.Leaves.now
    rw [← brought.written_eq short, all]
    simp [strcpyPass, loaded, stored]
  | succ left ih =>
    have nonzero := brought.nonzero (i := k) (by omega)
    have source := (brought.reads (k + 1) (by omega) (by omega)).2
    have step : strcpyPass (dst + k, src + k, mem.blit dst k (taken mem src dst)) =
        .done (.again (dst + (k + 1), src + (k + 1), mem.blit dst (k + 1) (taken mem src dst))) := by
      simp [strcpyPass, loaded, stored, nonzero, Nat.add_assoc, wrap_of_lt (dst + (k + 1)) (by omega),
        wrap_of_lt (src + (k + 1)) source]
    exact .later step (ih (k + 1) (by omega) (brought.load (by omega) (by omega) (.inl rfl))
      (taken_stored mem src dst (k + 1) (maps _ (by omega) (by omega))))

theorem strcpy_eq {mem : Mem} {dst src : Nat} {text : List UInt8} (spells : StringAt mem src text)
    (clear : ¬ (src < dst ∧ dst ≤ src + text.length))
    (maps : mem.Maps dst (dst + text.length + 1)) (room : dst + text.length < 2 ^ 32) (fuel : Nat)
    (enough : text.length < fuel) :
    Loop.run strcpyPass fuel (dst, src, mem) = .done (written mem dst text) := by
  have brought := brought_clear spells (text.length + 1) clear
  rw [List.take_of_length_le (by omega)] at brought
  have run := (strcpy_leaves brought (by omega) maps room text.length 0 (by omega)).run_eq fuel enough
  rwa [Memory.blit_zero] at run

theorem StringAt.ahead {mem : Mem} {dst src : Nat} {text : List UInt8}
    (spells : StringAt mem src text) (behind : src < dst ∧ dst ≤ src + text.length) :
    Ahead (dst - src) (dst, src, mem) := by
  have bound := spells.bound
  refine ⟨?_, show src < 2 ^ 32 by omega, ?_⟩
  · dsimp only
    rw [wrap_of_lt _ (by omega)]
    omega
  · intro i lt
    dsimp only
    rw [wrap_of_lt _ (by omega), spells.chars i (by omega)]
    intro nul
    have index : i < text.length := by omega
    apply spells.noNul
    rw [← nul, List.getD_eq_getElem _ _ index]
    exact List.getElem_mem index

theorem moved_int32 (p n : Nat) (fits : p + n < 2 ^ 32) : moved p (int32 n) = p + n := by
  unfold moved
  by_cases small : n < 2 ^ 31
  next =>
    rw [int32_of_lt n (by omega) (by omega)]
    omega
  next =>
    rw [int32_of_ge n (by omega) (by omega)]
    omega

theorem written_string {mem : Mem} {dst : Nat} {front text : List UInt8} (noNul : 0 ∉ front ++ text)
    (chars : ∀ i < front.length, mem.value (dst + i) = front.getD i 0)
    (maps : mem.Maps dst (dst + front.length + text.length + 1))
    (bound : dst + front.length + text.length < 2 ^ 32) :
    StringAt (written mem (dst + front.length) text) dst (front ++ text) where
  noNul := noNul
  chars i lt := by
    rw [List.length_append] at lt
    by_cases early : i < front.length
    next =>
      rw [written, Memory.blit_outside _ _ _ _ _ (by omega), chars i early,
        List.getD_append _ _ _ _ early]
    next =>
      obtain ⟨k, rfl⟩ := Nat.exists_eq_add_of_le (Nat.le_of_not_lt early)
      rw [written, ← Nat.add_assoc, Memory.blit_inside _ _ _ _ _ (by omega),
        List.getD_append_right _ _ _ _ (by omega), Nat.add_sub_cancel_left]
  terminated := by
    rw [List.length_append, ← Nat.add_assoc, written, Memory.blit_inside _ _ _ _ _ (by omega)]
    simp
  maps a ge lt := by
    rw [List.length_append] at lt
    exact maps a ge (by omega)
  bound := by
    rw [List.length_append]
    omega

theorem strcat_eq {mem : Mem} {dst src : Nat} {front : List UInt8} (first : StringAt mem dst front)
    (fuel : Nat) :
    strcat fuel dst src mem = if front.length < fuel then
      Loop.run strcpyPass fuel (dst + front.length, src, mem) >>= fun after => .done (dst, after)
    else .spin := by
  have length := strlen_eq first fuel
  split
  next long =>
    rw [if_pos long] at length
    rw [strcat, length, Outcome.done_bind, moved_int32 dst front.length first.bound, strcpy,
      Outcome.bind_assoc]
    rfl
  next short =>
    rw [if_neg short] at length
    rw [strcat, length]
    rfl

theorem strcat_appends {mem : Mem} {dst src : Nat} {front text : List UInt8}
    (first : StringAt mem dst front) (second : StringAt mem src text)
    (room : dst + front.length + text.length < 2 ^ 32) (fuel : Nat) :
    if src < dst + front.length ∧ dst + front.length ≤ src + text.length then
      (∀ result, strcat fuel dst src mem ≠ .done result) ∧
        (mem.Maps 0 (2 ^ 32) → strcat fuel dst src mem = .spin)
    else
      mem.Maps (dst + front.length) (dst + front.length + text.length + 1) →
        front.length < fuel → text.length < fuel →
          strcat fuel dst src mem = .done (dst, written mem (dst + front.length) text) ∧
            StringAt (written mem (dst + front.length) text) dst (front ++ text) ∧
            ∀ a, (a < dst + front.length ∨ dst + front.length + text.length < a) →
              (written mem (dst + front.length) text).value a = mem.value a := by
  rw [strcat_eq first fuel]
  split
  next behind =>
    have ahead := second.ahead behind
    have positive : 0 < dst + front.length - src := by omega
    split
    next =>
      constructor
      next =>
        intro result returned
        obtain ⟨after, ran, -⟩ := (Outcome.bind_eq_done _ _ _).1 returned
        exact strcpy_never positive fuel ahead after ran
      next =>
        intro maps
        rw [strcpy_forever positive fuel ahead maps]
        rfl
    next => exact ⟨nofun, fun _ => rfl⟩
  next clear =>
    intro maps long enough
    have copy := strcpy_eq second clear maps room fuel enough
    have noNul : 0 ∉ front ++ text := by simp [first.noNul, second.noNul]
    refine ⟨?_, written_string noNul first.chars ?_ room, ?_⟩
    · rw [if_pos long, copy]
      rfl
    · intro a ge lt
      by_cases early : a < dst + front.length + 1
      next => exact first.maps a ge early
      next => exact maps a (by omega) lt
    · intro a outside
      rw [written, Memory.blit_outside _ _ _ _ _ (by omega)]

-- "jos" and "lab", in memory.
def twoWords : Mem :=
  written (written { mapped := fun _ => true, value := fun _ => 0 } 16 [106, 111, 115])
    32 [108, 97, 98]

theorem twoWords_first : StringAt twoWords 16 [106, 111, 115] :=
  ⟨by decide, by decide, by decide, fun _ _ _ => rfl, by decide⟩

theorem twoWords_second : StringAt twoWords 32 [108, 97, 98] :=
  ⟨by decide, by decide, by decide, fun _ _ _ => rfl, by decide⟩

theorem strcat_twoWords :
    strcat 8 16 32 twoWords = .done (16, written twoWords 19 [108, 97, 98]) ∧
      StringAt (written twoWords 19 [108, 97, 98]) 16 [106, 111, 115, 108, 97, 98] ∧
      strcat 8 16 16 twoWords = .spin := by
  have apart := strcat_appends twoWords_first twoWords_second (by decide) 8
  have itself := strcat_appends twoWords_first twoWords_first (by decide) 8
  rw [if_neg (by decide)] at apart
  rw [if_pos (by decide)] at itself
  have appended := apart (fun _ _ _ => rfl) (by decide) (by decide)
  exact ⟨appended.1, appended.2.1, itself.2 fun _ _ _ => rfl⟩

theorem strncpyFrom_run {mem : Mem} {src dst n : Nat} {out : List UInt8}
    (brought : Brought mem src dst n out) (maps : mem.Maps dst (dst + n)) (bound : dst + n ≤ 2 ^ 32)
    (k rounds : Nat) (le : k ≤ out.length) (inside : k + rounds = n) :
    strncpyFrom n (wrap dst) (wrap src) mem =
      strncpyFrom rounds (wrap (dst + k)) (wrap (src + k)) (mem.blit dst k (taken mem src dst)) := by
  induction k generalizing rounds with
  | zero =>
    rw [Nat.zero_add] at inside
    rw [inside, Memory.blit_zero]
    rfl
  | succ k ih =>
    have read := brought.load (i := k) (m := k) (by omega) (by omega) (.inl rfl)
    have reread := brought.load (i := k) (m := k + 1) (by omega) (by omega) (.inr rfl)
    have stored := taken_stored mem src dst k (maps (dst + k) (by omega) (by omega))
    have nonzero := brought.nonzero (i := k) (by omega)
    have source := (brought.reads k (by omega) (by omega)).2
    rw [ih (rounds + 1) (by omega) (by omega), wrap_of_lt (dst + k) (by omega),
      wrap_of_lt (src + k) source, strncpyFrom]
    simp [read, stored, reread, nonzero, Nat.add_assoc]

theorem strncpyFrom_pads {mem : Mem} {src rounds : Nat} (dst : Nat) (nul : mem.value src = 0)
    (mapped : mem.mapped src = true) (maps : mem.Maps dst (dst + rounds))
    (bound : dst + rounds ≤ 2 ^ 32) :
    strncpyFrom rounds (wrap dst) src mem = .done (mem.blit dst rounds fun _ => 0) := by
  induction rounds generalizing mem dst with
  | zero =>
    rw [Memory.blit_zero]
    rfl
  | succ rounds ih =>
    have kept : (mem.set dst 0).value src = 0 := by
      rw [Memory.set_value]
      split
      next => rfl
      next => exact nul
    have read := Memory.load_mapped Fault.load mem src mapped
    have reread := Memory.load_mapped Fault.load (mem.set dst 0) src mapped
    have stored := Memory.store_mapped Fault.store mem dst 0 (maps dst le_rfl (by omega))
    have first := Memory.set_eq_blit mem dst fun _ => (0 : UInt8)
    have later := ih (dst + 1) kept mapped (maps.narrow (by omega) (by omega)) (by omega)
    rw [nul] at read
    rw [kept] at reread
    rw [wrap_of_lt dst (by omega), strncpyFrom]
    simp only [read, stored, reread, Outcome.done_bind]
    rw [if_neg (by simp), later, first, Memory.blit_blit mem dst 1 rounds fun _ => 0, Nat.add_comm 1]

theorem strncpy_eq {mem : Mem} {src dst n : Nat} {out : List UInt8}
    (brought : Brought mem src dst n out) (maps : mem.Maps dst (dst + n)) (bound : dst + n ≤ 2 ^ 32) :
    strncpyFrom n (wrap dst) (wrap src) mem = .done (mem.blit dst n fun i => out.getD i 0) := by
  obtain ⟨rounds, total⟩ := Nat.exists_eq_add_of_le brought.fits
  have copied : mem.blit dst out.length (taken mem src dst) =
      mem.blit dst out.length fun i => out.getD i 0 :=
    Memory.blit_congr _ _ _ _ _ brought.bytes
  rw [strncpyFrom_run brought maps bound out.length rounds le_rfl total.symm]
  cases rounds with
  | zero =>
    rw [copied, total]
    rfl
  | succ rounds =>
    have nul := brought.ends (by omega)
    have source := brought.reads out.length (by omega) le_rfl
    have zeros : (fun _ => (0 : UInt8)) = fun i => out.getD (out.length + i) 0 := by
      funext i
      rw [List.getD_eq_default _ _ (by omega)]
    have read := taken_carried mem src dst out.length out.length (.inl rfl)
    rw [nul] at read
    rw [wrap_of_lt _ source.2,
      strncpyFrom_pads (dst + out.length) read source.1 (maps.narrow (by omega) (by omega))
        (by omega),
      copied, zeros, Memory.blit_blit mem dst out.length (rounds + 1) fun i => out.getD i 0, total]

theorem strlcpyFrom_run {mem : Mem} {src dst n : Nat} {out : List UInt8}
    (brought : Brought mem src dst n out) (maps : mem.Maps dst (dst + n)) (bound : dst + n < 2 ^ 32)
    (k size : Nat) (le : k ≤ out.length) (inside : k + size = n + 1) :
    strlcpyFrom (n + 1) dst (wrap src) mem =
      strlcpyFrom size (dst + k) (wrap (src + k)) (mem.blit dst k (taken mem src dst)) := by
  have fits := brought.fits
  induction k generalizing size with
  | zero =>
    rw [Nat.zero_add] at inside
    rw [inside, Memory.blit_zero]
    rfl
  | succ k ih =>
    obtain ⟨more, rfl⟩ := Nat.exists_eq_add_one.2 (show 0 < size by omega)
    have read := brought.load (i := k) (m := k) (by omega) (by omega) (.inl rfl)
    have stored := taken_stored mem src dst k (maps (dst + k) (by omega) (by omega))
    have nonzero := brought.nonzero (i := k) (by omega)
    have source := (brought.reads k (by omega) (by omega)).2
    rw [ih (more + 2) (by omega) (by omega), wrap_of_lt (src + k) source, strlcpyFrom]
    simp [read, stored, nonzero, Nat.add_assoc, wrap_of_lt (dst + (k + 1)) (by omega)]

theorem strlcpy_eq {mem : Mem} {src dst n : Nat} {out : List UInt8}
    (brought : Brought mem src dst n out) (maps : mem.Maps dst (dst + n + 1))
    (bound : dst + n < 2 ^ 32) :
    strlcpy dst (wrap src) (n + 1) mem = .done (out.length, written mem dst out) := by
  obtain ⟨rounds, total⟩ := Nat.exists_eq_add_of_le brought.fits
  have last : strlcpyFrom (n + 1) dst (wrap src) mem =
      .done (dst + out.length, mem.blit dst out.length (taken mem src dst)) := by
    rw [strlcpyFrom_run brought (maps.narrow (by omega) (by omega)) bound out.length (rounds + 1)
      le_rfl (by omega)]
    cases rounds with
    | zero => rfl
    | succ rounds =>
      have source := brought.reads out.length (by omega) le_rfl
      have read := brought.load (m := out.length) (by omega) le_rfl (.inl rfl)
      rw [brought.ends (by omega)] at read
      rw [wrap_of_lt _ source.2, strlcpyFrom]
      simp [read]
  have stored := Memory.store_mapped Fault.store
    (mem.blit dst out.length (taken mem src dst)) (dst + out.length) 0
    (maps (dst + out.length) (by omega) (by omega))
  have result : (mem.blit dst out.length (taken mem src dst)).set (dst + out.length) 0 =
      written mem dst out := by
    have copied := Memory.blit_congr mem dst out.length _ _ brought.bytes
    have nul := Memory.set_eq_blit (mem.blit dst out.length fun i => out.getD i 0)
      (dst + out.length) fun i => out.getD (out.length + i) 0
    rw [Memory.blit_blit mem dst out.length 1 fun i => out.getD i 0] at nul
    rw [copied, written, ← nul]
    simp
  have length : wrap (dst + out.length + 2 ^ 32 - dst) = out.length := by
    have small := brought.fits
    unfold wrap
    omega
  simp only [strlcpy, last, stored, result, length, Outcome.done_bind]
  rfl

theorem padded_nul {mem : Mem} {src dst size : Nat} {out : List UInt8}
    (brought : Brought mem src dst size out) :
    (∃ i < size, (mem.blit dst size fun i => out.getD i 0).value (dst + i) = 0) ↔
      out.length < size := by
  constructor
  · rintro ⟨i, lt, nul⟩
    rw [Memory.blit_inside _ _ _ _ _ lt] at nul
    by_contra full
    have inside : i < out.length := by omega
    rw [← brought.bytes i inside] at nul
    exact brought.nonzero inside nul
  · intro short
    refine ⟨out.length, short, ?_⟩
    rw [Memory.blit_inside _ _ _ _ _ short]
    simp

theorem bounded_copies {mem : Mem} {dst src size : Nat} {text : List UInt8}
    (spells : StringAt mem src text) (maps : mem.Maps dst (dst + size))
    (bound : dst + size ≤ 2 ^ 32) :
    (∃ after, strncpy dst src size mem = .done (dst, after) ∧
      (after = mem.blit dst size fun i => (copied src dst size text).getD i 0) ∧
      ((∃ i < size, after.value (dst + i) = 0) ↔ (copied src dst size text).length < size)) ∧
    (size = 0 → strlcpy dst src size mem = .done (0, mem)) ∧
    (0 < size → ∃ out after, strlcpy dst src size mem = .done (out.length, after) ∧
      out = copied src dst (size - 1) text ∧ out.length < size ∧ StringAt after dst out ∧
      ∀ a, (a < dst ∨ dst + out.length < a) → after.value a = mem.value a) := by
  have source : wrap src = src := wrap_of_lt src (by have := spells.bound; omega)
  have brought := brought_copied spells maps bound
  refine ⟨⟨_, ?_, rfl, padded_nul brought⟩, ?_, ?_⟩
  · have run := strncpy_eq brought maps bound
    cases size with
    | zero =>
      rw [Memory.blit_zero]
      rfl
    | succ n =>
      rw [source, wrap_of_lt dst (by omega)] at run
      rw [strncpy, run]
      rfl
  · rintro rfl
    have zero : wrap (dst + 2 ^ 32 - dst) = 0 := by
      unfold wrap
      omega
    simp only [strlcpy, zero]
    rfl
  · intro positive
    obtain ⟨n, rfl⟩ := Nat.exists_eq_add_one.2 positive
    have buffer : mem.Maps dst (dst + n) := maps.narrow le_rfl (by omega)
    have brought := brought_copied spells buffer (by omega)
    have fits := brought.fits
    have run := strlcpy_eq brought maps (by omega)
    rw [source] at run
    refine ⟨_, _, run, rfl, by omega, ?_, ?_⟩
    · have string := @written_string mem dst [] (copied src dst n text) brought.noNul (by simp)
      rw [List.length_nil, Nat.add_zero] at string
      exact string (maps.narrow (by omega) (by omega)) (by omega)
    · intro a outside
      rw [written, Memory.blit_outside _ _ _ _ _ (by omega)]

-- "jos" copied two bytes up, over its own end; and cut off to fit.
theorem bounded_twoWords :
    (∃ after, strncpy 18 16 5 twoWords = .done (18, after) ∧
      after = twoWords.blit 18 5 fun i => [106, 111, 106, 111, 106].getD i 0) ∧
    ∃ after, strlcpy 32 16 3 twoWords = .done (2, after) ∧ StringAt after 32 [106, 111] := by
  have room : twoWords.Maps 18 (18 + 5) := fun _ _ _ => rfl
  have buffer : twoWords.Maps 32 (32 + 3) := fun _ _ _ => rfl
  have overlapping := bounded_copies twoWords_first room (by decide)
  have copies := bounded_copies twoWords_first buffer (by decide)
  obtain ⟨after, ran, bytes, -⟩ := overlapping.1
  obtain ⟨out, cut, run, rfl, _, string, _⟩ := copies.2.2 (by decide)
  exact ⟨⟨after, ran, bytes⟩, cut, run, string⟩

end JosLab
