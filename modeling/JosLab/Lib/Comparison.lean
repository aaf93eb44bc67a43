import JosLab.Lib.Printfmt
import JosLab.Shared.Lexicographic

set_option autoImplicit false

namespace JosLab

open Lexicographic
open Printfmt (CString)

def strncmp : Chars → Chars → Nat → Outcome Fault Int
  | _, _, 0 => return 0
  | p :: ps, q :: qs, n + 1 =>
      if p ≠ 0 ∧ p = q then strncmp ps qs n else return (p.toNat : Int) - q.toNat
  | _, _, _ + 1 => .fault .char

def memcmp : Chars → Chars → Nat → Outcome Fault Int
  | _, _, 0 => return 0
  | p :: ps, q :: qs, n + 1 =>
      if p ≠ q then return (p.toNat : Int) - q.toNat else memcmp ps qs n
  | _, _, _ + 1 => .fault .char

def difference (p q : List UInt8) : Int :=
  ((p.getD (agree p q) 0).toNat : Int) - (q.getD (agree p q) 0).toNat

theorem difference_same (byte : UInt8) (p q : List UInt8) :
    difference (byte :: p) (byte :: q) = difference p q := by
  simp [difference]

theorem difference_differ {a b : UInt8} (differ : a ≠ b) (p q : List UInt8) :
    difference (a :: p) (b :: q) = (a.toNat : Int) - b.toNat := by
  simp [difference, agree_cons_differ differ]

def Begins (text : List UInt8) (size : Nat) (object : Chars) : Prop :=
  (text ++ [0]).take size <+: object

theorem Begins.nil {size : Nat} {object : Chars} (begins : Begins [] (size + 1) object) :
    ∃ rest, object = 0 :: rest := by
  obtain ⟨rest, same, -⟩ := List.cons_prefix_iff.1 begins
  exact ⟨rest, same⟩

theorem Begins.cons {byte : UInt8} {text : List UInt8} {size : Nat} {object : Chars}
    (begins : Begins (byte :: text) (size + 1) object) :
    ∃ rest, object = byte :: rest ∧ Begins text size rest :=
  List.cons_prefix_iff.1 begins

theorem strcmp_difference (p q : List UInt8) (p_noNul : 0 ∉ p) (q_noNul : 0 ∉ q) (P Q : Chars)
    (left : Begins p (agree p q + 1) P) (right : Begins q (agree p q + 1) Q) :
    strcmp P Q = .done (difference p q) := by
  induction p generalizing q P Q with
  | nil =>
    obtain ⟨ps, rfl⟩ := left.nil
    cases q with
    | nil =>
      obtain ⟨qs, rfl⟩ := right.nil
      rfl
    | cons b q =>
      obtain ⟨qs, rfl, -⟩ := right.cons
      simp [strcmp, difference]
  | cons a p ih =>
    obtain ⟨ps, rfl, ps_begins⟩ := left.cons
    have nonzero := List.ne_of_not_mem_cons p_noNul
    have p_noNul := List.not_mem_of_not_mem_cons p_noNul
    cases q with
    | nil =>
      obtain ⟨qs, rfl⟩ := right.nil
      simp [strcmp, difference, Ne.symm nonzero]
    | cons b q =>
      obtain ⟨qs, rfl, qs_begins⟩ := right.cons
      by_cases same : a = b
      · subst same
        rw [agree_cons_same] at ps_begins qs_begins
        rw [strcmp, if_pos ⟨Ne.symm nonzero, rfl⟩, difference_same]
        exact ih q p_noNul (List.not_mem_of_not_mem_cons q_noNul) ps qs ps_begins qs_begins
      · simp [strcmp, same, difference_differ]

theorem strncmp_difference (p q : List UInt8) (p_noNul : 0 ∉ p) (q_noNul : 0 ∉ q) (n : Nat)
    (P Q : Chars) (left : Begins p (min n (agree p q + 1)) P)
    (right : Begins q (min n (agree p q + 1)) Q) :
    strncmp P Q n = .done (if agree p q < n then difference p q else 0) := by
  induction p generalizing q n P Q with
  | nil =>
    cases n with
    | zero => simp [strncmp]
    | succ n =>
      rw [Nat.add_min_add_right] at left right
      obtain ⟨ps, rfl⟩ := left.nil
      cases q with
      | nil =>
        obtain ⟨qs, rfl⟩ := right.nil
        simp [strncmp, difference]
      | cons b q =>
        obtain ⟨qs, rfl, -⟩ := right.cons
        simp [strncmp, difference]
  | cons a p ih =>
    have nonzero := List.ne_of_not_mem_cons p_noNul
    have p_noNul := List.not_mem_of_not_mem_cons p_noNul
    cases n with
    | zero => simp [strncmp]
    | succ n =>
      rw [Nat.add_min_add_right] at left right
      obtain ⟨ps, rfl, ps_begins⟩ := left.cons
      cases q with
      | nil =>
        obtain ⟨qs, rfl⟩ := right.nil
        simp [strncmp, difference, Ne.symm nonzero]
      | cons b q =>
        obtain ⟨qs, rfl, qs_begins⟩ := right.cons
        by_cases same : a = b
        · subst same
          rw [agree_cons_same] at ps_begins qs_begins
          rw [strncmp, if_pos ⟨Ne.symm nonzero, rfl⟩, difference_same, agree_cons_same,
            ih q p_noNul (List.not_mem_of_not_mem_cons q_noNul) n ps qs ps_begins qs_begins]
          simp
        · simp [strncmp, same, difference_differ, agree_cons_differ]

theorem memcmp_difference (p q : List UInt8) (n : Nat) (p_long : n ≤ p.length)
    (q_long : n ≤ q.length) (P Q : Chars) (left : p.take (min n (agree p q + 1)) <+: P)
    (right : q.take (min n (agree p q + 1)) <+: Q) :
    memcmp P Q n = .done (if agree p q < n then difference p q else 0) := by
  induction n generalizing p q P Q with
  | zero => simp [memcmp]
  | succ n ih =>
    obtain ⟨a, p, rfl⟩ := List.exists_cons_of_length_pos (Nat.zero_lt_of_lt p_long)
    obtain ⟨b, q, rfl⟩ := List.exists_cons_of_length_pos (Nat.zero_lt_of_lt q_long)
    rw [Nat.add_min_add_right, List.take_succ_cons] at left right
    obtain ⟨ps, rfl, ps_begins⟩ := List.cons_prefix_iff.1 left
    obtain ⟨qs, rfl, qs_begins⟩ := List.cons_prefix_iff.1 right
    by_cases same : a = b
    · subst same
      rw [agree_cons_same] at ps_begins qs_begins
      rw [memcmp, if_neg (not_not.2 rfl), difference_same, agree_cons_same,
        ih p q (by simpa using p_long) (by simpa using q_long) ps qs ps_begins qs_begins]
      simp
    · simp [memcmp, same, difference_differ, agree_cons_differ]

theorem memcmp_strings (p q : List UInt8) (p_noNul : 0 ∉ p) (q_noNul : 0 ∉ q) (P Q : Chars)
    (left : Begins p (agree p q + 1) P) (right : Begins q (agree p q + 1) Q) :
    memcmp P Q (min p.length q.length + 1) = .done (difference p q) := by
  induction p generalizing q P Q with
  | nil =>
    obtain ⟨ps, rfl⟩ := left.nil
    cases q with
    | nil =>
      obtain ⟨qs, rfl⟩ := right.nil
      simp [memcmp, difference]
    | cons b q =>
      have nonzero := List.ne_of_not_mem_cons q_noNul
      obtain ⟨qs, rfl, -⟩ := right.cons
      simp [memcmp, difference, nonzero]
  | cons a p ih =>
    have nonzero := List.ne_of_not_mem_cons p_noNul
    obtain ⟨ps, rfl, ps_begins⟩ := left.cons
    cases q with
    | nil =>
      obtain ⟨qs, rfl⟩ := right.nil
      simp [memcmp, difference, Ne.symm nonzero]
    | cons b q =>
      obtain ⟨qs, rfl, qs_begins⟩ := right.cons
      by_cases same : a = b
      · subst same
        rw [agree_cons_same] at ps_begins qs_begins
        rw [List.length_cons, List.length_cons, Nat.add_min_add_right, memcmp,
          if_neg (not_not.2 rfl), difference_same]
        exact ih q (List.not_mem_of_not_mem_cons p_noNul) (List.not_mem_of_not_mem_cons q_noNul)
          ps qs ps_begins qs_begins
      · simp [memcmp, same, difference_differ]

theorem difference_comm (p q : List UInt8) : difference q p = -difference p q := by
  simp [difference, agree_comm q p]

theorem sign_byte (a b : Option UInt8) (ha : a = some 0 → b ≠ none) (hb : b = some 0 → a ≠ none) :
    compare (((a.getD 0).toNat : Int) - (b.getD 0).toNat) 0 = compare a b := by
  cases a with
  | none =>
    cases b with
    | none => rfl
    | some b =>
      have positive : 0 < b.toNat := UInt8.pos_iff_ne_zero.2 fun zero => hb (by rw [zero]) rfl
      exact compare_lt_iff_lt.2 (by simpa using positive)
  | some a =>
    cases b with
    | none =>
      have positive : 0 < a.toNat := UInt8.pos_iff_ne_zero.2 fun zero => ha (by rw [zero]) rfl
      exact compare_gt_iff_gt.2 (by simpa using positive)
    | some b =>
      change compare ((a.toNat : Int) - b.toNat) 0 = compare a b
      rcases Nat.lt_trichotomy a.toNat b.toNat with less | same | more
      · rw [Std.compare_eq_lt.2 (UInt8.lt_iff_toNat_lt.2 less)]
        exact compare_lt_iff_lt.2 (by omega)
      · rw [UInt8.toNat_inj.1 same, Std.ReflOrd.compare_self]
        exact compare_eq_iff_eq.2 (by omega)
      · rw [Std.compare_eq_gt.2 (UInt8.lt_iff_toNat_lt.2 more)]
        exact compare_gt_iff_gt.2 (by omega)

theorem noNul_byte {text : List UInt8} (noNul : 0 ∉ text) (i : Nat) : text[i]? ≠ some 0 :=
  fun zero => noNul (List.mem_of_getElem? zero)

theorem difference_sign (p q : List UInt8) (p_noNul : 0 ∉ p) (q_noNul : 0 ∉ q) :
    compare (difference p q) 0 = compare p q := by
  rw [compare_first, difference, List.getD_eq_getElem?_getD, List.getD_eq_getElem?_getD]
  exact sign_byte _ _ (fun nul => absurd nul (noNul_byte p_noNul _))
    (fun nul => absurd nul (noNul_byte q_noNul _))

theorem difference_cut {p q : List UInt8} (n : Nat)
    (first : agree p q < n → compare (difference p q) 0 = compare p[agree p q]? q[agree p q]?) :
    compare (if agree p q < n then difference p q else 0) 0 = compare (p.take n) (q.take n) := by
  rw [compare_take]
  split
  next before => exact first before
  next => rfl

theorem difference_le_zero (p q : List UInt8) (p_noNul : 0 ∉ p) (q_noNul : 0 ∉ q) :
    difference p q ≤ 0 ↔ (compare p q).isLE := by
  rw [← difference_sign p q p_noNul q_noNul, Ordering.isLE_iff_ne_gt, compare_gt_iff_gt]
  exact not_lt.symm

structure OrdersStrings (order : CString → CString → Int) : Prop where
  strcmp_returns : ∀ (p q : CString) (P Q : Chars),
    Begins p.bytes (agree p.bytes q.bytes + 1) P → Begins q.bytes (agree p.bytes q.bytes + 1) Q →
    strcmp P Q = .done (order p q)
  strncmp_returns : ∀ (p q : CString) (n : Nat) (P Q : Chars),
    Begins p.bytes (min n (agree p.bytes q.bytes + 1)) P →
    Begins q.bytes (min n (agree p.bytes q.bytes + 1)) Q →
    ∃ sign, strncmp P Q n = .done sign ∧
      compare sign 0 = compare (p.bytes.take n) (q.bytes.take n) ∧
      (p.bytes.length < n → q.bytes.length < n → sign = order p q)
  memcmp_returns : ∀ (p q : CString) (P Q : Chars),
    Begins p.bytes (agree p.bytes q.bytes + 1) P → Begins q.bytes (agree p.bytes q.bytes + 1) Q →
    memcmp P Q (min p.bytes.length q.bytes.length + 1) = .done (order p q)
  memcmp_blocks : ∀ (p q : List UInt8) (n : Nat) (P Q : Chars), n ≤ p.length → n ≤ q.length →
    p.take (min n (agree p q + 1)) <+: P → q.take (min n (agree p q + 1)) <+: Q →
    ∃ sign, memcmp P Q n = .done sign ∧ compare sign 0 = compare (p.take n) (q.take n)
  sign : ∀ p q : CString, compare (order p q) 0 = compare p.bytes q.bytes
  zero : ∀ p q : CString, order p q = 0 ↔ p.bytes = q.bytes
  antisymm : ∀ p q : CString, (order q p).sign = -(order p q).sign
  trans : ∀ p q r : CString, order p q ≤ 0 → order q r ≤ 0 → order p r ≤ 0

theorem comparisons_order : OrdersStrings fun p q => difference p.bytes q.bytes where
  strcmp_returns p q P Q := strcmp_difference p.bytes q.bytes p.noNul q.noNul P Q
  strncmp_returns p q n P Q left right := by
    refine ⟨_, strncmp_difference p.bytes q.bytes p.noNul q.noNul n P Q left right, ?_, ?_⟩
    · apply difference_cut
      intro _
      rw [difference_sign p.bytes q.bytes p.noNul q.noNul, compare_first]
    · intro short _
      have before := agree_le p.bytes q.bytes
      rw [if_pos (by omega)]
  memcmp_returns p q P Q := memcmp_strings p.bytes q.bytes p.noNul q.noNul P Q
  memcmp_blocks p q n P Q p_long q_long left right := by
    refine ⟨_, memcmp_difference p q n p_long q_long P Q left right, ?_⟩
    apply difference_cut
    intro before
    rw [difference, List.getD_eq_getElem?_getD, List.getD_eq_getElem?_getD]
    apply sign_byte
    · rw [List.getElem?_eq_getElem (show agree p q < q.length by omega)]
      exact fun _ => Option.some_ne_none _
    · rw [List.getElem?_eq_getElem (show agree p q < p.length by omega)]
      exact fun _ => Option.some_ne_none _
  sign p q := difference_sign p.bytes q.bytes p.noNul q.noNul
  zero p q := by
    rw [← compare_eq_iff_eq, difference_sign p.bytes q.bytes p.noNul q.noNul]
    exact Std.LawfulEqOrd.compare_eq_iff_eq
  antisymm p q := by
    rw [difference_comm, Int.sign_neg]
  trans p q r pq qr := by
    rw [difference_le_zero _ _ p.noNul q.noNul] at pq
    rw [difference_le_zero _ _ q.noNul r.noNul] at qr
    rw [difference_le_zero _ _ p.noNul r.noNul]
    exact Std.TransOrd.isLE_trans pq qr

end JosLab
