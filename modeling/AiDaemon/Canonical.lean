import Mathlib.Data.List.Basic
import Mathlib.Data.List.Count
import Mathlib.Algebra.Order.BigOperators.Group.List
import Mathlib.Algebra.Order.Group.Nat
import Mathlib.Tactic.Common
import Mathlib.Algebra.Order.Ring.Nat
import Mathlib.Data.UInt

/-!
# Canonical codes

A canonical prefix code is given by the lengths of its codes alone: among the
codes of one length the symbols come in order, and the first code of a length
follows the last of the length before, with a zero added.  A length of zero is
no code.

The symbols sorted by length have a place each (`slot`); a code is found from
the bits read so far because it lies above all codes that are shorter
(`shorter_le_code`).
-/

namespace AiDaemon.Canonical

variable (lengths : List Nat)

/-- How many codes have this length. -/
def count (l : Nat) : Nat := if l = 0 then 0 else lengths.count l

/-- How many codes are shorter. -/
def base (l : Nat) : Nat := lengths.countP fun length => 0 < length ∧ length < l

/-- The first code of a length. -/
def first : Nat → Nat
  | 0 => 0
  | l + 1 => 2 * (first l + count lengths l)

/-- How many symbols before this one have the same length. -/
def rank (symbol l : Nat) : Nat := (lengths.take symbol).count l

/-- The code of a symbol of this length. -/
def code (symbol l : Nat) : Nat := first lengths l + rank lengths symbol l

/-- The place of a symbol of this length among all symbols sorted by length. -/
def slot (symbol l : Nat) : Nat := base lengths l + rank lengths symbol l

variable {lengths}

theorem base_one : base lengths 1 = 0 := by
  rw [base, List.countP_eq_zero]
  intro length _
  simp only [decide_eq_true_eq]
  omega

theorem base_succ (l : Nat) : base lengths (l + 1) = base lengths l + count lengths l := by
  induction lengths with
  | nil =>
    unfold base count
    simp
  | cons length lengths ih =>
    unfold base count at ih ⊢
    simp only [List.countP_cons, List.count_cons, decide_eq_true_eq] at ih ⊢
    by_cases hl : l = 0
    · subst hl
      simp only [if_true] at ih ⊢
      rw [ih]
      split_ifs <;> omega
    · simp only [hl, if_false] at ih ⊢
      rw [ih]
      by_cases hsame : length = l
      · subst hsame
        have hpos : 0 < length := Nat.pos_of_ne_zero hl
        simp [hpos]
        omega
      · have hbeq : (length == l) = false := by simpa using hsame
        have hiff : (0 < length ∧ length < l + 1) ↔ (0 < length ∧ length < l) := by omega
        simp only [hbeq, hiff, Bool.false_eq_true, if_false]
        split_ifs <;> omega

theorem base_le_length (l : Nat) : base lengths l ≤ lengths.length := List.countP_le_length

variable (lengths) in
theorem base_add_count_le (l : Nat) : base lengths l + count lengths l ≤ lengths.length := by
  rw [← base_succ]
  exact base_le_length _

variable (lengths) in
theorem base_mono {l m : Nat} (h : l ≤ m) : base lengths l ≤ base lengths m := by
  refine List.countP_mono_left fun length _ => ?_
  simp only [decide_eq_true_eq]
  omega

theorem count_le_length (l : Nat) : count lengths l ≤ lengths.length := by
  have h := base_add_count_le lengths l
  omega

/-- A symbol comes before the number of symbols of its length. -/
theorem rank_lt {symbol l : Nat} (h : lengths[symbol]? = some l) (hl : l ≠ 0) :
    rank lengths symbol l < count lengths l := by
  obtain ⟨hlt, hget⟩ := List.getElem?_eq_some_iff.mp h
  rw [rank, count, if_neg hl]
  calc (lengths.take symbol).count l
      < (lengths.take (symbol + 1)).count l := by
        rw [List.take_succ_eq_append_getElem hlt, hget, List.count_append]
        simp
    _ ≤ lengths.count l := (List.take_sublist _ _).count_le l

theorem rank_succ {symbol l : Nat} (h : lengths[symbol]? = some l) (m : Nat) :
    rank lengths (symbol + 1) m = rank lengths symbol m + if l = m then 1 else 0 := by
  obtain ⟨hlt, hget⟩ := List.getElem?_eq_some_iff.mp h
  rw [rank, rank, List.take_succ_eq_append_getElem hlt, hget, List.count_append,
    List.count_singleton]
  simp only [beq_iff_eq]

variable (lengths) in
theorem rank_mono {s t l : Nat} (h : s ≤ t) : rank lengths s l ≤ rank lengths t l :=
  (List.take_sublist_take_left h).count_le l

theorem slot_lt {symbol l : Nat} (h : lengths[symbol]? = some l) (hl : l ≠ 0) :
    slot lengths symbol l < base lengths (l + 1) := by
  have hrank := rank_lt h hl
  rw [slot, base_succ]
  omega

/-- No two symbols have one place. -/
theorem slot_ne {s t l m : Nat} (hs : lengths[s]? = some l) (ht : lengths[t]? = some m) (hl : l ≠ 0)
    (hm : m ≠ 0) (hlt : s < t) : slot lengths s l ≠ slot lengths t m := by
  have hslot := slot_lt hs hl
  have hslot' := slot_lt ht hm
  rcases Nat.lt_trichotomy l m with hless | rfl | hless
  · have hmono := base_mono lengths (show l + 1 ≤ m from hless)
    unfold slot at hslot ⊢
    omega
  · have hrank := rank_succ hs l
    have hmono := rank_mono lengths (l := l) (show s + 1 ≤ t from hlt)
    rw [if_pos rfl] at hrank
    unfold slot
    omega
  · have hmono := base_mono lengths (show m + 1 ≤ l from hless)
    unfold slot at hslot' ⊢
    omega

/-- The codes of a length lie above all shorter ones. -/
theorem first_ge {m l : Nat} (h : m < l) :
    2 ^ (l - m) * (first lengths m + count lengths m) ≤ first lengths l := by
  induction l with
  | zero => omega
  | succ l ih =>
    rw [first]
    rcases Nat.lt_or_ge m l with hless | hge
    · have hprev := ih hless
      rw [show l + 1 - m = (l - m) + 1 by omega, Nat.pow_succ', Nat.mul_assoc]
      omega
    · obtain rfl : m = l := by omega
      have hone : m + 1 - m = 1 := by omega
      exact Nat.le_of_eq (by rw [hone, Nat.pow_one])

variable (lengths) in
/-- So what has been read of a code when it is not complete lies above the codes
    that are. -/
theorem shorter_le_code {m l : Nat} (h : m < l) (symbol : Nat) :
    first lengths m + count lengths m ≤ code lengths symbol l / 2 ^ (l - m) := by
  rw [Nat.le_div_iff_mul_le (Nat.two_pow_pos _), Nat.mul_comm]
  exact Nat.le_trans (first_ge h) (Nat.le_add_right _ _)

/-! ### Codes that leave room for each other -/

/-- What the codes of at most this length take of the codes of length `top`. -/
def taken (lengths : List Nat) (top l : Nat) : Nat :=
  (lengths.map fun m => if 0 < m ∧ m ≤ l then 2 ^ (top - m) else 0).sum

/-- No more than there is: the code is complete, or some codes are left over. -/
def HasRoom (lengths : List Nat) (top : Nat) : Prop := taken lengths top top ≤ 2 ^ top

theorem taken_zero (top : Nat) : taken lengths top 0 = 0 := by
  refine List.sum_eq_zero fun n hn => ?_
  obtain ⟨m, -, rfl⟩ := List.mem_map.mp hn
  exact if_neg (by omega)

theorem taken_succ (top l : Nat) :
    taken lengths top (l + 1) =
    taken lengths top l + count lengths (l + 1) * 2 ^ (top - (l + 1)) := by
  rw [count, if_neg (Nat.succ_ne_zero l)]
  induction lengths with
  | nil => simp [taken]
  | cons length lengths ih =>
    unfold taken at ih ⊢
    rw [List.map_cons, List.map_cons, List.sum_cons, List.sum_cons, ih]
    by_cases hsame : length = l + 1
    · subst hsame
      rw [if_pos (by omega), if_neg (by omega), List.count_cons_self, Nat.add_mul]
      omega
    · have hiff : (0 < length ∧ length ≤ l + 1) ↔ (0 < length ∧ length ≤ l) := by omega
      rw [if_congr hiff rfl rfl, List.count_cons_of_ne hsame]
      omega

/-- The codes up to a length lie together at the bottom. -/
theorem first_add_count_mul {top l : Nat} (hl : l ≤ top) :
    (first lengths l + count lengths l) * 2 ^ (top - l) = taken lengths top l := by
  induction l with
  | zero => rw [taken_zero, first, count, if_pos rfl, Nat.zero_add, Nat.zero_mul]
  | succ l ih =>
    have hpow : 2 ^ (top - l) = 2 * 2 ^ (top - (l + 1)) := by
      rw [← Nat.pow_succ', show (top - (l + 1)).succ = top - l by omega]
    have hprev := ih (by omega)
    rw [hpow] at hprev
    rw [taken_succ, ← hprev, first, Nat.add_mul, Nat.mul_comm 2, Nat.mul_assoc]

theorem taken_le (top l : Nat) (hl : l ≤ top) : taken lengths top l ≤ taken lengths top top := by
  refine List.sum_le_sum fun m _ => ?_
  split_ifs with hm htop
  · exact Nat.le_refl _
  · omega
  · exact Nat.zero_le _
  · exact Nat.le_refl _

/-- **Every code has as many bits as its length says.** -/
theorem code_lt {top symbol l : Nat} (h : HasRoom lengths top) (hs : lengths[symbol]? = some l)
    (hpos : l ≠ 0) (hl : l ≤ top) : code lengths symbol l < 2 ^ l := by
  have hrank := rank_lt hs hpos
  have hroom : (first lengths l + count lengths l) * 2 ^ (top - l) ≤ 2 ^ l * 2 ^ (top - l) := by
    calc (first lengths l + count lengths l) * 2 ^ (top - l)
        = taken lengths top l := first_add_count_mul hl
      _ ≤ taken lengths top top := taken_le top l hl
      _ ≤ 2 ^ top := h
      _ = 2 ^ l * 2 ^ (top - l) := by rw [← Nat.pow_add, Nat.add_sub_cancel' hl]
  have hle := Nat.le_of_mul_le_mul_right hroom (Nat.two_pow_pos _)
  rw [code]
  omega

end AiDaemon.Canonical
