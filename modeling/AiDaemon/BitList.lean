import Mathlib.Data.List.Basic
import Mathlib.Data.Nat.Bitwise
import Mathlib.Tactic.Common

/-!
# Bits of bytes

A string of bytes is a string of bits, the least significant bit of every byte
first (`ofBytes`).  Numbers are written in it with their least significant bit
first (`lsb`) or with their most significant bit first (`msb`).
-/

namespace AiDaemon.BitList

/-- A number of bits of a number, the least significant first. -/
def lsb : Nat → Nat → List Bool
  | 0, _ => []
  | count + 1, n => n.testBit 0 :: lsb count (n / 2)

/-- A number of bits of a number, the most significant first. -/
def msb (count n : Nat) : List Bool := (lsb count n).reverse

def ofByte (byte : UInt8) : List Bool := lsb 8 byte.toNat

def ofBytes (bytes : List UInt8) : List Bool := bytes.flatMap ofByte

/-! ### Numbers -/

@[simp] theorem length_lsb (count n : Nat) : (lsb count n).length = count := by
  induction count generalizing n with
  | zero => rfl
  | succ count ih => rw [lsb, List.length_cons, ih]

@[simp] theorem length_msb (count n : Nat) : (msb count n).length = count := by
  rw [msb, List.length_reverse, length_lsb]

theorem getElem?_lsb {count n i : Nat} (h : i < count) :
    (lsb count n)[i]? = some (n.testBit i) := by
  induction count generalizing n i with
  | zero => omega
  | succ count ih =>
    cases i with
    | zero => rfl
    | succ i => rw [lsb, List.getElem?_cons_succ, ih (by omega), Nat.testBit_succ]

theorem lsb_add (a b n : Nat) : lsb (a + b) n = lsb a n ++ lsb b (n / 2 ^ a) := by
  induction a generalizing n with
  | zero => rw [Nat.zero_add, lsb, List.nil_append, Nat.pow_zero, Nat.div_one]
  | succ a ih =>
    rw [Nat.succ_add, lsb, lsb, ih, List.cons_append, Nat.div_div_eq_div_mul, Nat.pow_succ']

theorem lsb_mod (count n : Nat) : lsb count (n % 2 ^ count) = lsb count n := by
  refine List.ext_getElem? fun i => ?_
  by_cases hi : i < count
  · rw [getElem?_lsb hi, getElem?_lsb hi, Nat.testBit_mod_two_pow, decide_eq_true hi, Bool.true_and]
  · rw [List.getElem?_eq_none (by simpa using hi), List.getElem?_eq_none (by simpa using hi)]

/-- The top bit of the rest comes next. -/
theorem msb_succ (count n : Nat) : msb (count + 1) n = n.testBit count :: msb count n := by
  have hsplit : lsb (count + 1) n = lsb count n ++ [n.testBit count] := by
    rw [lsb_add count 1 n, lsb, lsb, Nat.testBit_div_two_pow, Nat.zero_add]
  rw [msb, hsplit, List.reverse_append, msb]
  rfl

/-- What has been read of a number so far, and the next bit. -/
theorem div_two_pow_bit (n count : Nat) :
    n / 2 ^ count = 2 * (n / 2 ^ (count + 1)) + (n.testBit count).toNat := by
  have hbit : (n.testBit count).toNat = n / 2 ^ count % 2 := by
    rw [Nat.testBit_eq_decide_div_mod_eq]
    rcases Nat.mod_two_eq_zero_or_one (n / 2 ^ count) with h | h
    · rw [h]
      rfl
    · rw [h]
      rfl
  rw [hbit, Nat.pow_succ, ← Nat.div_div_eq_div_mul]
  omega

/-! ### Bytes -/

@[simp] theorem length_ofByte (byte : UInt8) : (ofByte byte).length = 8 := length_lsb 8 _

theorem ofBytes_cons (byte : UInt8) (bytes : List UInt8) :
    ofBytes (byte :: bytes) = ofByte byte ++ ofBytes bytes := List.flatMap_cons

@[simp] theorem ofBytes_append (bytes bytes' : List UInt8) :
    ofBytes (bytes ++ bytes') = ofBytes bytes ++ ofBytes bytes' := List.flatMap_append

@[simp] theorem length_ofBytes (bytes : List UInt8) :
    (ofBytes bytes).length = 8 * bytes.length := by
  induction bytes with
  | nil => rfl
  | cons byte bytes ih =>
    rw [ofBytes_cons, List.length_append, length_ofByte, ih, List.length_cons]
    omega

theorem drop_ofBytes (bytes : List UInt8) (k : Nat) :
    (ofBytes bytes).drop (8 * k) = ofBytes (bytes.drop k) := by
  induction k generalizing bytes with
  | zero => rfl
  | succ k ih =>
    cases bytes with
    | nil => simp [ofBytes]
    | cons byte bytes =>
      have hlen : 8 * (k + 1) = (ofByte byte).length + 8 * k := by
        rw [length_ofByte]
        omega
      rw [ofBytes_cons, hlen, List.drop_length_add_append, ih, List.drop_succ_cons]

/-- The bit at a position is in the byte there. -/
theorem getElem?_ofBytes (bytes : List UInt8) (position : Nat) :
    (ofBytes bytes)[position]? =
      bytes[position / 8]?.map fun byte => byte.toNat.testBit (position % 8) := by
  have hdrop :
    (ofBytes bytes)[position]? = ((ofBytes bytes).drop (8 * (position / 8)))[position % 8]? := by
    rw [List.getElem?_drop, Nat.div_add_mod]
  rw [hdrop, drop_ofBytes]
  cases hrest : bytes.drop (position / 8) with
  | nil =>
    rw [List.drop_eq_nil_iff] at hrest
    rw [List.getElem?_eq_none hrest]
    rfl
  | cons byte rest =>
    have hbyte : bytes[position / 8]? = some byte := by
      rw [← List.head?_drop, hrest, List.head?_cons]
    have hlt : position % 8 < 8 := Nat.mod_lt _ (by decide)
    rw [hbyte, ofBytes_cons, List.getElem?_append_left (by rwa [length_ofByte]), ofByte,
      getElem?_lsb hlt]
    rfl

theorem ofByte_injective {a b : UInt8} (h : ofByte a = ofByte b) : a = b := by
  refine UInt8.toNat_inj.mp (Nat.eq_of_testBit_eq fun i => ?_)
  by_cases hi : i < 8
  · have hget := congrArg (fun bits => bits[i]?) h
    simpa [ofByte, getElem?_lsb hi] using hget
  · have hlarge : ∀ byte : UInt8, byte.toNat.testBit i = false := by
      intro byte
      refine Nat.testBit_lt_two_pow (lt_of_lt_of_le byte.toNat_lt ?_)
      exact Nat.pow_le_pow_right (by decide) (by omega)
    rw [hlarge, hlarge]

/-- Bytes whose bits come first come first. -/
theorem take_of_ofBytes {bytes data : List UInt8} {rest : List Bool}
    (h : ofBytes bytes = ofBytes data ++ rest) :
    data.length ≤ bytes.length ∧ bytes.take data.length = data := by
  induction data generalizing bytes with
  | nil => exact ⟨Nat.zero_le _, rfl⟩
  | cons d data ih =>
    cases bytes with
    | nil =>
      have hlen := congrArg List.length h
      rw [List.length_append, length_ofBytes, length_ofBytes, List.length_cons,
        List.length_nil] at hlen
      omega
    | cons byte bytes =>
      rw [ofBytes_cons, ofBytes_cons, List.append_assoc] at h
      obtain ⟨hfirst, hrest⟩ := List.append_inj h (by rw [length_ofByte, length_ofByte])
      obtain ⟨hlen, htake⟩ := ih hrest
      refine ⟨Nat.succ_le_succ hlen, ?_⟩
      rw [List.length_cons, List.take_succ_cons, htake, ofByte_injective hfirst]

/-- A number of two bytes. -/
theorem lsb_sixteen (n : Nat) :
    lsb 16 n = ofBytes [UInt8.ofNat n, UInt8.ofNat (n / 256)] := by
  have hlow : ofByte (UInt8.ofNat n) = lsb 8 n := by
    rw [ofByte, UInt8.toNat_ofNat', lsb_mod 8 n]
  have hhigh : ofByte (UInt8.ofNat (n / 256)) = lsb 8 (n / 2 ^ 8) := by
    rw [ofByte, UInt8.toNat_ofNat', lsb_mod 8 (n / 256)]
    rfl
  rw [lsb_add 8 8 n, ofBytes_cons, ofBytes_cons, hlow, hhigh]
  rfl

end AiDaemon.BitList
