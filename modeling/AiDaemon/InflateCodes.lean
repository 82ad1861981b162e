import AiDaemon.BitList
import AiDaemon.Canonical
import AiDaemon.Inflate
import Mathlib.Logic.Function.Basic
import Mathlib.Tactic.Ring

/-!
# Bits and codes of the inflater

What is read at a position is what the bits of the bytes hold there (`Left`).
The tables of a code are those of the canonical code of its lengths
(`new_spec`), whatever the lengths are, and a lookup stays inside them
(`safe_decode`); a code that is there is read as its symbol (`decode_code`).
-/

namespace AiDaemon.Inflate

open Checked BitList

/-- Bytes whose bits a `usize` can count.  No process holds more, and the daemon
    hands over far less. -/
def InMemory (bytes : List UInt8) : Prop := bytes.length < 2 ^ 61

instance (bytes : List UInt8) : Decidable (InMemory bytes) := inferInstanceAs (Decidable (_ < _))

/-- The bits that are left at a position. -/
def Left (bytes : List UInt8) (position : Nat) : List Bool := (ofBytes bytes).drop position

variable {bytes : List UInt8} {position : Nat}

/-! ### Bits -/

theorem shiftRight_and_one (n i : Nat) : (n >>> i) &&& 1 = (n.testBit i).toNat := by
  rw [Nat.testBit, Nat.and_comm, Nat.one_and_eq_mod_two]
  rcases Nat.mod_two_eq_zero_or_one (n >>> i) with h | h
  · rw [h]
    rfl
  · rw [h]
    rfl

theorem position_and_seven (n : Nat) : n &&& 7 = n % 8 := Nat.and_two_pow_sub_one_eq_mod n 3

theorem length_left (bytes : List UInt8) (position : Nat) :
    (Left bytes position).length = 8 * bytes.length - position := by
  rw [Left, List.length_drop, length_ofBytes]

theorem left_add {some rest : List Bool} (h : Left bytes position = some ++ rest) :
    Left bytes (position + some.length) = rest := by
  rw [Left, ← List.drop_drop]
  rw [Left] at h
  rw [h, List.drop_left]

theorem bit_of_left (hmem : InMemory bytes) {b : Bool} {rest : List Bool}
    (h : Left bytes position = b :: rest) :
    bit bytes position = .ok (b.toNat, position + 1) ∧ Left bytes (position + 1) = rest := by
  have hrest : Left bytes (position + [b].length) = rest := left_add h
  have hget : (ofBytes bytes)[position]? = some b := by
    rw [← List.head?_drop, ← Left, h, List.head?_cons]
  have hlen : position < 8 * bytes.length := by
    have hlength := congrArg List.length h
    rw [length_left, List.length_cons] at hlength
    omega
  rw [getElem?_ofBytes, Option.map_eq_some_iff] at hget
  obtain ⟨byte, hbyte, rfl⟩ := hget
  refine ⟨?_, hrest⟩
  unfold InMemory at hmem
  rw [bit, Nat.shiftRight_eq_div_pow, hbyte, position_and_seven]
  dsimp only
  rw [fits_eq (by omega), bind_ok, pure_eq, shiftRight_and_one]

theorem bit_of_end (h : Left bytes position = []) :
    bit bytes position = fail "deflate stream ended early".toList := by
  have hnone : bytes[position / 8]? = none := by
    have hlength := congrArg List.length h
    rw [length_left, List.length_nil] at hlength
    rw [List.getElem?_eq_none_iff]
    omega
  rw [bit, Nat.shiftRight_eq_div_pow, hnone]

/-- One bit is read, and there was one. -/
theorem safe_bit (hmem : InMemory bytes) (position : Nat) :
    Safe (bit bytes position) fun r => r.1 ≤ 1 ∧ r.2 = position + 1 ∧
    position < 8 * bytes.length := by
  cases h : Left bytes position with
  | nil =>
    rw [bit_of_end h]
    exact safe_fail _
  | cons b rest =>
    have hlength := congrArg List.length h
    rw [length_left, List.length_cons] at hlength
    rw [(bit_of_left hmem h).1]
    exact safe_ok ⟨Bool.toNat_le b, rfl, by omega⟩

/-- A bit above a number. -/
theorem or_shift {value b index : Nat} (hvalue : value < 2 ^ index) (hb : b ≤ 1)
    (hindex : index < 31) :
    value ||| (b <<< index % 2 ^ 32) = value + b * 2 ^ index := by
  have hpow : 2 ^ index ≤ 2 ^ 30 := Nat.pow_le_pow_right (by decide) (by omega)
  have hsmall : b * 2 ^ index < 2 ^ 32 := by
    have hle : b * 2 ^ index ≤ 1 * 2 ^ index := Nat.mul_le_mul_right _ hb
    omega
  rw [Nat.shiftLeft_eq, Nat.mod_eq_of_lt hsmall, Nat.or_comm, Nat.mul_comm,
    ← Nat.two_pow_add_eq_or_of_lt hvalue, Nat.add_comm]

theorem shl32_eq (n : Nat) {k : Nat} (h : k < 32) : shl32 n k = .ok (n <<< k % 2 ^ 32) := if_pos h

theorem lt_two_pow_succ {value b index : Nat} (hvalue : value < 2 ^ index) (hb : b ≤ 1) :
    value + b * 2 ^ index < 2 ^ (index + 1) := by
  have hle : b * 2 ^ index ≤ 1 * 2 ^ index := Nat.mul_le_mul_right _ hb
  rw [Nat.pow_succ]
  omega

theorem safe_bitsLoop (hmem : InMemory bytes) {count index value : Nat}
    (hcount : index + count < 32)
    (hvalue : value < 2 ^ index) (hposition : position ≤ 8 * bytes.length) :
    Safe (bitsLoop bytes count index value position) fun r =>
      r.1 < 2 ^ (index + count) ∧ r.2 = position + count ∧ r.2 ≤ 8 * bytes.length := by
  induction count generalizing index value position with
  | zero => exact safe_ok ⟨hvalue, rfl, hposition⟩
  | succ count ih =>
    rw [bitsLoop]
    refine (safe_bit hmem position).bind ?_
    rintro ⟨b, _⟩ ⟨hb, rfl, hlt⟩
    dsimp only at hb ⊢
    have hnext := ih (show index + 1 + count < 32 by omega) (lt_two_pow_succ hvalue hb)
      (show position + 1 ≤ 8 * bytes.length by omega)
    rw [← or_shift hvalue hb (show index < 31 by omega)] at hnext
    rw [shl32_eq b (show index < 32 by omega), bind_ok]
    refine hnext.imp ?_
    rintro ⟨n, p⟩ ⟨hn, rfl, hp⟩
    refine ⟨?_, by omega, hp⟩
    rwa [show index + (count + 1) = index + 1 + count by omega]

/-- A number of this many bits is read. -/
theorem safe_bits (hmem : InMemory bytes) {count : Nat} (hcount : count < 32)
    (hposition : position ≤ 8 * bytes.length) :
    Safe (bits bytes count position) fun r =>
      r.1 < 2 ^ count ∧ r.2 = position + count ∧ r.2 ≤ 8 * bytes.length := by
  have h : Safe (bitsLoop bytes count 0 0 position) fun r =>
      r.1 < 2 ^ (0 + count) ∧ r.2 = position + count ∧ r.2 ≤ 8 * bytes.length :=
    safe_bitsLoop hmem (by omega) (by decide) hposition
  rwa [Nat.zero_add] at h

theorem bitsLoop_of_left (hmem : InMemory bytes) {count index value n : Nat} {rest : List Bool}
    (hcount : index + count < 32) (hvalue : value < 2 ^ index)
    (h : Left bytes position = lsb count n ++ rest) :
    bitsLoop bytes count index value position =
      .ok (value + n % 2 ^ count * 2 ^ index, position + count) := by
  induction count generalizing index value n position with
  | zero => simp [bitsLoop, Nat.mod_one]
  | succ count ih =>
    rw [lsb, List.cons_append] at h
    obtain ⟨hbit, hleft⟩ := bit_of_left hmem h
    have hb : (n.testBit 0).toNat ≤ 1 := Bool.toNat_le _
    rw [bitsLoop, hbit, bind_ok]
    dsimp only
    rw [shl32_eq _ (show index < 32 by omega), bind_ok, or_shift hvalue hb (by omega),
      ih (by omega) (lt_two_pow_succ hvalue hb) hleft]
    have hparity : (n.testBit 0).toNat = n % 2 := by
      rw [Nat.testBit_zero]
      rcases Nat.mod_two_eq_zero_or_one n with h | h
      · rw [h]
        rfl
      · rw [h]
        rfl
    have hmod : n % 2 ^ (count + 1) = n % 2 + 2 * (n / 2 % 2 ^ count) := by
      rw [Nat.pow_succ', Nat.mod_mul]
    rw [hparity, hmod, Nat.pow_succ, Nat.add_mul]
    refine congrArg Except.ok (Prod.ext ?_ (by omega))
    ring

/-- **A number of this many bits** is read as it was written. -/
theorem bits_of_left (hmem : InMemory bytes) {count n : Nat} {rest : List Bool}
    (hcount : count < 32)
    (hn : n < 2 ^ count) (h : Left bytes position = lsb count n ++ rest) :
    bits bytes count position = .ok (n, position + count) ∧
    Left bytes (position + count) = rest := by
  have hleft := left_add h
  rw [length_lsb] at hleft
  refine ⟨?_, hleft⟩
  rw [bits, bitsLoop_of_left hmem (by omega) (by decide) h, Nat.mod_eq_of_lt hn, Nat.zero_add,
    Nat.pow_zero, Nat.mul_one]

/-! ### Tables -/

/-- A table that is given by a function. -/
def table {α : Type} (n : Nat) (f : Nat → α) : List α := (List.range n).map f

section

variable {α ε : Type} {n i : Nat}

@[simp] theorem length_table (f : Nat → α) : (table n f).length = n := by
  rw [table, List.length_map, List.length_range]

theorem getElem?_table (f : Nat → α) (h : i < n) : (table n f)[i]? = some (f i) := by
  rw [table, List.getElem?_map, List.getElem?_range h]
  rfl

theorem get_table (f : Nat → α) (h : i < n) : (get (table n f) i : Run ε α) = .ok (f i) :=
  get_eq (getElem?_table f h)

theorem table_congr {f g : Nat → α} (h : ∀ i < n, f i = g i) : table n f = table n g :=
  List.map_congr_left fun i hi => h i (List.mem_range.mp hi)

theorem put_table (f : Nat → α) (h : i < n) (x : α) :
    (put (table n f) i x : Run ε (List α)) = .ok (table n (Function.update f i x)) := by
  rw [put_eq (by rwa [length_table])]
  refine congrArg Except.ok (List.ext_getElem? fun j => ?_)
  rw [List.getElem?_set, length_table]
  by_cases hj : j < n
  · rw [getElem?_table _ hj, getElem?_table _ hj]
    by_cases hij : i = j
    · subst hij
      rw [if_pos rfl, if_pos h, Function.update_self]
    · rw [if_neg hij, Function.update_of_ne (Ne.symm hij)]
  · have hnone : ∀ g : Nat → α, (table n g)[j]? = none := by
      intro g
      rw [List.getElem?_eq_none_iff, length_table]
      omega
    rw [hnone, hnone, if_neg (by omega)]

theorem replicate_eq_table (x : α) : List.replicate n x = table n fun _ => x := by
  rw [table, List.map_const', List.length_range]

end

/-! ### The tables of a code -/

variable {lengths : List Nat}

theorem countLengths_eq (c : Nat → Nat) (hlengths : ∀ l ∈ lengths, l < 16)
    (hfits : ∀ l, c l + lengths.count l < 2 ^ 16) :
    countLengths lengths (table 16 c) = .ok (table 16 fun l => c l + lengths.count l) := by
  induction lengths generalizing c with
  | nil => rfl
  | cons length lengths ih =>
    rw [List.forall_mem_cons] at hlengths
    have hcount : ∀ l, Function.update c length (c length + 1) l + lengths.count l =
        c l + (length :: lengths).count l := by
      intro l
      by_cases hl : l = length
      · subst hl
        rw [Function.update_self, List.count_cons_self]
        omega
      · rw [Function.update_of_ne hl, List.count_cons_of_ne (Ne.symm hl)]
    have hlength : c length + 1 < 2 ^ 16 := by
      have h := hfits length
      rw [List.count_cons_self] at h
      omega
    rw [countLengths, get_table c hlengths.1, bind_ok, fits_eq hlength, bind_ok,
      put_table c hlengths.1, bind_ok, ih _ hlengths.2 fun l => by rw [hcount]; exact hfits l]
    exact congrArg Except.ok (table_congr fun l _ => hcount l)

/-- The offsets before an index are in place. -/
theorem sumCounts_eq (lengths : List Nat) {n index : Nat} (hend : index + n = 16) (hpos : 0 < index)
    (hlen : lengths.length < 2 ^ 16) (o : Nat → Nat)
    (ho : ∀ l < index, o l = Canonical.base lengths l) :
    sumCounts (table 16 (Canonical.count lengths)) (List.range' index n) (table 16 o) =
      .ok (table 16 (Canonical.base lengths)) := by
  induction n generalizing index o with
  | zero => exact congrArg Except.ok (table_congr fun l hl => ho l (by omega))
  | succ n ih =>
    have hbase :
      o (index - 1) + Canonical.count lengths (index - 1) = Canonical.base lengths index := by
      rw [ho _ (by omega), ← Canonical.base_succ, Nat.sub_add_cancel hpos]
    have hsmall : Canonical.base lengths index < 2 ^ 16 :=
      lt_of_le_of_lt (Canonical.base_le_length _) hlen
    rw [List.range'_succ, sumCounts, get_table o (by omega), bind_ok,
      get_table (Canonical.count lengths) (by omega), bind_ok, hbase, fits_eq hsmall, bind_ok,
      put_table o (by omega), bind_ok]
    refine ih (by omega) (by omega) _ fun l hl => ?_
    by_cases hsame : l = index
    · rw [hsame, Function.update_self]
    · rw [Function.update_of_ne hsame, ho l (by omega)]

/-- The symbols before an index are in place. -/
def Placed (lengths : List Nat) (index : Nat) (symbols : List Nat) : Prop :=
  ∀ s l, s < index → lengths[s]? = some l → l ≠ 0 →
    symbols[Canonical.slot lengths s l]? = some s

theorem slot_lt_length {s l : Nat} (hs : lengths[s]? = some l) (hl : l ≠ 0) :
    Canonical.slot lengths s l < lengths.length :=
  lt_of_lt_of_le (Canonical.slot_lt hs hl) (Canonical.base_le_length _)

/-- The next symbol goes to a free place. -/
theorem Placed.put {s l : Nat} {symbols : List Nat} (h : Placed lengths s symbols)
    (hs : lengths[s]? = some l) (hl : l ≠ 0) (hsize : symbols.length = lengths.length) :
    Placed lengths (s + 1) (symbols.set (Canonical.slot lengths s l) s) := by
  intro t m ht htm hm
  rw [List.getElem?_set]
  rcases Nat.lt_succ_iff_lt_or_eq.mp ht with hlt | rfl
  · rw [if_neg (Canonical.slot_ne htm hs hm hl hlt).symm]
    exact h t m hlt htm hm
  · cases hs.symm.trans htm
    rw [if_pos rfl, if_pos (by rw [hsize]; exact slot_lt_length hs hl)]

theorem placeSymbols_spec {rest : List Nat} (index : Nat) (hrest : lengths.drop index = rest)
    (hlengths : ∀ l ∈ lengths, l < 16) (hlen : lengths.length < 2 ^ 16) (o : Nat → Nat)
    (ho : ∀ l, l ≠ 0 → o l = Canonical.slot lengths index l) {symbols : List Nat}
    (hsize : symbols.length = lengths.length) (hplaced : Placed lengths index symbols) :
    ∃ made, placeSymbols rest index (table 16 o) symbols = .ok made ∧
      made.length = lengths.length ∧ Placed lengths lengths.length made := by
  induction rest generalizing index o symbols with
  | nil =>
    rw [List.drop_eq_nil_iff] at hrest
    refine ⟨symbols, rfl, hsize, ?_⟩
    intro s l hs
    exact hplaced s l (by omega)
  | cons length rest ih =>
    have hindex : index < lengths.length := by
      have h := congrArg List.length hrest
      rw [List.length_drop, List.length_cons] at h
      omega
    have hget : lengths[index]? = some length := by
      rw [← List.head?_drop, hrest, List.head?_cons]
    have hnext : lengths.drop (index + 1) = rest := by
      rw [← List.tail_drop, hrest, List.tail_cons]
    rw [placeSymbols]
    split_ifs with hzero
    · -- a symbol with a code takes the next place of its length
      have hslot := slot_lt_length hget hzero
      have hlt : length < 16 := hlengths _ (List.mem_of_getElem? hget)
      rw [get_table o hlt, bind_ok, ho length hzero, put_eq (by rwa [hsize]), bind_ok,
        fits_eq (by omega), bind_ok, put_table o hlt, bind_ok, Nat.mod_eq_of_lt (by omega)]
      refine ih (index + 1) hnext _ ?_ (by rwa [List.length_set]) (hplaced.put hget hzero hsize)
      intro l hl
      have hrank := Canonical.rank_succ hget l
      unfold Canonical.slot
      rw [hrank]
      by_cases hsame : l = length
      · subst hsame
        rw [Function.update_self, if_pos rfl, Nat.add_assoc]
      · rw [Function.update_of_ne hsame, if_neg (Ne.symm hsame), ho l hl, Canonical.slot,
          Nat.add_zero]
    · -- a symbol without one takes none
      have hnone : length = 0 := by simpa using hzero
      subst hnone
      refine ih (index + 1) hnext o ?_ hsize ?_
      · intro l hl
        rw [ho l hl, Canonical.slot, Canonical.slot, Canonical.rank_succ hget l,
          if_neg (Ne.symm hl),
          Nat.add_zero]
      · intro s l hs hsl hl
        rcases Nat.lt_succ_iff_lt_or_eq.mp hs with hlt | rfl
        · exact hplaced s l hlt hsl hl
        · cases hget.symm.trans hsl
          exact absurd rfl hl

/-- The tables of the canonical code of these lengths. -/
structure IsCode (lengths : List Nat) (huffman : Huffman) : Prop where
  counts : huffman.counts = table 16 (Canonical.count lengths)
  size : huffman.symbols.length = lengths.length
  placed : Placed lengths lengths.length huffman.symbols
  small : lengths.length < 2 ^ 16

/-- **The tables are those of the canonical code**, whatever the lengths are. -/
theorem new_spec (hlengths : ∀ l ∈ lengths, l < 16) (hlen : lengths.length < 2 ^ 16) :
    ∃ huffman, Huffman.new lengths = .ok huffman ∧ IsCode lengths huffman := by
  have hfits : ∀ l, 0 + lengths.count l < 2 ^ 16 := by
    intro l
    have h := List.count_le_length (l := lengths) (a := l)
    omega
  have hcounts := countLengths_eq (fun _ => 0) hlengths hfits
  have hzero : table 16 (Function.update (fun l => 0 + lengths.count l) 0 0) =
      table 16 (Canonical.count lengths) := by
    refine table_congr fun l _ => ?_
    by_cases hl : l = 0
    · rw [hl, Function.update_self, Canonical.count, if_pos rfl]
    · rw [Function.update_of_ne hl, Canonical.count, if_neg hl, Nat.zero_add]
  have hbase : Canonical.base lengths 0 = 0 := by
    have h := Canonical.base_mono lengths (Nat.zero_le 1)
    rw [Canonical.base_one] at h
    omega
  have hsums := sumCounts_eq lengths (show 1 + 15 = 16 from rfl) (by decide) hlen (fun _ => 0)
    fun l hl => by rw [show l = 0 by omega, hbase]
  obtain ⟨symbols, hplace, hsize, hplaced⟩ := placeSymbols_spec 0 rfl hlengths hlen
    (Canonical.base lengths) (fun l _ => by simp [Canonical.slot, Canonical.rank])
    (List.length_replicate (n := lengths.length) (a := 0))
    (fun s l hs => absurd hs (Nat.not_lt_zero s))
  refine ⟨⟨table 16 (Canonical.count lengths), symbols⟩, ?_, rfl, hsize, hplaced, hlen⟩
  rw [Huffman.new, replicate_eq_table, hcounts, bind_ok, put_table _ (by decide), bind_ok, hzero,
    hsums,
    bind_ok]
  rw [List.drop_zero] at hplace
  rw [hplace, bind_ok, pure_eq]

/-! ### Decoding -/

variable {huffman : Huffman}

/-- What the loop has before it looks at codes of a length: the code so far, with
    a zero for the next bit, the first code of the length and the place of its
    symbol. -/
structure Looking (lengths : List Nat) (l code first index : Nat) : Prop where
  even : code % 2 = 0
  code_lt : code < 2 ^ l
  first_eq : first = Canonical.first lengths l
  first_le : first ≤ code
  index_eq : index = Canonical.base lengths l

theorem looking_start (lengths : List Nat) : Looking lengths 1 0 0 0 := by
  have hfirst : Canonical.first lengths 1 = 0 := rfl
  exact ⟨rfl, by decide, hfirst.symm, le_rfl, Canonical.base_one.symm⟩

theorem or_bit {code b : Nat} (heven : code % 2 = 0) (hb : b ≤ 1) : code ||| b = code + b := by
  have hsplit : code = 2 ^ 1 * (code / 2) := by omega
  rw [hsplit, ← Nat.two_pow_add_eq_or_of_lt (by omega)]

theorem two_pow_eq {l : Nat} (hl : l ≠ 0) : 2 ^ l = 2 * 2 ^ (l - 1) := by
  obtain ⟨m, rfl⟩ := Nat.exists_eq_succ_of_ne_zero hl
  exact Nat.pow_succ'

/-- A code of another length: all its codes lie below. -/
theorem Looking.next {l code first index b : Nat} (h : Looking lengths l code first index)
    (hb : b ≤ 1)
    (hl : l ≠ 0) (habove : first + Canonical.count lengths l ≤ code + b) :
    Looking lengths (l + 1) ((code + b) <<< 1) ((first + Canonical.count lengths l) <<< 1)
      (index + Canonical.count lengths l) := by
  obtain ⟨heven, hlt, hfirst, -, hindex⟩ := h
  have hpow := two_pow_eq hl
  have htop : 2 ^ (l + 1) = 2 * 2 ^ l := Nat.pow_succ'
  rw [Nat.shiftLeft_eq, Nat.shiftLeft_eq, Nat.pow_one]
  refine ⟨by omega, by omega, ?_, by omega, ?_⟩
  · rw [Canonical.first, hfirst, Nat.mul_comm]
  · rw [hindex, Canonical.base_succ]

/-- One turn of the loop, once its bit is read. -/
theorem decodeLoop_turn (hcode : IsCode lengths huffman) {l code first index b next : Nat}
    {ls : List Nat} (h : Looking lengths l code first index) (hl : l ≠ 0) (hlt : l < 16)
    (hb : b ≤ 1)
    (hbit : bit bytes position = .ok (b, next)) :
    huffman.decodeLoop bytes (l :: ls) code first index position =
      if code + b < first + Canonical.count lengths l then
        (get huffman.symbols (Canonical.base lengths l + (code + b - first))).bind fun symbol =>
          .ok (symbol, next)
      else huffman.decodeLoop bytes ls ((code + b) <<< 1)
        ((first + Canonical.count lengths l) <<< 1)
        (index + Canonical.count lengths l) next := by
  have hcodelt := h.code_lt
  have hpow : 2 ^ l ≤ 2 ^ 15 := Nat.pow_le_pow_right (by decide) (by omega)
  have heven := h.even
  have hpow' := two_pow_eq hl
  have hfirst := h.first_le
  have hcount : Canonical.count lengths l ≤ lengths.length := Canonical.count_le_length l
  have hplaces : Canonical.base lengths l + Canonical.count lengths l ≤ lengths.length :=
    Canonical.base_add_count_le lengths l
  have hindex := h.index_eq
  have hsmall := hcode.small
  rw [Huffman.decodeLoop, hbit, bind_ok]
  dsimp only
  rw [or_bit heven hb, fits_eq (by omega), bind_ok, hcode.counts, get_table _ hlt, bind_ok]
  by_cases hless : code + b < first + Canonical.count lengths l
  · have hint : ((code + b : Nat) : Int) - first < (Canonical.count lengths l : Int) := by omega
    have hplace : (index : Int) + (((code + b : Nat) : Int) - first) =
        ((Canonical.base lengths l + (code + b - first) : Nat) : Int) := by omega
    rw [if_pos hint, if_pos hless, hplace, if_pos (by omega), Int.toNat_natCast]
    rfl
  · have hint : ¬ ((code + b : Nat) : Int) - first < (Canonical.count lengths l : Int) := by omega
    rw [if_neg hint, if_neg hless, fits_eq (by omega), bind_ok, fits_eq (by omega), bind_ok,
      Nat.shiftLeft_eq, Nat.pow_one, fits_eq (by omega), bind_ok, Nat.shiftLeft_eq, Nat.pow_one,
      fits_eq (by omega), bind_ok]

theorem safe_decodeLoop (hmem : InMemory bytes) (hcode : IsCode lengths huffman)
    {n l code first index : Nat} (h : Looking lengths l code first index) (hl : l ≠ 0)
    (hend : l + n = 16) :
    Safe (huffman.decodeLoop bytes (List.range' l n) code first index position) fun r =>
      position < r.2 ∧ r.2 ≤ 8 * bytes.length := by
  induction n generalizing l code first index position with
  | zero => exact safe_fail _
  | succ n ih =>
    rw [List.range'_succ]
    rcases safe_iff.mp (safe_bit hmem position) with ⟨⟨b, next⟩, hbit, hb, hnext, hlt⟩ | ⟨e, hbit⟩
    · dsimp only at hb hnext
      subst hnext
      rw [decodeLoop_turn hcode h hl (by omega) hb hbit]
      split_ifs with hless
      · have hplaces := Canonical.base_add_count_le lengths l
        have hfirst := h.first_le
        have hplace : Canonical.base lengths l + (code + b - first) < huffman.symbols.length := by
          rw [hcode.size]
          omega
        exact (safe_get hplace).bind fun symbol _ => safe_ok ⟨by omega, by omega⟩
      · exact (ih (h.next hb hl (by omega)) (by omega) (by omega)).imp fun r hr => ⟨by omega, hr.2⟩
    · rw [Huffman.decodeLoop, hbit]
      exact safe_fail e

/-- **A lookup stays inside the tables** and reads at least one bit, whatever the
    lengths are. -/
theorem safe_decode (hmem : InMemory bytes) (hcode : IsCode lengths huffman) :
    Safe (huffman.decode bytes position) fun r => position < r.2 ∧ r.2 ≤ 8 * bytes.length :=
  safe_decodeLoop hmem hcode (looking_start lengths) (by decide) rfl

theorem decodeLoop_code (hmem : InMemory bytes) (hcode : IsCode lengths huffman) {s l : Nat}
    (hs : lengths[s]? = some l) (hl : l < 16) {rest : List Bool} {n k code first index : Nat}
    (h : Looking lengths k code first index) (hk : k ≠ 0) (hkl : k ≤ l) (hend : k + n = 16)
    (hread : code = 2 * (Canonical.code lengths s l / 2 ^ (l - k + 1)))
    (hleft : Left bytes position = msb (l - k + 1) (Canonical.code lengths s l) ++ rest) :
    huffman.decodeLoop bytes (List.range' k n) code first index position =
      .ok (s, position + (l - k + 1)) := by
  induction n generalizing k code first index position with
  | zero => omega
  | succ n ih =>
    rw [msb_succ, List.cons_append] at hleft
    obtain ⟨hbit, hnext⟩ := bit_of_left hmem hleft
    have hb := Bool.toNat_le ((Canonical.code lengths s l).testBit (l - k))
    have hsofar : code + ((Canonical.code lengths s l).testBit (l - k)).toNat =
        Canonical.code lengths s l / 2 ^ (l - k) := by
      rw [hread, ← div_two_pow_bit]
    have hfirst := h.first_eq
    rw [List.range'_succ, decodeLoop_turn hcode h hk (by omega) hb hbit, hsofar]
    rcases Nat.lt_or_eq_of_le hkl with hless | rfl
    · -- the code is longer: what is read of it lies above all codes of this length
      have habove := Canonical.shorter_le_code lengths hless s
      rw [if_neg (by omega)]
      have hrec := ih (h.next hb hk (by omega)) (by omega) (by omega) (by omega)
        (by rw [hsofar, Nat.shiftLeft_eq, Nat.pow_one, Nat.mul_comm,
          show l - (k + 1) + 1 = l - k by omega])
        (by rw [hnext, show l - (k + 1) + 1 = l - k by omega])
      rw [hsofar] at hrec
      rw [hrec]
      refine congrArg Except.ok (Prod.ext rfl ?_)
      dsimp only
      omega
    · -- the code is complete
      have hrank := Canonical.rank_lt hs hk
      have hplace : huffman.symbols[Canonical.slot lengths s k]? = some s := by
        refine hcode.placed s k ?_ hs hk
        exact (List.getElem?_eq_some_iff.mp hs).1
      rw [Nat.sub_self, Nat.pow_zero, Nat.div_one, Canonical.code, hfirst, if_pos (by omega),
        Nat.add_sub_cancel_left]
      rw [Canonical.slot] at hplace
      rw [get_eq hplace]
      rfl

/-- **A code that is there is read as its symbol.** -/
theorem decode_code (hmem : InMemory bytes) (hcode : IsCode lengths huffman) {s l : Nat}
    (hs : lengths[s]? = some l) (hpos : l ≠ 0) (hl : l < 16)
    (hfits : Canonical.code lengths s l < 2 ^ l)
    {rest : List Bool} (hleft : Left bytes position = msb l (Canonical.code lengths s l) ++ rest) :
    huffman.decode bytes position = .ok (s, position + l) ∧ Left bytes (position + l) = rest := by
  have hlen : l - 1 + 1 = l := Nat.sub_add_cancel (Nat.pos_of_ne_zero hpos)
  have hrest := left_add hleft
  rw [length_msb] at hrest
  refine ⟨?_, hrest⟩
  have h := decodeLoop_code hmem hcode hs hl (n := 15) (k := 1) (looking_start lengths) (by decide)
    (by omega) rfl (by rw [hlen, Nat.div_eq_of_lt hfits]) (by rwa [hlen])
  rwa [hlen] at h

end AiDaemon.Inflate
