import Mathlib.Data.List.TakeWhile
import Mathlib.Tactic.Common

/-!
# Base64

Three bytes are four numbers of six bits (`sextets`), one or two bytes at the end
are two or three of them with zeros in the bits that are left over, and four
numbers are three bytes again (`ofSextets`).  A number is written as the symbol
of one of the two alphabets, and an encoding may be padded to a multiple of four.
`isEncoding_iff` says which strings of bytes are encodings, and of what.
-/

namespace AiDaemon.Base64

abbrev Bytes := List UInt8

/-! ### Numbers of six bits -/

/-- The high six bits of a byte, and so on. -/
def first (a : UInt8) : Fin 64 := ⟨a.toNat / 4, by have := a.toNat_lt; omega⟩

def second (a b : UInt8) : Fin 64 :=
  ⟨a.toNat % 4 * 16 + b.toNat / 16, by have := b.toNat_lt; omega⟩

def third (b c : UInt8) : Fin 64 :=
  ⟨b.toNat % 16 * 4 + c.toNat / 64, by have := c.toNat_lt; omega⟩

def fourth (c : UInt8) : Fin 64 := ⟨c.toNat % 64, by omega⟩

def sextets : Bytes → List (Fin 64)
  | a :: b :: c :: bytes => first a :: second a b :: third b c :: fourth c :: sextets bytes
  | [a, b] => [first a, second a b, third b 0]
  | [a] => [first a, second a 0]
  | [] => []

def high (v w : Fin 64) : UInt8 := UInt8.ofNat (v.val * 4 + w.val / 16)

def middle (w x : Fin 64) : UInt8 := UInt8.ofNat (w.val % 16 * 16 + x.val / 4)

def low (x y : Fin 64) : UInt8 := UInt8.ofNat (x.val % 4 * 64 + y.val)

/-- What is left over at the end is dropped. -/
def ofSextets : List (Fin 64) → Bytes
  | v :: w :: x :: y :: rest => high v w :: middle w x :: low x y :: ofSextets rest
  | [v, w, x] => [high v w, middle w x]
  | [v, w] => [high v w]
  | [_] => []
  | [] => []

/-- Nothing is left over: no number is by itself, and the bits after the last
    byte are zeros. -/
def Exact : List (Fin 64) → Prop
  | _ :: _ :: _ :: _ :: rest => Exact rest
  | [_, _, x] => x.val % 4 = 0
  | [_, w] => w.val % 16 = 0
  | [_] => False
  | [] => True

theorem high_first_second (a b : UInt8) : high (first a) (second a b) = a := by
  have ha := a.toNat_lt
  have hb := b.toNat_lt
  rw [← UInt8.toNat_inj, high, UInt8.toNat_ofNat']
  simp only [first, second]
  omega

theorem middle_second_third (a b c : UInt8) : middle (second a b) (third b c) = b := by
  have hb := b.toNat_lt
  have hc := c.toNat_lt
  rw [← UInt8.toNat_inj, middle, UInt8.toNat_ofNat']
  simp only [second, third]
  omega

theorem low_third_fourth (b c : UInt8) : low (third b c) (fourth c) = c := by
  have hc := c.toNat_lt
  rw [← UInt8.toNat_inj, low, UInt8.toNat_ofNat']
  simp only [third, fourth]
  omega

theorem ofSextets_sextets (bytes : Bytes) : ofSextets (sextets bytes) = bytes := by
  induction bytes using sextets.induct with
  | case1 a b c bytes ih =>
    rw [sextets, ofSextets, ih, high_first_second, middle_second_third, low_third_fourth]
  | case2 a b => rw [sextets, ofSextets, high_first_second, middle_second_third]
  | case3 a => rw [sextets, ofSextets, high_first_second]
  | case4 => rfl

theorem exact_sextets (bytes : Bytes) : Exact (sextets bytes) := by
  induction bytes using sextets.induct with
  | case1 a b c bytes ih => exact ih
  | case2 a b =>
    show (b.toNat % 16 * 4 + (0 : UInt8).toNat / 64) % 4 = 0
    rw [UInt8.toNat_zero]
    omega
  | case3 a =>
    show (a.toNat % 4 * 16 + (0 : UInt8).toNat / 16) % 16 = 0
    rw [UInt8.toNat_zero]
    omega
  | case4 => trivial

theorem toNat_high (v w : Fin 64) : (high v w).toNat = v.val * 4 + w.val / 16 := by
  rw [high, UInt8.toNat_ofNat']
  omega

theorem toNat_middle (w x : Fin 64) : (middle w x).toNat = w.val % 16 * 16 + x.val / 4 := by
  rw [middle, UInt8.toNat_ofNat']
  omega

theorem toNat_low (x y : Fin 64) : (low x y).toNat = x.val % 4 * 64 + y.val := by
  rw [low, UInt8.toNat_ofNat']
  omega

theorem first_high (v w : Fin 64) : first (high v w) = v := by
  apply Fin.ext
  simp only [first, toNat_high]
  omega

theorem second_high_middle (v w x : Fin 64) : second (high v w) (middle w x) = w := by
  apply Fin.ext
  simp only [second, toNat_high, toNat_middle]
  omega

theorem third_middle_low (w x y : Fin 64) : third (middle w x) (low x y) = x := by
  apply Fin.ext
  simp only [third, toNat_middle, toNat_low]
  omega

theorem fourth_low (x y : Fin 64) : fourth (low x y) = y := by
  apply Fin.ext
  simp only [fourth, toNat_low]
  omega

/-- Where nothing is left over the bytes are the same six bits again. -/
theorem sextets_ofSextets {values : List (Fin 64)} (h : Exact values) :
    sextets (ofSextets values) = values := by
  induction values using ofSextets.induct with
  | case1 v w x y rest ih =>
    rw [ofSextets, sextets, ih h, first_high, second_high_middle, third_middle_low, fourth_low]
  | case2 v w x =>
    have hthird : third (middle w x) 0 = x := by
      rw [Exact] at h
      apply Fin.ext
      simp only [third, toNat_middle, UInt8.toNat_zero]
      omega
    rw [ofSextets, sextets, first_high, second_high_middle, hthird]
  | case3 v w =>
    have hsecond : second (high v w) 0 = w := by
      rw [Exact] at h
      apply Fin.ext
      simp only [second, toNat_high, UInt8.toNat_zero]
      omega
    rw [ofSextets, sextets, first_high, hsecond]
  | case4 v => exact h.elim
  | case5 => rfl

/-! ### Symbols -/

inductive Alphabet where
  | standard
  | urlSafe
deriving DecidableEq

namespace Alphabet

def symbol (alphabet : Alphabet) (value : Fin 64) : UInt8 :=
  if value.val < 26 then UInt8.ofNat (65 + value.val)
  else if value.val < 52 then UInt8.ofNat (97 + (value.val - 26))
  else if value.val < 62 then UInt8.ofNat (48 + (value.val - 52))
  else
    match alphabet with
    | standard => if value.val = 62 then 43 else 47
    | urlSafe => if value.val = 62 then 45 else 95

end Alphabet

/-- The equals sign. -/
def pad : UInt8 := 61

theorem symbol_ne_pad (alphabet : Alphabet) : ∀ value, alphabet.symbol value ≠ pad := by
  cases alphabet with
  | standard => decide
  | urlSafe => decide

/-! ### Encodings -/

/-- What is missing to a multiple of four. -/
def padding (symbols : Nat) : Bytes := List.replicate ((4 - symbols % 4) % 4) pad

def encode (alphabet : Alphabet) (padded : Bool) (bytes : Bytes) : Bytes :=
  (sextets bytes).map alphabet.symbol ++
    if padded then padding (sextets bytes).length else []

def IsEncoding (text bytes : Bytes) : Prop :=
  ∃ alphabet padded, text = encode alphabet padded bytes

instance (text bytes : Bytes) : Decidable (IsEncoding text bytes) :=
  decidable_of_iff (∃ alphabet ∈ [Alphabet.standard, .urlSafe], ∃ padded ∈ [false, true],
      text = encode alphabet padded bytes) <| by
    constructor
    · rintro ⟨alphabet, -, padded, -, h⟩
      exact ⟨alphabet, padded, h⟩
    · rintro ⟨alphabet, padded, h⟩
      exact ⟨alphabet, by cases alphabet <;> decide, padded, by cases padded <;> decide, h⟩

/-- The symbols of one alphabet up to the first pad, nothing left over in them,
    and then no padding or all of it. -/
structure Written (alphabet : Alphabet) (values : List (Fin 64)) (text : Bytes) : Prop where
  symbols : text.takeWhile (· ≠ pad) = values.map alphabet.symbol
  exact : Exact values
  tail : text.dropWhile (· ≠ pad) = [] ∨ text.dropWhile (· ≠ pad) = padding values.length

theorem takeWhile_symbols (alphabet : Alphabet) (values : List (Fin 64)) {tail : Bytes}
    (htail : ∀ byte ∈ tail.head?, byte = pad) :
    (values.map alphabet.symbol ++ tail).takeWhile (· ≠ pad) = values.map alphabet.symbol ∧
      (values.map alphabet.symbol ++ tail).dropWhile (· ≠ pad) = tail := by
  have hsymbols : ∀ byte ∈ values.map alphabet.symbol, decide (byte ≠ pad) = true := by
    intro byte hbyte
    obtain ⟨value, -, rfl⟩ := List.mem_map.mp hbyte
    rw [decide_eq_true_eq]
    exact symbol_ne_pad alphabet value
  rw [List.takeWhile_append_of_pos hsymbols, List.dropWhile_append_of_pos hsymbols]
  cases tail with
  | nil => simp
  | cons byte tail =>
    rw [htail byte rfl]
    simp

theorem padding_head (symbols : Nat) : ∀ byte ∈ (padding symbols).head?, byte = pad := by
  intro byte hbyte
  exact List.eq_of_mem_replicate (List.mem_of_mem_head? hbyte)

/-- **What is an encoding**, and what it encodes. -/
theorem isEncoding_iff {text bytes : Bytes} :
    IsEncoding text bytes ↔
      ∃ alphabet values, Written alphabet values text ∧ bytes = ofSextets values := by
  constructor
  · rintro ⟨alphabet, padded, rfl⟩
    refine ⟨alphabet, sextets bytes, ?_, (ofSextets_sextets bytes).symm⟩
    cases padded with
    | false =>
      have hempty : ∀ byte ∈ ([] : Bytes).head?, byte = pad := by simp
      obtain ⟨htake, hdrop⟩ := takeWhile_symbols alphabet (sextets bytes) hempty
      exact ⟨htake, exact_sextets bytes, Or.inl hdrop⟩
    | true =>
      obtain ⟨htake, hdrop⟩ := takeWhile_symbols alphabet (sextets bytes) (padding_head _)
      exact ⟨htake, exact_sextets bytes, Or.inr hdrop⟩
  · rintro ⟨alphabet, values, ⟨hsymbols, hexact, htail⟩, rfl⟩
    have hsplit : text.takeWhile (· ≠ pad) ++ text.dropWhile (· ≠ pad) = text :=
      List.takeWhile_append_dropWhile
    rcases htail with htail | htail
    · refine ⟨alphabet, false, ?_⟩
      rw [encode, sextets_ofSextets hexact, ← hsymbols, ← htail]
      exact hsplit.symm
    · refine ⟨alphabet, true, ?_⟩
      rw [encode, sextets_ofSextets hexact, ← hsymbols, ← htail]
      exact hsplit.symm

end AiDaemon.Base64
