import AiDaemon.Base64
import AiDaemon.Fallible
import AiDaemon.ShimBodies

/-!
# Attachments in base64 (`main.rs`: `base64_decode`)

The loop keeps the symbols it has seen in one word whose high bits run over; the
bits it has still to hand out are the low ones, so the bytes are those of the
symbols (`base64Loop_eq`).  It stops at the first equals sign, drops a symbol
that is left by itself and does not look at the bits that are left over, so it
answers for texts that are no encodings: `base64_accepts_iff` says for which.
Every encoding it undoes, wherever white space was put in (`base64_undoes`), and it
would answer the same with a word that never runs over.
-/

namespace AiDaemon.Shim

open Base64

/-! ### One symbol -/

/-- `(accumulator << 6) | value`. -/
def shiftIn (accumulator : UInt32) (value : Fin 64) : UInt32 :=
  (accumulator <<< 6) ||| (UInt8.ofNat value.val).toUInt32

theorem toNat_shiftIn (accumulator : UInt32) (value : Fin 64) :
    (shiftIn accumulator value).toNat = accumulator.toNat * 64 % 2 ^ 32 + value.val := by
  have hvalue : (UInt8.ofNat value.val).toUInt32.toNat = value.val := by
    rw [UInt8.toNat_toUInt32, UInt8.toNat_ofNat']
    omega
  have hshift : accumulator.toNat * 64 % 2 ^ 32 = (accumulator.toNat % 2 ^ 26) <<< 6 := by
    rw [Nat.shiftLeft_eq]
    omega
  rw [shiftIn, UInt32.toNat_or, UInt32.toNat_shiftLeft, hvalue]
  show (accumulator.toNat <<< 6 % 2 ^ 32) ||| value.val = _
  rw [Nat.shiftLeft_eq, hshift, ← Nat.shiftLeft_add_eq_or_of_lt value.isLt]

/-- The high bits of the word are nothing to the byte handed out. -/
theorem shiftIn_high (accumulator : UInt32) (v w : Fin 64) :
    (shiftIn (shiftIn accumulator v) w >>> 4).toUInt8 = high v w := by
  rw [← UInt8.toNat_inj, UInt32.toNat_toUInt8, UInt32.toNat_shiftRight, toNat_high,
    Nat.shiftRight_eq_div_pow, toNat_shiftIn, toNat_shiftIn]
  show (_ % 2 ^ 32 + w.val) / 2 ^ 4 % 2 ^ 8 = _
  omega

theorem shiftIn_middle (accumulator : UInt32) (w x : Fin 64) :
    (shiftIn (shiftIn accumulator w) x >>> 2).toUInt8 = middle w x := by
  rw [← UInt8.toNat_inj, UInt32.toNat_toUInt8, UInt32.toNat_shiftRight, toNat_middle,
    Nat.shiftRight_eq_div_pow, toNat_shiftIn, toNat_shiftIn]
  show (_ % 2 ^ 32 + x.val) / 2 ^ 2 % 2 ^ 8 = _
  omega

theorem shiftIn_low (accumulator : UInt32) (x y : Fin 64) :
    (shiftIn (shiftIn accumulator x) y >>> 0).toUInt8 = low x y := by
  rw [← UInt8.toNat_inj, UInt32.toNat_toUInt8, UInt32.toNat_shiftRight, toNat_low,
    Nat.shiftRight_eq_div_pow, toNat_shiftIn, toNat_shiftIn]
  show (_ % 2 ^ 32 + y.val) / 2 ^ 0 % 2 ^ 8 = _
  omega

/-! ### The symbols of a text -/

/-- The loop, once the symbols are known. -/
def handOut : List (Fin 64) → UInt32 → Nat → List UInt8 → List UInt8
  | [], _, _, out => out
  | value :: values, accumulator, bits, out =>
    let accumulator := shiftIn accumulator value
    if 8 ≤ bits + 6 then
      let bits := bits + 6 - 8
      handOut values accumulator bits (out ++ [(accumulator >>> UInt32.ofNat bits).toUInt8])
    else handOut values accumulator (bits + 6) out

section

variable (values : List (Fin 64)) (accumulator : UInt32) (out : List UInt8) (value : Fin 64)

theorem handOut_none : handOut (value :: values) accumulator 0 out =
    handOut values (shiftIn accumulator value) 6 out := rfl

theorem handOut_six : handOut (value :: values) accumulator 6 out =
    handOut values (shiftIn accumulator value) 4
      (out ++ [(shiftIn accumulator value >>> 4).toUInt8]) := rfl

theorem handOut_four : handOut (value :: values) accumulator 4 out =
    handOut values (shiftIn accumulator value) 2
      (out ++ [(shiftIn accumulator value >>> 2).toUInt8]) := rfl

theorem handOut_two : handOut (value :: values) accumulator 2 out =
    handOut values (shiftIn accumulator value) 0
      (out ++ [(shiftIn accumulator value >>> 0).toUInt8]) := rfl

end

/-- With no bits to hand out, four symbols are three bytes whatever the word
    holds. -/
theorem handOut_eq (values : List (Fin 64)) (accumulator : UInt32) (out : List UInt8) :
    handOut values accumulator 0 out = out ++ ofSextets values := by
  induction values using ofSextets.induct generalizing accumulator out with
  | case1 v w x y rest ih =>
    rw [handOut_none, handOut_six, handOut_four, handOut_two, ih, shiftIn_high, shiftIn_middle,
      shiftIn_low, ofSextets, List.append_assoc, List.append_assoc, List.append_assoc]
    rfl
  | case2 v w x =>
    rw [handOut_none, handOut_six, handOut_four, shiftIn_high, shiftIn_middle, ofSextets,
      List.append_assoc]
    exact rfl
  | case3 v w =>
    rw [handOut_none, handOut_six, shiftIn_high, ofSextets]
    exact rfl
  | case4 v => exact (List.append_nil out).symm
  | case5 => exact (List.append_nil out).symm

/-- The symbols up to the first equals sign, where no other byte is in the way. -/
def symbolsOf : List UInt8 → Option (List (Fin 64))
  | [] => some []
  | byte :: bytes =>
    match sextet byte with
    | some value => (symbolsOf bytes).map (Fin.ofNat 64 value.toNat :: ·)
    | none =>
      if byte = 61 then some []
      else if byte = 10 ∨ byte = 13 ∨ byte = 32 ∨ byte = 9 then symbolsOf bytes
      else none

theorem sextet_lt {byte value : UInt8} (h : sextet byte = some value) : value.toNat < 64 := by
  have hnat : ∀ a b : UInt8, a ≤ b ↔ a.toNat ≤ b.toNat := fun _ _ => UInt8.le_iff_toNat_le
  simp only [sextet, hnat] at h
  split at h
  · cases h
    rw [UInt8.toNat_sub]
    change 65 ≤ _ ∧ _ ≤ 90 at *
    show (2 ^ 8 - 65 + byte.toNat) % 2 ^ 8 < 64
    omega
  · split at h
    · cases h
      rw [UInt8.toNat_add, UInt8.toNat_sub]
      change 97 ≤ _ ∧ _ ≤ 122 at *
      show ((2 ^ 8 - 97 + byte.toNat) % 2 ^ 8 + 26) % 2 ^ 8 < 64
      omega
    · split at h
      · cases h
        rw [UInt8.toNat_add, UInt8.toNat_sub]
        change 48 ≤ _ ∧ _ ≤ 57 at *
        show ((2 ^ 8 - 48 + byte.toNat) % 2 ^ 8 + 52) % 2 ^ 8 < 64
        omega
      · split at h
        · cases h
          decide
        · split at h
          · cases h
            decide
          · cases h

theorem sextet_symbol (alphabet : Alphabet) :
    ∀ value, sextet (alphabet.symbol value) = some (UInt8.ofNat value.val) := by
  cases alphabet with
  | standard => decide
  | urlSafe => decide

/-- **The loop answers with the bytes of the symbols.** -/
theorem base64Loop_eq (bytes : List UInt8) (accumulator : UInt32) (bits : Nat) (out : List UInt8) :
    (base64Loop bytes accumulator bits out).toOption =
      (symbolsOf bytes).map fun values => handOut values accumulator bits out := by
  induction bytes generalizing accumulator bits out with
  | nil => rfl
  | cons byte bytes ih =>
    rw [base64Loop, symbolsOf]
    cases hvalue : sextet byte with
    | some value =>
      have hshift : shiftIn accumulator (Fin.ofNat 64 value.toNat) =
          (accumulator <<< 6) ||| value.toUInt32 := by
        rw [shiftIn, Fin.val_ofNat, Nat.mod_eq_of_lt (sextet_lt hvalue), UInt8.ofNat_toNat]
      dsimp only
      rw [Option.map_map, ← hshift]
      split
      · rename_i hbits
        rw [ih]
        simp only [Function.comp_def, handOut, if_pos hbits]
      · rename_i hbits
        rw [ih]
        simp only [Function.comp_def, handOut, if_neg hbits]
    | none =>
      dsimp only
      split
      · rfl
      · split
        · exact ih _ _ _
        · rfl

theorem base64Decode_eq (text : Text) :
    (base64Decode text).toOption =
      (symbolsOf (text.flatMap String.utf8EncodeChar)).map ofSextets := by
  rw [base64Decode, base64Loop_eq]
  congr 1
  funext values
  rw [handOut_eq, List.nil_append]

/-! ### What it accepts -/

/-- `u8::is_ascii_whitespace`. -/
def isAsciiWhite (byte : UInt8) : Bool :=
  byte = 9 || byte = 10 || byte = 12 || byte = 13 || byte = 32

/-- The bytes of a text without the white space. -/
def stripped (text : Text) : List UInt8 :=
  (text.flatMap String.utf8EncodeChar).filter fun byte => !isAsciiWhite byte

/-- No symbol, no equals sign and none of the white space the loop passes over. -/
def InTheWay (byte : UInt8) : Prop :=
  sextet byte = none ∧ ¬ (byte = 10 ∨ byte = 13 ∨ byte = 32 ∨ byte = 9)

/-- Something is in the way before the first equals sign. -/
def Obstructed (text : Text) : Prop :=
  ∃ byte ∈ (text.flatMap String.utf8EncodeChar).takeWhile (· ≠ pad), InTheWay byte

theorem symbolsOf_pad (bytes : List UInt8) : symbolsOf (pad :: bytes) = some [] := rfl

theorem sextet_white {byte : UInt8} (h : isAsciiWhite byte = true) : sextet byte = none := by
  simp only [isAsciiWhite, Bool.or_eq_true, decide_eq_true_eq] at h
  rcases h with (((rfl | rfl) | rfl) | rfl) | rfl
  all_goals rfl

theorem symbolsOf_eq_none {bytes : List UInt8} :
    symbolsOf bytes = none ↔ ∃ byte ∈ bytes.takeWhile (· ≠ pad), InTheWay byte := by
  induction bytes with
  | nil => simp [symbolsOf]
  | cons byte bytes ih =>
    by_cases hpad : byte = pad
    · have htake : (pad :: bytes).takeWhile (· ≠ pad) = [] :=
        List.takeWhile_cons_of_neg (by simp)
      rw [hpad, htake, symbolsOf_pad]
      simp
    · have htake : (byte :: bytes).takeWhile (· ≠ pad) = byte :: bytes.takeWhile (· ≠ pad) :=
        List.takeWhile_cons_of_pos (by simpa using hpad)
      rw [htake, List.exists_mem_cons_iff, ← ih, symbolsOf]
      cases hvalue : sextet byte with
      | some value => simp [InTheWay, hvalue]
      | none =>
        dsimp only
        rw [if_neg (show ¬ byte = 61 from hpad)]
        by_cases hskip : byte = 10 ∨ byte = 13 ∨ byte = 32 ∨ byte = 9
        · simp [InTheWay, hskip]
        · simp [InTheWay, hvalue, hskip]

/-- The symbols of the loop are those that stand in the text without white space. -/
theorem symbolsOf_stripped {bytes : List UInt8} {values : List (Fin 64)}
    (h : symbolsOf bytes = some values) :
    ((bytes.filter fun byte => !isAsciiWhite byte).takeWhile (· ≠ pad)).map sextet =
      values.map fun value => some (UInt8.ofNat value.val) := by
  induction bytes generalizing values with
  | nil =>
    cases h
    rfl
  | cons byte bytes ih =>
    rw [symbolsOf] at h
    cases hvalue : sextet byte with
    | some value =>
      rw [hvalue, Option.map_eq_some_iff] at h
      obtain ⟨values', hvalues, rfl⟩ := h
      have hwhite : (!isAsciiWhite byte) = true := by
        rw [Bool.not_eq_true', Bool.eq_false_iff]
        intro hwhite
        cases hvalue.symm.trans (sextet_white hwhite)
      have hpad : byte ≠ pad := by
        rintro rfl
        cases hvalue
      rw [List.filter_cons_of_pos (p := fun byte => !isAsciiWhite byte) hwhite,
        List.takeWhile_cons_of_pos (by simpa using hpad), List.map_cons, List.map_cons, ih hvalues,
        hvalue, Fin.val_ofNat, Nat.mod_eq_of_lt (sextet_lt hvalue), UInt8.ofNat_toNat]
    | none =>
      rw [hvalue] at h
      dsimp only at h
      split at h
      · rename_i hequals
        have hpad : byte = pad := hequals
        cases h
        have hwhite : (!isAsciiWhite byte) = true := by
          rw [hpad]
          rfl
        rw [List.filter_cons_of_pos (p := fun byte => !isAsciiWhite byte) hwhite,
          List.takeWhile_cons_of_neg (by simpa using hpad)]
        rfl
      · split at h
        · rename_i hskip
          have hwhite : ¬ (!isAsciiWhite byte) = true := by
            rcases hskip with rfl | rfl | rfl | rfl
            all_goals decide
          rw [List.filter_cons_of_neg (p := fun byte => !isAsciiWhite byte) hwhite, ih h]
        · cases h

theorem someByte_injective : Function.Injective fun v : Fin 64 => some (UInt8.ofNat v.val) := by
  intro v w h
  have hnat := congrArg UInt8.toNat (Option.some.inj h)
  rw [UInt8.toNat_ofNat', UInt8.toNat_ofNat'] at hnat
  apply Fin.ext
  omega

/-- **When `base64_decode` accepts only encodings**: something in the way makes it
    refuse the text, or the text without its white space is the symbols of one
    alphabet, with nothing left over, and no padding or all of it. -/
theorem base64_accepts_iff (text : Text) :
    (∀ bytes, base64Decode text = .ok bytes → IsEncoding (stripped text) bytes) ↔
      Obstructed text ∨ ∃ alphabet values, Written alphabet values (stripped text) := by
  have hdecode := base64Decode_eq text
  constructor
  · intro h
    cases hmade : base64Decode text with
    | error e =>
      left
      rw [hmade] at hdecode
      exact symbolsOf_eq_none.mp (Option.map_eq_none_iff.mp hdecode.symm)
    | ok bytes =>
      right
      obtain ⟨alphabet, values, hwritten, -⟩ := isEncoding_iff.mp (h bytes hmade)
      exact ⟨alphabet, values, hwritten⟩
  · intro h bytes hmade
    rw [hmade] at hdecode
    obtain ⟨values, hvalues, hbytes⟩ := Option.map_eq_some_iff.mp hdecode.symm
    rcases h with hobstructed | ⟨alphabet, values', hwritten⟩
    · cases (symbolsOf_eq_none.mpr hobstructed).symm.trans hvalues
    · have hsymbols := symbolsOf_stripped hvalues
      have hsame : values' = values := by
        have htake : ((stripped text).takeWhile (· ≠ pad)).map sextet = _ := hsymbols
        rw [hwritten.symbols, List.map_map] at htake
        simp only [Function.comp_def, sextet_symbol] at htake
        exact List.map_injective_iff.mpr someByte_injective htake
      rw [← hbytes, ← hsame]
      exact isEncoding_iff.mpr ⟨alphabet, values', hwritten, rfl⟩

/-- A tail behind the padding, a symbol by itself and bits that are left over. -/
theorem base64_accepts_more :
    (base64Decode "aGk=!!".toList = .ok [104, 105] ∧
        ¬ IsEncoding (stripped "aGk=!!".toList) [104, 105]) ∧
      (base64Decode "aGkhY".toList = .ok [104, 105, 33] ∧
        ¬ IsEncoding (stripped "aGkhY".toList) [104, 105, 33]) ∧
      (base64Decode "YR".toList = .ok [97] ∧ ¬ IsEncoding (stripped "YR".toList) [97]) := by
  decide

/-! ### What it undoes -/

/-- Bytes of ASCII as a text. -/
def asText (bytes : List UInt8) : Text := bytes.map Char.ofUInt8

def isSpacing (c : Char) : Bool := c = '\n' || c = '\r' || c = ' ' || c = '\t'

/-- A text without its spaces, its tabs and its line breaks. -/
def unspaced (text : Text) : Text := text.filter fun c => !isSpacing c

/-- The loop with a word of any width, which loses nothing. -/
def base64Wide : List UInt8 → Nat → Nat → List UInt8 → Except Text (List UInt8)
  | [], _, _, out => .ok out
  | byte :: bytes, accumulator, bits, out =>
    match sextet byte with
    | some value =>
      let accumulator := accumulator * 64 + value.toNat
      if 8 ≤ bits + 6 then
        let bits := bits + 6 - 8
        base64Wide bytes accumulator bits (out ++ [UInt8.ofNat (accumulator / 2 ^ bits)])
      else base64Wide bytes accumulator (bits + 6) out
    | none =>
      if byte = 61 then .ok out
      else if byte = 10 ∨ byte = 13 ∨ byte = 32 ∨ byte = 9 then
        base64Wide bytes accumulator bits out
      else .error ("invalid base64 byte ".toList ++ hexByte byte)

theorem utf8EncodeChar_ofUInt8 {byte : UInt8} (h : byte.toNat < 128) :
    String.utf8EncodeChar (Char.ofUInt8 byte) = [byte] := by
  have hsize : (Char.ofUInt8 byte).utf8Size = 1 := by
    rw [Char.utf8Size_eq_one_iff, UInt32.le_iff_toNat_le]
    show byte.toUInt32.toNat ≤ 127
    rw [UInt8.toNat_toUInt32]
    omega
  rw [String.utf8EncodeChar_eq_singleton hsize]
  show [byte.toUInt32.toUInt8] = [byte]
  rw [UInt8.toUInt8_toUInt32]

theorem symbol_ascii (alphabet : Alphabet) : ∀ value, (alphabet.symbol value).toNat < 128 := by
  cases alphabet with
  | standard => decide
  | urlSafe => decide

theorem encode_ascii (alphabet : Alphabet) (padded : Bool) (bytes : Bytes) :
    ∀ byte ∈ encode alphabet padded bytes, byte.toNat < 128 := by
  intro byte hbyte
  rcases List.mem_append.mp hbyte with hsymbol | hpad
  · obtain ⟨value, -, rfl⟩ := List.mem_map.mp hsymbol
    exact symbol_ascii alphabet value
  · cases padded with
    | false => cases hpad
    | true =>
      rw [List.eq_of_mem_replicate hpad]
      decide

/-- What the loop passes over is nothing to the symbols. -/
theorem symbolsOf_unspaced {text : Text} {bytes : List UInt8}
    (hascii : ∀ byte ∈ bytes, byte.toNat < 128) (h : unspaced text = asText bytes) :
    symbolsOf (text.flatMap String.utf8EncodeChar) = symbolsOf bytes := by
  induction text generalizing bytes with
  | nil =>
    cases bytes with
    | nil => rfl
    | cons byte bytes => cases h
  | cons c text ih =>
    by_cases hspacing : isSpacing c = true
    · rw [unspaced, List.filter_cons_of_neg (by simp [hspacing])] at h
      rw [List.flatMap_cons, ← ih hascii h]
      simp only [isSpacing, Bool.or_eq_true, decide_eq_true_eq] at hspacing
      rcases hspacing with ((rfl | rfl) | rfl) | rfl
      all_goals rfl
    · rw [unspaced, List.filter_cons_of_pos (by simp [hspacing])] at h
      cases bytes with
      | nil => cases h
      | cons byte bytes =>
        obtain ⟨rfl, hrest⟩ := List.cons_eq_cons.mp h
        obtain ⟨hbyte, hbytes⟩ := List.forall_mem_cons.mp hascii
        rw [List.flatMap_cons, utf8EncodeChar_ofUInt8 hbyte, List.singleton_append, symbolsOf,
          symbolsOf, ih hbytes hrest]

theorem symbolsOf_symbols (alphabet : Alphabet) (values : List (Fin 64)) {tail : Bytes}
    (htail : symbolsOf tail = some []) :
    symbolsOf (values.map alphabet.symbol ++ tail) = some values := by
  induction values with
  | nil => exact htail
  | cons value values ih =>
    have hvalue : Fin.ofNat 64 (UInt8.ofNat value.val).toNat = value := by
      apply Fin.ext
      rw [Fin.val_ofNat, UInt8.toNat_ofNat']
      omega
    rw [List.map_cons, List.cons_append, symbolsOf, sextet_symbol]
    dsimp only
    rw [ih, Option.map_some, hvalue]

theorem symbolsOf_encode (alphabet : Alphabet) (padded : Bool) (bytes : Bytes) :
    symbolsOf (encode alphabet padded bytes) = some (sextets bytes) := by
  apply symbolsOf_symbols
  cases padded with
  | false => rfl
  | true =>
    rw [if_pos rfl, padding]
    cases (4 - (sextets bytes).length % 4) % 4 with
    | zero => rfl
    | succ n => exact symbolsOf_pad _

theorem base64Decode_spaced {text : Text} {alphabet : Alphabet} {padded : Bool} {bytes : Bytes}
    (h : unspaced text = asText (encode alphabet padded bytes)) :
    base64Decode text = .ok bytes := by
  apply Fallible.eq_ok_of_toOption
  rw [base64Decode_eq, symbolsOf_unspaced (encode_ascii alphabet padded bytes) h,
    symbolsOf_encode, Option.map_some, ofSextets_sextets]

/-! ### The bits that are lost -/

/-- A byte of a number is among its low bits. -/
theorem byte_of_word (n : Nat) {bits : Nat} (hbits : bits ≤ 24) :
    (UInt32.ofNat n >>> UInt32.ofNat bits).toUInt8 = UInt8.ofNat (n / 2 ^ bits) := by
  have hshift : (UInt32.ofNat bits).toNat % 32 = bits := by
    rw [UInt32.toNat_ofNat']
    omega
  have hsplit : 2 ^ 32 = 2 ^ bits * 2 ^ (32 - bits) := by
    rw [← Nat.pow_add]
    congr 1
    omega
  have hlow : 2 ^ 8 ∣ 2 ^ (32 - bits) := Nat.pow_dvd_pow 2 (by omega)
  rw [← UInt8.toNat_inj, UInt32.toNat_toUInt8, UInt32.toNat_shiftRight, UInt32.toNat_ofNat', hshift,
    Nat.shiftRight_eq_div_pow, hsplit, Nat.mod_mul_right_div_self, Nat.mod_mod_of_dvd _ hlow,
    UInt8.toNat_ofNat']

theorem word_shiftIn (n : Nat) {byte value : UInt8} (h : sextet byte = some value) :
    (UInt32.ofNat n <<< 6) ||| value.toUInt32 = UInt32.ofNat (n * 64 + value.toNat) := by
  have hlt := sextet_lt h
  have hshift := toNat_shiftIn (UInt32.ofNat n) (Fin.ofNat 64 value.toNat)
  rw [shiftIn, Fin.val_ofNat, Nat.mod_eq_of_lt hlt, UInt8.ofNat_toNat] at hshift
  rw [← UInt32.toNat_inj, hshift, UInt32.toNat_ofNat', UInt32.toNat_ofNat']
  omega

/-- **Losing the high bits** makes no difference, as long as fewer than eight bits are
    still to be handed out. -/
theorem base64Loop_wide (bytes : List UInt8) (n : Nat) {bits : Nat} (hbits : bits < 8)
    (out : List UInt8) :
    base64Loop bytes (UInt32.ofNat n) bits out = base64Wide bytes n bits out := by
  induction bytes generalizing n bits out with
  | nil => rfl
  | cons byte bytes ih =>
    rw [base64Loop, base64Wide]
    cases hvalue : sextet byte with
    | some value =>
      dsimp only
      rw [word_shiftIn n hvalue]
      by_cases hfull : 8 ≤ bits + 6
      · rw [if_pos hfull, if_pos hfull, ih _ (by omega), byte_of_word _ (by omega)]
      · rw [if_neg hfull, if_neg hfull, ih _ (by omega)]
    | none =>
      dsimp only
      rw [ih n hbits]

/-- **`base64_decode` undoes every encoding**, wherever spaces, tabs and line breaks were
    put in, and no byte depends on the bits that its word has lost. -/
theorem base64_undoes :
    (∀ (bytes : Bytes) (alphabet : Alphabet) (padded : Bool) (text : Text),
      unspaced text = asText (encode alphabet padded bytes) → base64Decode text = .ok bytes) ∧
    ∀ text, base64Decode text = base64Wide (text.flatMap String.utf8EncodeChar) 0 0 [] := by
  constructor
  · intro bytes alphabet padded text h
    exact base64Decode_spaced h
  · intro text
    exact base64Loop_wide _ 0 (by decide) []

theorem base64_undoes_wrapped :
    base64Decode "aGVs\nbG8=\t".toList = .ok [104, 101, 108, 108, 111] := by
  exact base64_undoes.1 [104, 101, 108, 108, 111] .standard true _ (by decide)

end AiDaemon.Shim
