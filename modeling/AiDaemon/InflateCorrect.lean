import AiDaemon.Deflate
import AiDaemon.InflateSafe

/-!
# The inflater reads DEFLATE

A stream that is there is read as what it stands for (`inflate_stream`): every
step of the inflater reads the bits of what the format has at that place, and
leaves the rest.
-/

namespace AiDaemon.Inflate

open Checked BitList Deflate

variable {bytes : List UInt8} {position : Nat} {rest : List Bool}

/-! ### Codes -/

theorem lt_of_isTable {lengths : List Nat} (h : IsTable lengths) : ∀ l ∈ lengths, l < 16 :=
  fun l hl => Nat.lt_succ_of_le (h.1 l hl)

theorem codeBits_pos {lengths : List Nat} {symbol : Nat} {code : List Bool}
    (h : CodeBits lengths symbol code) : 0 < code.length := by
  obtain ⟨l, -, hl, rfl⟩ := h
  rw [length_msb]
  exact Nat.pos_of_ne_zero hl

/-- A symbol that is written is read. -/
theorem decode_of_left (hmem : InMemory bytes) {lengths : List Nat} {huffman : Huffman}
    (htable : IsTable lengths) (hcode : IsCode lengths huffman) {symbol : Nat} {code : List Bool}
    (h : CodeBits lengths symbol code) (hleft : Left bytes position = code ++ rest) :
    huffman.decode bytes position = .ok (symbol, position + code.length) ∧
      Left bytes (position + code.length) = rest := by
  obtain ⟨l, hl, hpos, rfl⟩ := h
  have hle := htable.1 l (List.mem_of_getElem? hl)
  have hfits := Canonical.code_lt htable.2 hl hpos hle
  rw [length_msb]
  exact decode_code hmem hcode hl hpos (Nat.lt_succ_of_le hle) hfits hleft

/-! ### References -/

theorem copied_succ (out : List UInt8) (n distance : Nat) :
    copied out (n + 1) distance =
      copied out n distance ++ [out.getD (out.length - distance + n % distance) 0] := by
  rw [copied, copied, List.range_succ, List.map_append, List.map_singleton]

/-- What is copied next may have been copied just before. -/
theorem getElem?_copied (out : List UInt8) {distance : Nat} (hpos : 0 < distance)
    (hle : distance ≤ out.length) (n : Nat) :
    (out ++ copied out n distance)[out.length - distance + n]? =
      some (out.getD (out.length - distance + n % distance) 0) := by
  rcases Nat.lt_or_ge n distance with hlt | hge
  · have hin : out.length - distance + n < out.length := by omega
    rw [List.getElem?_append_left hin, Nat.mod_eq_of_lt hlt, List.getD_eq_getElem?_getD,
      List.getElem?_eq_getElem hin, Option.getD_some]
  · have hback : out.length - distance + n - out.length = n - distance := by omega
    have hlt : n - distance < n := by omega
    rw [List.getElem?_append_right (by omega), hback, copied, List.getElem?_map,
      List.getElem?_range hlt, Option.map_some, ← Nat.mod_eq_sub_mod hge]

theorem copyLoop_eq (out : List UInt8) {distance : Nat} (hpos : 0 < distance)
    (hle : distance ≤ out.length) (remaining offset : Nat) :
    copyLoop (out.length - distance) remaining offset (out ++ copied out offset distance) =
      .ok (out ++ copied out (offset + remaining) distance) := by
  induction remaining generalizing offset with
  | zero => rfl
  | succ remaining ih =>
    rw [copyLoop, get_eq (getElem?_copied out hpos hle offset), bind_ok, List.append_assoc,
      ← copied_succ, ih, show offset + 1 + remaining = offset + (remaining + 1) by omega]

theorem lengthBase_eq : lengthBase = lengthCodes.map Prod.snd := rfl

theorem lengthExtra_eq : lengthExtra = lengthCodes.map Prod.fst := rfl

theorem distanceBase_eq : distanceBase = distanceCodes.map Prod.snd := rfl

theorem distanceExtra_eq : distanceExtra = distanceCodes.map Prod.fst := rfl

theorem get_map {α β ε : Type} {xs : List α} {i : Nat} {x : α} (h : xs[i]? = some x) (f : α → β) :
    (get (xs.map f) i : Run ε β) = .ok (f x) := by
  refine get_eq ?_
  rw [List.getElem?_map, h]
  rfl

theorem lengthCodes_small : ∀ code ∈ lengthCodes, code.1 < 32 ∧ code.2 < 2 ^ 16 := by decide

theorem distanceCodes_small :
    ∀ code ∈ distanceCodes, code.1 < 32 ∧ 0 < code.2 ∧ code.2 < 2 ^ 16 := by decide

/-- What follows the symbol of a reference is read, and the copy is made. -/
theorem backReference_of_left (hmem : InMemory bytes) {lengths : List Nat} {distances : Huffman}
    (htable : IsTable lengths) (hcode : IsCode lengths distances)
    {i j extra base n extra' base' n' : Nat} {code : List Bool} {out : List UInt8}
    (hlength : lengthCodes[i]? = some (extra, base)) (hn : n < 2 ^ extra)
    (hdistance : distanceCodes[j]? = some (extra', base')) (hcodeBits : CodeBits lengths j code)
    (hn' : n' < 2 ^ extra') (hback : base' + n' ≤ out.length)
    (hleft : Left bytes position = lsb extra n ++ (code ++ (lsb extra' n' ++ rest))) :
    backReference bytes distances (257 + i) position out =
        .ok (position + extra + code.length + extra', out ++ copied out (base + n) (base' + n')) ∧
      Left bytes (position + extra + code.length + extra') = rest := by
  obtain ⟨hextra, hbase⟩ := lengthCodes_small _ (List.mem_of_getElem? hlength)
  obtain ⟨hextra', hpos, hbase'⟩ := distanceCodes_small _ (List.mem_of_getElem? hdistance)
  dsimp only at hextra hbase hextra' hpos hbase'
  have hj : j < distanceCodes.length := (List.getElem?_eq_some_iff.mp hdistance).1
  obtain ⟨hbits, hleft⟩ := bits_of_left hmem hextra hn hleft
  obtain ⟨hdecode, hleft⟩ := decode_of_left hmem htable hcode hcodeBits hleft
  obtain ⟨hbits', hleft⟩ := bits_of_left hmem hextra' hn' hleft
  refine ⟨?_, hleft⟩
  have hcopy := copyLoop_eq out (show 0 < base' + n' by omega) hback (base + n) 0
  have hnone : out ++ copied out 0 (base' + n') = out := List.append_nil out
  rw [hnone, Nat.zero_add] at hcopy
  rw [backReference, minus_eq (Nat.le_add_right 257 i), bind_ok, Nat.add_sub_cancel_left,
    lengthBase_eq, get_map hlength, bind_ok, lengthExtra_eq, get_map hlength, bind_ok, hbits,
    bind_ok]
  dsimp only
  rw [fits_eq (fits_sum hbase hextra hn), bind_ok, hdecode, bind_ok, distanceBase_eq]
  dsimp only
  rw [if_neg (by rw [List.length_map]; exact Nat.not_le.mpr hj), get_map hdistance, bind_ok,
    distanceExtra_eq, get_map hdistance, bind_ok, hbits', bind_ok]
  dsimp only
  rw [fits_eq (fits_sum hbase' hextra' hn'), bind_ok, if_neg (Nat.not_lt.mpr hback), minus_eq hback,
    bind_ok, hcopy, bind_ok, pure_eq]

/-! ### Tokens -/

/-- One turn of the loop reads a byte. -/
theorem blockLoop_literal (hmem : InMemory bytes) {lengths : List Nat}
    {literals distances : Huffman} (htable : IsTable lengths) (hliterals : IsCode lengths literals)
    {byte : UInt8} {code : List Bool} (hbits : CodeBits lengths byte.toNat code)
    {maxOutput fuel : Nat} {out : List UInt8} (hmax : out.length ≤ maxOutput)
    (hleft : Left bytes position = code ++ rest) :
    blockLoop bytes literals distances maxOutput (fuel + 1) position out =
      blockLoop bytes literals distances maxOutput fuel (position + code.length)
        (out ++ [byte]) := by
  have hbyte := byte.toNat_lt
  rw [blockLoop, if_neg (Nat.not_lt.mpr hmax), (decode_of_left hmem htable hliterals hbits hleft).1,
    bind_ok]
  dsimp only
  rw [if_pos (by omega), UInt8.ofNat_toNat]

/-- One turn of the loop copies. -/
theorem blockLoop_reference (hmem : InMemory bytes) {lengths lengths' : List Nat}
    {literals distances : Huffman} (htable : IsTable lengths) (hliterals : IsCode lengths literals)
    (htable' : IsTable lengths') (hdistances : IsCode lengths' distances)
    {i j extra base n extra' base' n' : Nat} {code code' : List Bool} {maxOutput fuel : Nat}
    {out : List UInt8} (hlength : lengthCodes[i]? = some (extra, base))
    (hbits : CodeBits lengths (257 + i) code) (hn : n < 2 ^ extra)
    (hdistance : distanceCodes[j]? = some (extra', base')) (hbits' : CodeBits lengths' j code')
    (hn' : n' < 2 ^ extra') (hback : base' + n' ≤ out.length) (hmax : out.length ≤ maxOutput)
    (hleft : Left bytes position =
      code ++ lsb extra n ++ code' ++ lsb extra' n' ++ rest) :
    blockLoop bytes literals distances maxOutput (fuel + 1) position out =
      blockLoop bytes literals distances maxOutput fuel
        (position + (code ++ lsb extra n ++ code' ++ lsb extra' n').length)
        (out ++ copied out (base + n) (base' + n')) := by
  have hi : i < lengthCodes.length := (List.getElem?_eq_some_iff.mp hlength).1
  have hcodes : lengthCodes.length = 29 := rfl
  simp only [List.append_assoc] at hleft
  obtain ⟨hdecode, hleft⟩ := decode_of_left hmem htable hliterals hbits hleft
  have href := (backReference_of_left hmem htable' hdistances hlength hn hdistance hbits' hn' hback
    hleft).1
  rw [blockLoop, if_neg (Nat.not_lt.mpr hmax), hdecode, bind_ok]
  dsimp only
  rw [if_neg (by omega), if_neg (by omega), if_pos (by omega), href, bind_ok]
  simp only [List.length_append, length_lsb, Nat.add_assoc]

theorem tokenBits_pos {literals distances : List Nat} {token : Token} {written : List Bool}
    (h : TokenBits literals distances token written) : 0 < written.length := by
  cases h with
  | literal hbits => exact codeBits_pos hbits
  | reference hlength hbits hn hdistance hbits' hn' =>
    have hpos := codeBits_pos hbits
    simp only [List.length_append]
    omega

/-- One turn of the loop reads one token. -/
theorem blockLoop_token (hmem : InMemory bytes) {lengths lengths' : List Nat}
    {literals distances : Huffman} (htable : IsTable lengths) (hliterals : IsCode lengths literals)
    (htable' : IsTable lengths') (hdistances : IsCode lengths' distances) {token : Token}
    {tokens : List Token} {written : List Bool} (htoken : TokenBits lengths lengths' token written)
    {maxOutput : Nat} {out after : List UInt8} (hexpand : expand (token :: tokens) out = some after)
    (hmax : out.length ≤ maxOutput) (hleft : Left bytes position = written ++ rest) (fuel : Nat) :
    ∃ out', expand tokens out' = some after ∧
      blockLoop bytes literals distances maxOutput (fuel + 1) position out =
        blockLoop bytes literals distances maxOutput fuel (position + written.length) out' := by
  cases htoken with
  | literal hbits =>
    exact ⟨_, hexpand, blockLoop_literal hmem htable hliterals hbits hmax hleft⟩
  | reference hlength hbits hn hdistance hbits' hn' =>
    rw [expand] at hexpand
    split_ifs at hexpand with hback
    exact ⟨_, hexpand, blockLoop_reference hmem htable hliterals htable' hdistances hlength hbits hn
      hdistance hbits' hn' hback hmax hleft⟩

theorem blockLoop_stop (hmem : InMemory bytes) {lengths : List Nat} {literals distances : Huffman}
    (htable : IsTable lengths) (hliterals : IsCode lengths literals) {stop : List Bool}
    (hstop : CodeBits lengths 256 stop) {maxOutput fuel : Nat} {out : List UInt8}
    (hmax : out.length ≤ maxOutput) (hleft : Left bytes position = stop ++ rest) :
    blockLoop bytes literals distances maxOutput (fuel + 1) position out =
      .ok (position + stop.length, out) := by
  rw [blockLoop, if_neg (Nat.not_lt.mpr hmax), (decode_of_left hmem htable hliterals hstop hleft).1,
    bind_ok]
  dsimp only
  rw [if_neg (by omega), if_pos rfl, pure_eq]

theorem position_lt_of_left {some : List Bool} (hpos : 0 < some.length)
    (hleft : Left bytes position = some ++ rest) : position < 8 * bytes.length := by
  have hlen := congrArg List.length hleft
  rw [length_left, List.length_append] at hlen
  omega

/-- The loop reads the tokens of a block, one after the other. -/
theorem blockLoop_of_left (hmem : InMemory bytes) {lengths lengths' : List Nat}
    {literals distances : Huffman} (htable : IsTable lengths) (hliterals : IsCode lengths literals)
    (htable' : IsTable lengths') (hdistances : IsCode lengths' distances) {tokens : List Token}
    {written stop : List Bool} (htokens : Sequence (TokenBits lengths lengths') tokens written)
    (hstop : CodeBits lengths 256 stop) {maxOutput fuel : Nat} {out after : List UInt8}
    (hexpand : expand tokens out = some after) (hmax : after.length ≤ maxOutput)
    (hleft : Left bytes position = written ++ (stop ++ rest))
    (hfuel : 8 * bytes.length < position + fuel) :
    blockLoop bytes literals distances maxOutput fuel position out =
      .ok (position + (written ++ stop).length, after) := by
  induction htokens generalizing position fuel out with
  | nil =>
    cases hexpand
    have hlt := position_lt_of_left (codeBits_pos hstop) hleft
    obtain ⟨fuel, rfl⟩ := Nat.exists_eq_succ_of_ne_zero (show fuel ≠ 0 by omega)
    exact blockLoop_stop hmem htable hliterals hstop hmax hleft
  | @cons token tokens first later htoken _ ih =>
    have hpos := tokenBits_pos htoken
    rw [List.append_assoc] at hleft
    have hlt := position_lt_of_left hpos hleft
    obtain ⟨fuel, rfl⟩ := Nat.exists_eq_succ_of_ne_zero (show fuel ≠ 0 by omega)
    have hout := Nat.le_trans (length_le_of_expand hexpand) hmax
    obtain ⟨out', hexpand', hturn⟩ :=
      blockLoop_token hmem htable hliterals htable' hdistances htoken
      hexpand hout hleft fuel
    rw [Nat.succ_eq_add_one, hturn, ih hexpand' (left_add hleft) (by omega)]
    simp only [List.length_append, Nat.add_assoc]

theorem block_of_left (hmem : InMemory bytes) {lengths lengths' : List Nat}
    {literals distances : Huffman} (htable : IsTable lengths) (hliterals : IsCode lengths literals)
    (htable' : IsTable lengths') (hdistances : IsCode lengths' distances) {tokens : List Token}
    {written : List Bool} (htokens : TokensBits lengths lengths' tokens written) {maxOutput : Nat}
    {out after : List UInt8} (hexpand : expand tokens out = some after)
    (hmax : after.length ≤ maxOutput) (hleft : Left bytes position = written ++ rest) :
    block bytes literals distances maxOutput position out =
    .ok (position + written.length, after) := by
  obtain ⟨before, stop, hbefore, hstop, rfl⟩ := htokens
  rw [List.append_assoc] at hleft
  exact blockLoop_of_left hmem htable hliterals htable' hdistances hbefore hstop hexpand hmax hleft
    (by omega)

/-! ### Stored blocks -/

theorem le16_of_get {index n : Nat} (hn : n < 2 ^ 16)
    (hlow : bytes[index]? = some (UInt8.ofNat n))
    (hhigh : bytes[index + 1]? = some (UInt8.ofNat (n / 256))) : le16 bytes index = .ok n := by
  rw [le16, get_eq hlow, bind_ok, get_eq hhigh, bind_ok, pure_eq, UInt8.toNat_ofNat',
    UInt8.toNat_ofNat']
  refine congrArg Except.ok ?_
  omega

/-- A stored block is skipped to and taken as it is. -/
theorem storedBlock_of_left (hmem : InMemory bytes) {pad : List Bool} {data : List UInt8}
    (hpad : pad.length < 8) (haligned : (position + pad.length) % 8 = 0)
    (hdata : data.length < 2 ^ 16)
    (hleft : Left bytes position =
      pad ++ (lsb 16 data.length ++ (lsb 16 (65535 - data.length) ++ ofBytes data)) ++ rest)
    (out : List UInt8) :
    storedBlock bytes position out =
      .ok (position + (pad.length + (32 + 8 * data.length)), out ++ data) := by
  obtain ⟨start, hstart⟩ : ∃ start, position + pad.length = 8 * start :=
    ⟨(position + pad.length) / 8, by omega⟩
  simp only [List.append_assoc] at hleft
  have hafter := left_add hleft
  rw [hstart, Left, drop_ofBytes, lsb_sixteen, lsb_sixteen, ← List.append_assoc,
    ← List.append_assoc,
    ← ofBytes_append, ← ofBytes_append] at hafter
  obtain ⟨hlen, htake⟩ := take_of_ofBytes hafter
  simp only [List.length_append, List.length_cons, List.length_nil, List.length_drop] at hlen htake
  have hget : ∀ i < 4 + data.length,
    bytes[start + i]? = (bytes.drop start |>.take (4 + data.length))[i]? := by
    intro i hi
    rw [List.getElem?_take_of_lt hi, List.getElem?_drop]
  rw [show 0 + 1 + 1 + (0 + 1 + 1) + data.length = 4 + data.length by omega] at htake
  rw [htake] at hget
  have hslice : (bytes.drop (start + 4)).take data.length = data := by
    have hdrop := congrArg (List.drop 4) htake
    rw [List.drop_take, List.drop_drop, Nat.add_sub_cancel_left] at hdrop
    exact hdrop
  unfold InMemory at hmem
  have halign : align position = .ok (8 * start) := by
    rw [align, fits_eq (by omega), bind_ok, pure_eq]
    refine congrArg Except.ok ?_
    omega
  have hindex : 8 * start / 2 ^ 3 = start := by omega
  have hlow : le16 bytes start = .ok data.length :=
    le16_of_get hdata (hget 0 (by omega)) (hget 1 (by omega))
  have hhigh : le16 bytes (start + 2) = .ok (65535 - data.length) :=
    le16_of_get (by omega) (hget 2 (by omega)) (hget 3 (by omega))
  rw [storedBlock, halign, bind_ok, Nat.shiftRight_eq_div_pow, hindex]
  dsimp only
  rw [fits_eq (by omega), bind_ok, if_neg (by omega), hlow, bind_ok, hhigh, bind_ok,
    if_neg (by omega),
    if_neg (by omega), if_neg (by omega), slice_eq (by omega) (by omega), bind_ok, Nat.shiftLeft_eq,
    fits_eq (by omega), bind_ok, pure_eq, Nat.add_sub_cancel_left, hslice]
  refine congrArg Except.ok (Prod.ext ?_ rfl)
  dsimp only
  omega

/-! ### Fixed codes -/

theorem fixedLengths_eq : fixedLengths = fixedLiterals := by decide +kernel

theorem isTable_fixedLiterals : IsTable fixedLiterals := by
  constructor
  · decide +kernel
  · rw [Canonical.HasRoom]
    decide +kernel

theorem isTable_distances : IsTable (List.replicate 30 5) := by
  constructor
  · decide
  · rw [Canonical.HasRoom]
    decide

theorem code_replicate {n symbol : Nat} (h : symbol < n) :
    Canonical.code (List.replicate n 5) symbol 5 = symbol := by
  have hnone : ∀ l, l < 5 → Canonical.count (List.replicate n 5) l = 0 := by
    intro l hl
    rw [Canonical.count]
    split_ifs
    · rfl
    · rw [List.count_replicate, if_neg (by simp; omega)]
  have hfirst : Canonical.first (List.replicate n 5) 5 = 0 := by
    simp [Canonical.first, hnone]
  rw [Canonical.code, hfirst, Canonical.rank, List.take_replicate, List.count_replicate_self]
  omega

/-- Two of the fixed distance codes are never written. -/
theorem codeBits_distances {symbol : Nat} {code : List Bool} (hsymbol : symbol < 30)
    (h : CodeBits fixedDistances symbol code) : CodeBits (List.replicate 30 5) symbol code := by
  obtain ⟨l, hl, hpos, rfl⟩ := h
  rw [fixedDistances, List.getElem?_replicate_of_lt (by omega)] at hl
  cases hl
  refine ⟨5, List.getElem?_replicate_of_lt hsymbol, hpos, ?_⟩
  rw [fixedDistances, code_replicate (by omega), code_replicate hsymbol]

theorem tokenBits_distances {literals : List Nat} {token : Token} {written : List Bool}
    (h : TokenBits literals fixedDistances token written) :
    TokenBits literals (List.replicate 30 5) token written := by
  cases h with
  | literal hbits => exact .literal hbits
  | reference hlength hbits hn hdistance hbits' hn' =>
    have hj := (List.getElem?_eq_some_iff.mp hdistance).1
    exact .reference hlength hbits hn hdistance (codeBits_distances hj hbits') hn'

theorem sequence_imp {α : Type} {R S : α → List Bool → Prop} (himp : ∀ x bits, R x bits → S x bits)
    {xs : List α} {bits : List Bool} (h : Sequence R xs bits) : Sequence S xs bits := by
  induction h with
  | nil => exact .nil
  | cons hx _ ih => exact .cons (himp _ _ hx) ih

theorem fixedBlock_of_left (hmem : InMemory bytes) {tokens : List Token} {written : List Bool}
    (htokens : TokensBits fixedLiterals fixedDistances tokens written) {maxOutput : Nat}
    {out after : List UInt8} (hexpand : expand tokens out = some after)
    (hmax : after.length ≤ maxOutput) (hleft : Left bytes position = written ++ rest) :
    fixedBlock bytes maxOutput position out = .ok (position + written.length, after) := by
  obtain ⟨before, stop, hbefore, hstop, rfl⟩ := htokens
  obtain ⟨literals, hnew, hliterals⟩ :=
    new_spec fixedLengths_lt (lt_of_eq_of_lt length_fixedLengths (by decide))
  obtain ⟨distances, hnew', hdistances⟩ :=
    new_spec (lt_of_isTable isTable_distances) (lt_of_eq_of_lt List.length_replicate (by decide))
  rw [fixedLengths_eq] at hnew hliterals
  rw [fixedBlock, fixedLengths_eq, hnew, bind_ok, hnew', bind_ok]
  exact block_of_left hmem isTable_fixedLiterals hliterals isTable_distances hdistances
    ⟨before, stop, sequence_imp (fun _ _ => tokenBits_distances) hbefore, hstop,
      rfl⟩ hexpand hmax hleft

/-! ### Codes of a block's own -/

/-- The table holds what it is being filled with where an index has been read. -/
theorem codeLengths_of_left (hmem : InMemory bytes) {codes : List Nat} (hcodes : codes.length = 19)
    (hsmall : ∀ l ∈ codes, l < 2 ^ 3) {indices : List Nat} (hindices : ∀ i ∈ indices, i < 19)
    {lengths : List Nat} (hlen : lengths.length = 19)
    (hleft : Left bytes position = indices.flatMap (fun i => lsb 3 (codes.getD i 0)) ++ rest) :
    ∃ made, codeLengths bytes indices position lengths = .ok (made, position + 3 * indices.length) ∧
      made.length = 19 ∧
      ∀ i : Nat, made[i]? = if i ∈ indices then codes[i]? else lengths[i]? := by
  induction indices generalizing position lengths with
  | nil => exact ⟨lengths, rfl, hlen, fun i => (if_neg List.not_mem_nil).symm⟩
  | cons index indices ih =>
    rw [List.forall_mem_cons] at hindices
    rw [List.flatMap_cons, List.append_assoc] at hleft
    have hget : codes[index]? = some (codes.getD index 0) := by
      rw [List.getD_eq_getElem?_getD, List.getElem?_eq_getElem (by omega), Option.getD_some]
    have hlt := hsmall _ (List.mem_of_getElem? hget)
    obtain ⟨hbits, hleft⟩ := bits_of_left hmem (by decide) hlt hleft
    have hset : (lengths.set index (codes.getD index 0)).length = 19 := by rwa [List.length_set]
    obtain ⟨made, hmade, hsize, hget'⟩ := ih hindices.2 hset hleft
    refine ⟨made, ?_, hsize, fun i => ?_⟩
    · rw [codeLengths, hbits, bind_ok]
      dsimp only
      rw [put_eq (by rw [hlen]; exact hindices.1), bind_ok, hmade, List.length_cons]
      refine congrArg Except.ok (Prod.ext rfl ?_)
      dsimp only
      omega
    · rw [hget', List.getElem?_set]
      by_cases hi : i ∈ indices
      · rw [if_pos hi, if_pos (List.mem_cons_of_mem _ hi)]
      · rw [if_neg hi]
        by_cases hsame : index = i
        · subst hsame
          rw [if_pos rfl, if_pos (by rw [hlen]; exact hindices.1), if_pos List.mem_cons_self, hget]
        · rw [if_neg hsame, if_neg]
          rw [List.mem_cons]
          rintro (h | h)
          · exact hsame h.symm
          · exact hi h

theorem order_eq : order = codeOrder := rfl

theorem mem_codeOrder : ∀ i < 19, i ∈ codeOrder := by decide

/-- What is not written is zero. -/
theorem codeLengths_all (hmem : InMemory bytes) {codes : List Nat} {hclen : Nat}
    (hcodes : codes.length = 19) (hsmall : ∀ l ∈ codes, l < 2 ^ 3)
    (hrest : ∀ i ∈ codeOrder.drop (hclen + 4), codes[i]? = some 0)
    (hleft : Left bytes position =
      (codeOrder.take (hclen + 4)).flatMap (fun i => lsb 3 (codes.getD i 0)) ++ rest) :
    codeLengths bytes (codeOrder.take (hclen + 4)) position (List.replicate 19 0) =
      .ok (codes, position + 3 * (codeOrder.take (hclen + 4)).length) := by
  have hindices : ∀ i ∈ codeOrder.take (hclen + 4), i < 19 :=
    fun i hi => order_lt i (List.mem_of_mem_take hi)
  obtain ⟨made, hmade, hsize, hget⟩ := codeLengths_of_left hmem hcodes hsmall hindices
    (List.length_replicate (n := 19) (a := 0)) hleft
  have heq : made = codes := by
    refine List.ext_getElem? fun i => ?_
    rw [hget]
    split_ifs with hi
    · rfl
    rcases Nat.lt_or_ge i 19 with hlt | hge
    · have hdrop : i ∈ codeOrder.drop (hclen + 4) := by
        have hmem := mem_codeOrder i hlt
        rw [← List.take_append_drop (hclen + 4) codeOrder, List.mem_append] at hmem
        exact hmem.resolve_left hi
      rw [hrest i hdrop, List.getElem?_replicate_of_lt hlt]
    · rw [List.getElem?_eq_none (by rwa [List.length_replicate]),
        List.getElem?_eq_none (by rwa [hcodes])]
  rw [hmade, heq]

/-- The lengths that have been read, and zeros. -/
def padded (done : List Nat) (size : Nat) : List Nat :=
  done ++ List.replicate (size - done.length) 0

section

variable {done : List Nat} {size : Nat}

theorem length_padded (h : done.length ≤ size) : (padded done size).length = size := by
  rw [padded, List.length_append, List.length_replicate]
  omega

theorem padded_set (h : done.length < size) (l : Nat) :
    (padded done size).set done.length l = padded (done ++ [l]) size := by
  have hsplit : size - done.length = size - (done ++ [l]).length + 1 := by
    rw [List.length_append, List.length_singleton]
    omega
  rw [padded, padded, List.set_append_right _ _ (Nat.le_refl _), Nat.sub_self, hsplit,
    List.replicate_succ, List.set_cons_zero, List.append_assoc, List.singleton_append]

theorem padded_zeros {count : Nat} (h : done.length + count ≤ size) :
    padded (done ++ List.replicate count 0) size = padded done size := by
  have hsplit : size - done.length = count + (size - (done ++ List.replicate count 0).length) := by
    rw [List.length_append, List.length_replicate]
    omega
  rw [padded, padded, hsplit, List.replicate_add, List.append_assoc]

theorem padded_full (h : done.length = size) : padded done size = done := by
  rw [padded, h, Nat.sub_self, List.replicate_zero, List.append_nil]

theorem put_padded (h : done.length < size) (l : Nat) :
    (put (padded done size) done.length l : Result (List Nat)) = .ok
    (padded (done ++ [l]) size) := by
  rw [put_eq (by rwa [length_padded (Nat.le_of_lt h)]), padded_set h]

theorem repeatLength_padded {count last : Nat} (h : done.length + count ≤ size)
    (hsize : size < 2 ^ 16) :
    repeatLength last count done.length (padded done size) =
      .ok (done.length + count, padded (done ++ List.replicate count last) size) := by
  induction count generalizing done with
  | zero =>
    rw [List.replicate_zero, List.append_nil]
    rfl
  | succ count ih =>
    have hmore : (done ++ [last]).length + count ≤ size := by
      rw [List.length_append, List.length_singleton]
      omega
    have hnext := ih hmore
    rw [List.length_append, List.length_singleton, List.append_assoc, List.singleton_append,
      ← List.replicate_succ] at hnext
    rw [repeatLength, length_padded (by omega), if_neg (by omega), put_padded (by omega), bind_ok,
      fits_eq (by omega), bind_ok, hnext,
        show done.length + 1 + count = done.length + (count + 1) by omega]

end

theorem length_le_of_unroll {runs : List Lengths} {done made : List Nat}
    (h : unroll runs done = some made) : done.length ≤ made.length := by
  induction runs generalizing done with
  | nil =>
    cases h
    exact Nat.le_refl _
  | cons run runs ih =>
    cases run with
    | one l =>
      have hle := ih h
      rw [List.length_append] at hle
      omega
    | again count =>
      rw [unroll, Option.bind_eq_some_iff] at h
      obtain ⟨last, -, h⟩ := h
      have hle := ih h
      rw [List.length_append] at hle
      omega
    | zeros count =>
      have hle := ih h
      rw [List.length_append] at hle
      omega

theorem length_unroll_le {runs : List Lengths} {done more made : List Nat}
    (h : unroll runs (done ++ more) = some made) : done.length + more.length ≤ made.length := by
  have hle := length_le_of_unroll h
  rwa [List.length_append] at hle

/-- One code length symbol is read, with what follows it. -/
theorem lengthStep_of_left (hmem : InMemory bytes) {codes : List Nat} {huffman : Huffman}
    (htable : IsTable codes) (hcode : IsCode codes huffman) {run : Lengths} {runs : List Lengths}
    {written : List Bool} (hrun : LengthsBits codes run written) {done made : List Nat}
    (hunroll : unroll (run :: runs) done = some made) (hsize : made.length < 2 ^ 16)
    (hleft : Left bytes position = written ++ rest) :
    ∃ symbol next done', huffman.decode bytes position = .ok (symbol, next) ∧
      done.length < done'.length ∧ unroll runs done' = some made ∧
      lengthStep bytes symbol next done.length (padded done made.length) =
        .ok (position + written.length, done'.length, padded done' made.length) := by
  cases hrun with
  | @one l _ hl hbits =>
    obtain ⟨hdecode, -⟩ := decode_of_left hmem htable hcode hbits hleft
    have hle := length_unroll_le hunroll
    rw [List.length_singleton] at hle
    refine ⟨l, _, done ++ [l], hdecode, ?_, hunroll, ?_⟩
    · rw [List.length_append, List.length_singleton]
      omega
    · rw [lengthStep, if_pos hl, put_padded (by omega), bind_ok, fits_eq (by omega), bind_ok,
        pure_eq,
        List.length_append, List.length_singleton]
  | @again n code hn hbits =>
    rw [unroll, Option.bind_eq_some_iff] at hunroll
    obtain ⟨last, hlast, hunroll⟩ := hunroll
    rw [List.append_assoc] at hleft
    obtain ⟨hdecode, hleft⟩ := decode_of_left hmem htable hcode hbits hleft
    obtain ⟨hextra, -⟩ := bits_of_left hmem (by decide) hn hleft
    have hle := length_unroll_le hunroll
    rw [List.length_replicate] at hle
    have hpos : 0 < done.length := by
      rw [List.length_pos_iff]
      rintro rfl
      cases hlast
    have hprevious : (padded done made.length)[done.length - 1]? = some last := by
      rw [padded, List.getElem?_append_left (by omega), ← List.getLast?_eq_getElem?, hlast]
    refine ⟨16, _, done ++ List.replicate (3 + n) last, hdecode, ?_, hunroll, ?_⟩
    · rw [List.length_append, List.length_replicate]
      omega
    · rw [lengthStep, if_neg (by decide), if_pos rfl, if_neg (by omega), minus_eq hpos, bind_ok,
        get_eq hprevious, bind_ok, hextra, bind_ok]
      dsimp only
      rw [repeatLength_padded hle hsize, bind_ok]
      dsimp only
      rw [pure_eq, List.length_append, List.length_append, List.length_replicate, length_lsb,
        Nat.add_assoc]
  | @zeros n code hn hbits =>
    rw [List.append_assoc] at hleft
    obtain ⟨hdecode, hleft⟩ := decode_of_left hmem htable hcode hbits hleft
    obtain ⟨hextra, -⟩ := bits_of_left hmem (by decide) hn hleft
    have hle := length_unroll_le hunroll
    rw [List.length_replicate] at hle
    refine ⟨17, _, done ++ List.replicate (3 + n) 0, hdecode, ?_, hunroll, ?_⟩
    · rw [List.length_append, List.length_replicate]
      omega
    · rw [lengthStep, if_neg (by decide), if_neg (by decide), if_pos rfl, hextra, bind_ok]
      dsimp only
      rw [fits_eq (by omega), bind_ok, pure_eq, padded_zeros hle, List.length_append,
        List.length_append, List.length_replicate, length_lsb, Nat.add_assoc]
  | @manyZeros n code hn hbits =>
    rw [List.append_assoc] at hleft
    obtain ⟨hdecode, hleft⟩ := decode_of_left hmem htable hcode hbits hleft
    obtain ⟨hextra, -⟩ := bits_of_left hmem (by decide) hn hleft
    have hle := length_unroll_le hunroll
    rw [List.length_replicate] at hle
    refine ⟨18, _, done ++ List.replicate (11 + n) 0, hdecode, ?_, hunroll, ?_⟩
    · rw [List.length_append, List.length_replicate]
      omega
    · rw [lengthStep, if_neg (by decide), if_neg (by decide), if_neg (by decide), if_pos rfl,
        hextra,
        bind_ok]
      dsimp only
      rw [fits_eq (by omega), bind_ok, pure_eq, padded_zeros hle, List.length_append,
        List.length_append, List.length_replicate, length_lsb, Nat.add_assoc]

/-- The lengths of both codes are read in one go. -/
theorem lengthsLoop_of_left (hmem : InMemory bytes) {codes : List Nat} {huffman : Huffman}
    (htable : IsTable codes) (hcode : IsCode codes huffman) {runs : List Lengths}
    {written : List Bool} (hruns : Sequence (LengthsBits codes) runs written) {done made : List Nat}
    (hunroll : unroll runs done = some made) (hsize : made.length < 2 ^ 16) {fuel : Nat}
    (hfuel : made.length < done.length + fuel) (hleft : Left bytes position = written ++ rest) :
    lengthsLoop bytes huffman fuel position done.length (padded done made.length) =
      .ok (position + written.length, made.length, made) := by
  induction hruns generalizing position fuel done with
  | nil =>
    cases hunroll
    obtain ⟨fuel, rfl⟩ := Nat.exists_eq_succ_of_ne_zero (show fuel ≠ 0 by omega)
    rw [Nat.succ_eq_add_one, lengthsLoop, padded_full rfl, if_neg (Nat.lt_irrefl _), pure_eq]
    rfl
  | @cons run runs first later hrun _ ih =>
    rw [List.append_assoc] at hleft
    obtain ⟨symbol, next, done', hdecode, hgrow, hunroll', hstep⟩ :=
      lengthStep_of_left hmem htable hcode hrun hunroll hsize hleft
    have hle := length_le_of_unroll hunroll'
    obtain ⟨fuel, rfl⟩ := Nat.exists_eq_succ_of_ne_zero (show fuel ≠ 0 by omega)
    rw [Nat.succ_eq_add_one, lengthsLoop, length_padded (by omega), if_pos (by omega), hdecode,
      bind_ok]
    dsimp only
    rw [hstep, bind_ok]
    dsimp only
    rw [ih hunroll' (by omega) (left_add hleft), List.length_append, Nat.add_assoc]

theorem length_flatMap_lsb (count : Nat) (f : Nat → Nat) (indices : List Nat) :
    (indices.flatMap fun i => lsb count (f i)).length = count * indices.length := by
  induction indices with
  | nil => rfl
  | cons index indices ih =>
    rw [List.flatMap_cons, List.length_append, length_lsb, ih, List.length_cons, Nat.mul_succ,
      Nat.add_comm]

theorem dynamicBlock_of_left (hmem : InMemory bytes) {lengths lengths' : List Nat}
    {header : List Bool} (hcodes : CodesBits lengths lengths' header) (htable : IsTable lengths)
    (htable' : IsTable lengths') {tokens : List Token} {written : List Bool}
    (htokens : TokensBits lengths lengths' tokens written) {maxOutput : Nat}
    {out after : List UInt8} (hexpand : expand tokens out = some after)
    (hmax : after.length ≤ maxOutput) (hleft : Left bytes position = header ++ written ++ rest) :
    dynamicBlock bytes maxOutput position out =
    .ok (position + (header ++ written).length, after) := by
  obtain ⟨hhlit, hliterals, hhdist, hdistances, hhclen, hsize, hsmall, hrest, hcodes, hruns,
    hunroll⟩ := hcodes
  rename_i hlit hdist hclen codes runs runBits
  simp only [List.append_assoc] at hleft
  obtain ⟨hbits, hleft⟩ := bits_of_left hmem (by decide) hhlit hleft
  obtain ⟨hbits', hleft⟩ := bits_of_left hmem (by decide) hhdist hleft
  obtain ⟨hbits'', hleft⟩ := bits_of_left hmem (by decide) hhclen hleft
  have hcodeLengths := codeLengths_all hmem hsize hsmall hrest hleft
  have hleft := left_add hleft
  rw [length_flatMap_lsb] at hleft
  obtain ⟨huffman, hnew, hcode⟩ :=
    new_spec (lt_of_isTable hcodes) (lt_of_eq_of_lt hsize (by decide))
  obtain ⟨literals, hnew', hliteralCode⟩ := new_spec (lt_of_isTable htable) (by omega)
  obtain ⟨distances, hnew'', hdistanceCode⟩ := new_spec (lt_of_isTable htable') (by omega)
  have hall : (lengths ++ lengths').length = hlit + 257 + (hdist + 1) := by
    rw [List.length_append, hliterals, hdistances]
  have hfuel :
    (lengths ++ lengths').length < ([] : List Nat).length + (hlit + 257 + (hdist + 1) + 1) := by
    rw [hall, List.length_nil]
    omega
  have hloop := lengthsLoop_of_left hmem hcodes hcode hruns hunroll (by omega) hfuel hleft
  rw [hall, padded, List.length_nil, List.nil_append, Nat.sub_zero] at hloop
  have hleft := left_add hleft
  have hblock := block_of_left hmem htable hliteralCode htable' hdistanceCode htokens hexpand hmax
    hleft
  have hfirst : (lengths ++ lengths').take (hlit + 257) = lengths := by
    rw [← hliterals, List.take_left]
  have hsecond : (lengths ++ lengths').drop (hlit + 257) = lengths' := by
    rw [← hliterals, List.drop_left]
  rw [dynamicBlock, hbits, bind_ok]
  dsimp only
  rw [hbits', bind_ok]
  dsimp only
  rw [hbits'', bind_ok]
  dsimp only
  rw [order_eq, hcodeLengths, bind_ok]
  dsimp only
  rw [hnew, bind_ok, hloop, bind_ok]
  dsimp only
  rw [hall, if_neg (Nat.lt_irrefl _), slice_eq (Nat.zero_le _) (by rw [hall]; omega), bind_ok,
    List.drop_zero, Nat.sub_zero, hfirst, hnew', bind_ok, slice_eq (by omega) (by rw [hall]),
    bind_ok,
    hsecond, List.take_of_length_le (by rw [hdistances]; omega), hnew'', bind_ok, hblock]
  refine congrArg Except.ok (Prod.ext ?_ rfl)
  simp only [List.length_append, length_lsb, length_flatMap_lsb]
  omega

/-! ### Streams -/

theorem anyBlock_of_left (hmem : InMemory bytes) {kind : Nat} {out after : List UInt8}
    {written : List Bool} (hblock : BlockBits position out kind written after) {maxOutput : Nat}
    (hmax : after.length ≤ maxOutput) (hleft : Left bytes position = written ++ rest) :
    kind < 2 ^ 2 ∧
      anyBlock bytes maxOutput kind position out = .ok (position + written.length, after) := by
  cases hblock with
  | stored hpad haligned hdata =>
    refine ⟨by decide, ?_⟩
    rw [anyBlock, if_pos rfl, storedBlock_of_left hmem hpad haligned hdata hleft]
    simp only [List.length_append, length_lsb, length_ofBytes]
    refine congrArg Except.ok (Prod.ext ?_ rfl)
    dsimp only
    omega
  | fixed htokens hexpand =>
    refine ⟨by decide, ?_⟩
    rw [anyBlock, if_neg (by decide), if_pos rfl,
      fixedBlock_of_left hmem htokens hexpand hmax hleft]
  | dynamic hcodes hliterals hdistances htokens hexpand =>
    refine ⟨by decide, ?_⟩
    rw [anyBlock, if_neg (by decide), if_neg (by decide), if_pos rfl,
      dynamicBlock_of_left hmem hcodes hliterals hdistances htokens hexpand hmax hleft]

/-- The loop reads the blocks of a stream, one after the other. -/
theorem inflateLoop_of_left (hmem : InMemory bytes) {out after : List UInt8} {written : List Bool}
    (hstream : Stream position out written after) {maxOutput fuel : Nat}
    (hmax : after.length ≤ maxOutput) (hleft : Left bytes position = written ++ rest)
    (hfuel : 8 * bytes.length < position + fuel) :
    inflateLoop bytes maxOutput fuel position out = .ok after := by
  induction hstream generalizing fuel with
  | @last position kind before after block hblock =>
    have hlt : position < 8 * bytes.length :=
      position_lt_of_left (by rw [List.length_cons]; exact Nat.succ_pos _) hleft
    obtain ⟨fuel, rfl⟩ := Nat.exists_eq_succ_of_ne_zero (show fuel ≠ 0 by omega)
    rw [List.cons_append, List.append_assoc] at hleft
    obtain ⟨hbit, hleft⟩ := bit_of_left hmem hleft
    have hafter := left_add hleft
    rw [length_lsb] at hafter
    obtain ⟨hkind, hread⟩ := anyBlock_of_left hmem hblock hmax hafter
    obtain ⟨hbits, -⟩ := bits_of_left hmem (by decide) hkind hleft
    rw [Nat.succ_eq_add_one, inflateLoop, hbit, bind_ok]
    dsimp only
    rw [hbits, bind_ok]
    dsimp only
    rw [hread, bind_ok]
    rfl
  | @more position kind before middle after block later hblock hrest ih =>
    have hlt : position < 8 * bytes.length :=
      position_lt_of_left (by rw [List.length_cons]; exact Nat.succ_pos _) hleft
    obtain ⟨fuel, rfl⟩ := Nat.exists_eq_succ_of_ne_zero (show fuel ≠ 0 by omega)
    rw [List.cons_append, List.append_assoc, List.append_assoc] at hleft
    obtain ⟨hbit, hleft⟩ := bit_of_left hmem hleft
    have hafter := left_add hleft
    rw [length_lsb] at hafter
    obtain ⟨hkind, hread⟩ := anyBlock_of_left hmem hblock (Nat.le_trans hrest.length_le hmax) hafter
    obtain ⟨hbits, -⟩ := bits_of_left hmem (by decide) hkind hleft
    rw [Nat.succ_eq_add_one, inflateLoop, hbit, bind_ok]
    dsimp only
    rw [hbits, bind_ok]
    dsimp only
    rw [hread, bind_ok]
    exact ih hmax (left_add hafter) (by omega)

theorem inflate_of_stream {bits : List Bool} {out : List UInt8} (hmem : InMemory bytes)
    (hstream : Stream 0 [] bits out) (hbytes : ofBytes bytes = bits ++ rest) {maxOutput : Nat}
    (hmax : out.length ≤ maxOutput) : inflate bytes maxOutput = .ok out :=
  inflateLoop_of_left hmem hstream hmax hbytes (by omega)

/-- **The inflater implements the format**: of bytes that begin with a stream, whatever
    its blocks and codes are, it returns what the stream stands for, if the limit is
    not below that. -/
theorem inflate_stream (bytes : List UInt8) (hmem : InMemory bytes) (bits rest : List Bool)
    (out : List UInt8) (hstream : Stream 0 [] bits out) (hbytes : ofBytes bytes = bits ++ rest)
    (maxOutput : Nat) (hmax : out.length ≤ maxOutput) : inflate bytes maxOutput = .ok out :=
  inflate_of_stream hmem hstream hbytes hmax

/-- A stored block and one with the fixed codes: a byte, and three copies of it. -/
theorem inflate_stream_copies :
    inflate [0, 1, 0, 254, 255, 97, 3, 2, 0] 4 = .ok [97, 97, 97, 97] := by
  have hpad : (List.replicate 5 false).length < 8 := by decide
  have hone : ([97] : List UInt8).length < 2 ^ 16 := by decide
  have hstored : BlockBits 3 [] 0
      (List.replicate 5 false ++ (lsb 16 1 ++ (lsb 16 (65535 - 1) ++ ofBytes [97]))) ([] ++ [97]) :=
    .stored hpad (by decide) hone
  have hlength : CodeBits fixedLiterals (257 + 0) (msb 7 1) :=
    ⟨7, by decide +kernel, by decide, by decide +kernel⟩
  have hdistance : CodeBits fixedDistances 0 (msb 5 0) :=
    ⟨5, by decide +kernel, by decide, by decide +kernel⟩
  have hstop : CodeBits fixedLiterals 256 (msb 7 0) :=
    ⟨7, by decide +kernel, by decide, by decide +kernel⟩
  have htoken : TokenBits fixedLiterals fixedDistances (.reference (3 + 0) (1 + 0))
      (msb 7 1 ++ lsb 0 0 ++ msb 5 0 ++ lsb 0 0) :=
    .reference rfl hlength (by decide) rfl hdistance (by decide)
  have hfixed : BlockBits 51 [97] 1 (msb 7 1 ++ lsb 0 0 ++ msb 5 0 ++ lsb 0 0 ++ [] ++ msb 7 0)
      [97, 97, 97, 97] :=
    .fixed ⟨_, _, .cons htoken .nil, hstop, rfl⟩ rfl
  exact inflate_stream _ (by decide) _ [false, false] _ (.more hstored (.last hfixed)) (by decide) _
    (by decide)

end AiDaemon.Inflate
