import AiDaemon.BitList
import AiDaemon.Canonical

/-!
# DEFLATE

The format itself, with no decoder in mind: which strings of bits are a stream
(RFC 1951), and what bytes a stream stands for.  A stream is a sequence of
blocks; a block is stored, or is a sequence of tokens written with the fixed
codes or with codes of its own.  A token is a byte or a reference to bytes
before it.

A code is canonical and may be complete, or may leave codes over
(`Canonical.HasRoom`), as the code of a single distance does.
-/

namespace AiDaemon.Deflate

open BitList

/-- Things one after the other, each written as the relation says. -/
inductive Sequence {α : Type} (R : α → List Bool → Prop) : List α → List Bool → Prop
  | nil : Sequence R [] []
  | cons {x : α} {xs : List α} {bits rest : List Bool} (hx : R x bits) (hxs : Sequence R xs rest) :
      Sequence R (x :: xs) (bits ++ rest)

/-! ### Codes -/

/-- Lengths that a code can have. -/
def IsTable (lengths : List Nat) : Prop :=
  (∀ l ∈ lengths, l ≤ 15) ∧ Canonical.HasRoom lengths 15

/-- A symbol is written as its code, the most significant bit first. -/
def CodeBits (lengths : List Nat) (symbol : Nat) (bits : List Bool) : Prop :=
  ∃ l, lengths[symbol]? = some l ∧ l ≠ 0 ∧ bits = msb l (Canonical.code lengths symbol l)

/-! ### Tokens -/

inductive Token where
  | literal (byte : UInt8)
  | reference (length distance : Nat)
deriving DecidableEq, Repr

/-- Extra bits and shortest length of the symbols 257 to 285. -/
def lengthCodes : List (Nat × Nat) :=
  [(0, 3), (0, 4), (0, 5), (0, 6), (0, 7), (0, 8), (0, 9), (0, 10), (1, 11), (1, 13), (1, 15),
    (1, 17), (2, 19), (2, 23), (2, 27), (2, 31), (3, 35), (3, 43), (3, 51), (3, 59), (4, 67),
    (4, 83), (4, 99), (4, 115), (5, 131), (5, 163), (5, 195), (5, 227), (0, 258)]

/-- Extra bits and shortest distance of the symbols 0 to 29. -/
def distanceCodes : List (Nat × Nat) :=
  [(0, 1), (0, 2), (0, 3), (0, 4), (1, 5), (1, 7), (2, 9), (2, 13), (3, 17), (3, 25), (4, 33),
    (4, 49), (5, 65), (5, 97), (6, 129), (6, 193), (7, 257), (7, 385), (8, 513), (8, 769),
    (9, 1025), (9, 1537), (10, 2049), (10, 3073), (11, 4097), (11, 6145), (12, 8193),
    (12, 12289), (13, 16385), (13, 24577)]

/-- How a token is written with a code for bytes and lengths and one for distances. -/
inductive TokenBits (literals distances : List Nat) : Token → List Bool → Prop
  | literal {byte : UInt8} {bits : List Bool} (hbits : CodeBits literals byte.toNat bits) :
      TokenBits literals distances (.literal byte) bits
  | reference {i j extra base n extra' base' n' : Nat} {bits bits' : List Bool}
      (hlength : lengthCodes[i]? = some (extra, base)) (hbits : CodeBits literals (257 + i) bits)
      (hn : n < 2 ^ extra) (hdistance : distanceCodes[j]? = some (extra', base'))
      (hbits' : CodeBits distances j bits') (hn' : n' < 2 ^ extra') :
      TokenBits literals distances (.reference (base + n) (base' + n'))
        (bits ++ lsb extra n ++ bits' ++ lsb extra' n')

/-- The tokens of a block and its end. -/
def TokensBits (literals distances : List Nat) (tokens : List Token) (bits : List Bool) : Prop :=
  ∃ written stop, Sequence (TokenBits literals distances) tokens written ∧
    CodeBits literals 256 stop ∧ bits = written ++ stop

/-- The last bytes again, over and over where more are asked for than there are. -/
def copied (out : List UInt8) (length distance : Nat) : List UInt8 :=
  (List.range length).map fun k => out.getD (out.length - distance + k % distance) 0

/-- What the tokens stand for, after what came before them. -/
def expand : List Token → List UInt8 → Option (List UInt8)
  | [], out => some out
  | .literal byte :: tokens, out => expand tokens (out ++ [byte])
  | .reference length distance :: tokens, out =>
    if distance ≤ out.length then expand tokens (out ++ copied out length distance) else none

/-! ### Codes of a block's own -/

/-- How code lengths are written. -/
inductive Lengths where
  | one (l : Nat)
  | again (count : Nat)
  | zeros (count : Nat)
deriving DecidableEq, Repr

inductive LengthsBits (codes : List Nat) : Lengths → List Bool → Prop
  | one {l : Nat} {bits : List Bool} (hl : l ≤ 15) (hbits : CodeBits codes l bits) :
      LengthsBits codes (.one l) bits
  | again {n : Nat} {bits : List Bool} (hn : n < 2 ^ 2) (hbits : CodeBits codes 16 bits) :
      LengthsBits codes (.again (3 + n)) (bits ++ lsb 2 n)
  | zeros {n : Nat} {bits : List Bool} (hn : n < 2 ^ 3) (hbits : CodeBits codes 17 bits) :
      LengthsBits codes (.zeros (3 + n)) (bits ++ lsb 3 n)
  | manyZeros {n : Nat} {bits : List Bool} (hn : n < 2 ^ 7) (hbits : CodeBits codes 18 bits) :
      LengthsBits codes (.zeros (11 + n)) (bits ++ lsb 7 n)

/-- The lengths that are written so, after those before. -/
def unroll : List Lengths → List Nat → Option (List Nat)
  | [], lengths => some lengths
  | .one l :: rest, lengths => unroll rest (lengths ++ [l])
  | .again count :: rest, lengths =>
    lengths.getLast?.bind fun last => unroll rest (lengths ++ List.replicate count last)
  | .zeros count :: rest, lengths => unroll rest (lengths ++ List.replicate count 0)

/-- The order in which the lengths of the code for code lengths stand. -/
def codeOrder : List Nat := [16, 17, 18, 0, 8, 7, 9, 6, 10, 5, 11, 4, 12, 3, 13, 2, 14, 1, 15]

/-- How the codes of a block stand before it.  The lengths for bytes and for
    distances are one list: what repeats may reach from the one into the other. -/
inductive CodesBits (literals distances : List Nat) : List Bool → Prop
  | intro {hlit hdist hclen : Nat} {codes : List Nat} {runs : List Lengths} {bits : List Bool}
      (hhlit : hlit < 2 ^ 5) (hliterals : literals.length = hlit + 257)
      (hhdist : hdist < 2 ^ 5) (hdistances : distances.length = hdist + 1)
      (hhclen : hclen < 2 ^ 4) (hcodes : codes.length = 19) (hsmall : ∀ l ∈ codes, l < 2 ^ 3)
      (hrest : ∀ i ∈ codeOrder.drop (hclen + 4), codes[i]? = some 0)
      (htable : IsTable codes) (hruns : Sequence (LengthsBits codes) runs bits)
      (hunroll : unroll runs [] = some (literals ++ distances)) :
      CodesBits literals distances (lsb 5 hlit ++ (lsb 5 hdist ++ (lsb 4 hclen ++
        ((codeOrder.take (hclen + 4)).flatMap (fun i => lsb 3 (codes.getD i 0)) ++ bits))))

/-! ### Blocks and streams -/

/-- The lengths of the fixed codes. -/
def fixedLiterals : List Nat :=
  List.replicate 144 8 ++ List.replicate 112 9 ++ List.replicate 24 7 ++ List.replicate 8 8

def fixedDistances : List Nat := List.replicate 32 5

/-- `BlockBits position before kind bits after`: after the bytes `before`, a block of
    this kind is written in these bits, the first of which is at this position. -/
inductive BlockBits (position : Nat) (before : List UInt8) : Nat → List Bool → List UInt8 → Prop
  | stored {pad : List Bool} {data : List UInt8} (hpad : pad.length < 8)
      (haligned : (position + pad.length) % 8 = 0) (hdata : data.length < 2 ^ 16) :
      BlockBits position before 0
        (pad ++ (lsb 16 data.length ++ (lsb 16 (65535 - data.length) ++ ofBytes data)))
        (before ++ data)
  | fixed {tokens : List Token} {bits : List Bool} {after : List UInt8}
      (htokens : TokensBits fixedLiterals fixedDistances tokens bits)
      (hexpand : expand tokens before = some after) : BlockBits position before 1 bits after
  | dynamic {literals distances : List Nat} {tokens : List Token} {header bits : List Bool}
      {after : List UInt8} (hcodes : CodesBits literals distances header)
      (hliterals : IsTable literals) (hdistances : IsTable distances)
      (htokens : TokensBits literals distances tokens bits)
      (hexpand : expand tokens before = some after) :
      BlockBits position before 2 (header ++ bits) after

/-- `Stream position before bits after`: the bits from this position on are the rest
    of a stream, and what it stands for is `after`. -/
inductive Stream : Nat → List UInt8 → List Bool → List UInt8 → Prop
  | last {position kind : Nat} {before after : List UInt8} {bits : List Bool}
      (hblock : BlockBits (position + 3) before kind bits after) :
      Stream position before (true :: (lsb 2 kind ++ bits)) after
  | more {position kind : Nat} {before middle after : List UInt8} {bits rest : List Bool}
      (hblock : BlockBits (position + 3) before kind bits middle)
      (hrest : Stream (position + 3 + bits.length) middle rest after) :
      Stream position before (false :: (lsb 2 kind ++ (bits ++ rest))) after

/-! ### What is written only grows -/

theorem length_le_of_expand {tokens : List Token} {out after : List UInt8}
    (h : expand tokens out = some after) : out.length ≤ after.length := by
  induction tokens generalizing out with
  | nil =>
    cases h
    exact Nat.le_refl _
  | cons token tokens ih =>
    cases token with
    | literal byte =>
      have hle := ih h
      rw [List.length_append] at hle
      exact Nat.le_trans (Nat.le_add_right _ _) hle
    | reference length distance =>
      rw [expand] at h
      split_ifs at h with hdistance
      have hle := ih h
      rw [List.length_append] at hle
      exact Nat.le_trans (Nat.le_add_right _ _) hle

theorem BlockBits.length_le {position kind : Nat} {before after : List UInt8} {bits : List Bool}
    (h : BlockBits position before kind bits after) : before.length ≤ after.length := by
  cases h with
  | stored hpad haligned hdata =>
    rw [List.length_append]
    exact Nat.le_add_right _ _
  | fixed htokens hexpand => exact length_le_of_expand hexpand
  | dynamic hcodes hliterals hdistances htokens hexpand => exact length_le_of_expand hexpand

theorem Stream.length_le {position : Nat} {before after : List UInt8} {bits : List Bool}
    (h : Stream position before bits after) : before.length ≤ after.length := by
  induction h with
  | last hblock => exact hblock.length_le
  | more hblock _ ih => exact Nat.le_trans hblock.length_le ih

/-! ### Stored streams -/

/-- A number of two bytes, the low one first. -/
def le16 (n : Nat) : List UInt8 := [UInt8.ofNat n, UInt8.ofNat (n / 256)]

/-- Bytes as a stored block that begins with a byte of its own. -/
def storedBlock (final : UInt8) (data : List UInt8) : List UInt8 :=
  final :: (le16 data.length ++ (le16 (65535 - data.length) ++ data))

/-- Nothing but stored blocks. -/
def storedStream : List (List UInt8) → List UInt8
  | [] => []
  | [data] => storedBlock 1 data
  | data :: next :: blocks => storedBlock 0 data ++ storedStream (next :: blocks)

theorem ofBytes_storedBlock (final : UInt8) (data : List UInt8) :
    ofBytes (storedBlock final data) = ofByte final ++
      (lsb 16 data.length ++ (lsb 16 (65535 - data.length) ++ ofBytes data)) := by
  rw [storedBlock, ofBytes_cons, ofBytes_append, ofBytes_append, le16, le16, ← lsb_sixteen,
    ← lsb_sixteen]

/-- After the three bits of its header the rest of the byte is skipped. -/
theorem blockBits_stored {data : List UInt8} (hdata : data.length < 2 ^ 16) (k : Nat)
    (before : List UInt8) :
    BlockBits (8 * k + 3) before 0 (List.replicate 5 false ++
      (lsb 16 data.length ++ (lsb 16 (65535 - data.length) ++ ofBytes data))) (before ++ data) := by
  have hpad : (List.replicate 5 false).length = 5 := List.length_replicate
  exact .stored (by rw [hpad]; decide) (by rw [hpad]; omega) hdata

/-- **A stored stream is a stream**, and stands for the bytes in its blocks. -/
theorem stream_storedStream {blocks : List (List UInt8)} (hne : blocks ≠ [])
    (hshort : ∀ data ∈ blocks, data.length < 2 ^ 16) (k : Nat) (before : List UInt8) :
    Stream (8 * k) before (ofBytes (storedStream blocks)) (before ++ blocks.flatten) := by
  induction blocks generalizing k before with
  | nil => exact absurd rfl hne
  | cons data blocks ih =>
    rw [List.forall_mem_cons] at hshort
    have hblock := blockBits_stored hshort.1 k before
    cases blocks with
    | nil =>
      have hlast := Stream.last hblock
      rwa [storedStream, ofBytes_storedBlock, List.flatten_cons, List.flatten_nil, List.append_nil]
    | cons next blocks =>
      have hlen : 8 * k + 3 + (List.replicate 5 false ++ (lsb 16 data.length ++
          (lsb 16 (65535 - data.length) ++ ofBytes data))).length =
            8 * (k + (5 + data.length)) := by
        simp only [List.length_append, List.length_replicate, length_lsb, length_ofBytes]
        omega
      have hrest := ih (List.cons_ne_nil _ _) hshort.2 (k + (5 + data.length)) (before ++ data)
      rw [← hlen] at hrest
      have hmore := Stream.more hblock hrest
      have hzero : ofByte 0 = false :: (lsb 2 0 ++ List.replicate 5 false) := rfl
      rw [storedStream, ofBytes_append, ofBytes_storedBlock, List.flatten_cons, ← List.append_assoc,
        hzero]
      simpa only [List.append_assoc, List.cons_append] using hmore

end AiDaemon.Deflate
