import AiDaemon.Checked
import AiDaemon.Text

/-!
# Inflating

The DEFLATE half of the picture reader, as it runs: a position in bits, tables
of counts and symbols filled by index, numbers of fixed width.  A table lookup
that misses, and a number that does not fit its type, end the run with `panic`;
a loop that would go on for longer than there are bits ends it with `spin`.
-/

namespace AiDaemon.Inflate

open Checked

abbrev Result (α : Type) := Run Text α

/-! ### Bits -/

/-- `Bits::bit`: the bit, and the next position. -/
def bit (bytes : List UInt8) (position : Nat) : Result (Nat × Nat) :=
  match bytes[position >>> 3]? with
  | none => fail "deflate stream ended early".toList
  | some byte => do
    let next ← fits 64 (position + 1)
    return ((byte.toNat >>> (position &&& 7)) &&& 1, next)

/-- `bit << index` in 32 bits. -/
def shl32 (n k : Nat) : Result Nat := if k < 32 then .ok (n <<< k % 2 ^ 32) else .error .panic

/-- The loop of `Bits::bits`. -/
def bitsLoop (bytes : List UInt8) : Nat → Nat → Nat → Nat → Result (Nat × Nat)
  | 0, _, value, position => return (value, position)
  | remaining + 1, index, value, position => do
    let (b, position) ← bit bytes position
    let shifted ← shl32 b index
    bitsLoop bytes remaining (index + 1) (value ||| shifted) position

/-- `Bits::bits`. -/
def bits (bytes : List UInt8) (count position : Nat) : Result (Nat × Nat) :=
  bitsLoop bytes count 0 0 position

/-- `Bits::align`: the low three bits are cleared. -/
def align (position : Nat) : Result Nat := do
  let raised ← fits 64 (position + 7)
  return raised / 8 * 8

/-! ### Codes -/

structure Huffman where
  counts : List Nat
  symbols : List Nat
deriving DecidableEq, Repr

/-- `counts[length as usize] += 1` for every length. -/
def countLengths : List Nat → List Nat → Result (List Nat)
  | [], counts => return counts
  | length :: lengths, counts => do
    let n ← get counts length
    let n ← fits 16 (n + 1)
    let counts ← put counts length n
    countLengths lengths counts

/-- `offsets[index] = offsets[index - 1] + counts[index - 1]`. -/
def sumCounts (counts : List Nat) : List Nat → List Nat → Result (List Nat)
  | [], offsets => return offsets
  | index :: indices, offsets => do
    let offset ← get offsets (index - 1)
    let n ← get counts (index - 1)
    let offset ← fits 16 (offset + n)
    let offsets ← put offsets index offset
    sumCounts counts indices offsets

/-- The symbols with a length, each at the next free place of its length. -/
def placeSymbols : List Nat → Nat → List Nat → List Nat → Result (List Nat)
  | [], _, _, symbols => return symbols
  | length :: lengths, symbol, offsets, symbols =>
    if length ≠ 0 then do
      let offset ← get offsets length
      let symbols ← put symbols offset (symbol % 2 ^ 16)
      let next ← fits 16 (offset + 1)
      let offsets ← put offsets length next
      placeSymbols lengths (symbol + 1) offsets symbols
    else placeSymbols lengths (symbol + 1) offsets symbols

/-- `Huffman::new`. -/
def Huffman.new (lengths : List Nat) : Result Huffman := do
  let counts ← countLengths lengths (List.replicate 16 0)
  let counts ← put counts 0 0
  let offsets ← sumCounts counts (List.range' 1 15) (List.replicate 16 0)
  let symbols ← placeSymbols lengths 0 offsets (List.replicate lengths.length 0)
  return ⟨counts, symbols⟩

/-- The loop of `Huffman::decode`.  Of its `i32`s only the difference of two may
    be negative. -/
def Huffman.decodeLoop (huffman : Huffman) (bytes : List UInt8) :
    List Nat → Nat → Nat → Nat → Nat → Result (Nat × Nat)
  | [], _, _, _, _ => fail "invalid Huffman code".toList
  | length :: lengths, code, first, index, position => do
    let (b, position) ← bit bytes position
    let code ← fits 31 (code ||| b)
    let count ← get huffman.counts length
    if (code : Int) - first < count then
      let place : Int := index + ((code : Int) - first)
      if 0 ≤ place then do
        let symbol ← get huffman.symbols place.toNat
        return (symbol, position)
      else .error .panic
    else do
      let index ← fits 31 (index + count)
      let sum ← fits 31 (first + count)
      let first ← fits 31 (sum <<< 1)
      let code ← fits 31 (code <<< 1)
      huffman.decodeLoop bytes lengths code first index position

/-- `Huffman::decode`. -/
def Huffman.decode (huffman : Huffman) (bytes : List UInt8) (position : Nat) : Result (Nat × Nat) :=
  huffman.decodeLoop bytes (List.range' 1 15) 0 0 0 position

/-! ### Blocks -/

/-- `LENGTH_BASE` -/
def lengthBase : List Nat :=
  [3, 4, 5, 6, 7, 8, 9, 10, 11, 13, 15, 17, 19, 23, 27, 31, 35, 43, 51, 59, 67, 83, 99, 115,
    131, 163, 195, 227, 258]

/-- `LENGTH_EXTRA` -/
def lengthExtra : List Nat :=
  [0, 0, 0, 0, 0, 0, 0, 0, 1, 1, 1, 1, 2, 2, 2, 2, 3, 3, 3, 3, 4, 4, 4, 4, 5, 5, 5, 5, 0]

/-- `DISTANCE_BASE` -/
def distanceBase : List Nat :=
  [1, 2, 3, 4, 5, 7, 9, 13, 17, 25, 33, 49, 65, 97, 129, 193, 257, 385, 513, 769, 1025, 1537,
    2049, 3073, 4097, 6145, 8193, 12289, 16385, 24577]

/-- `DISTANCE_EXTRA` -/
def distanceExtra : List Nat :=
  [0, 0, 0, 0, 1, 1, 2, 2, 3, 3, 4, 4, 5, 5, 6, 6, 7, 7, 8, 8, 9, 9, 10, 10, 11, 11, 12, 12, 13, 13]

/-- Byte by byte, so that what is copied may have been copied just before. -/
def copyLoop (start : Nat) : Nat → Nat → List UInt8 → Result (List UInt8)
  | 0, _, out => return out
  | remaining + 1, offset, out => do
    let byte ← get out (start + offset)
    copyLoop start remaining (offset + 1) (out ++ [byte])

/-- A length, a distance, and the copy. -/
def backReference (bytes : List UInt8) (distances : Huffman) (symbol position : Nat)
    (out : List UInt8) : Result (Nat × List UInt8) := do
  let index ← minus symbol 257
  let base ← get lengthBase index
  let extra ← get lengthExtra index
  let (n, position) ← bits bytes extra position
  let length ← fits 64 (base + n)
  let (distanceSymbol, position) ← distances.decode bytes position
  if distanceSymbol ≥ distanceBase.length then fail "bad distance symbol".toList
  else do
    let base ← get distanceBase distanceSymbol
    let extra ← get distanceExtra distanceSymbol
    let (n, position) ← bits bytes extra position
    let distance ← fits 64 (base + n)
    if distance > out.length then fail "back-reference before the start of the stream".toList
    else do
      let start ← minus out.length distance
      let out ← copyLoop start length 0 out
      return (position, out)

def badSymbolText (symbol : Nat) : Text := "bad literal/length symbol ".toList ++ Text.ofNat symbol

/-- The loop of `block`. -/
def blockLoop (bytes : List UInt8) (literals distances : Huffman) (maxOutput : Nat) :
    Nat → Nat → List UInt8 → Result (Nat × List UInt8)
  | 0, _, _ => .error .spin
  | fuel + 1, position, out =>
    if out.length > maxOutput then fail "decoded output exceeded the caller's limit".toList
    else do
      let (symbol, position) ← literals.decode bytes position
      if symbol ≤ 255 then
        blockLoop bytes literals distances maxOutput fuel position (out ++ [UInt8.ofNat symbol])
      else if symbol = 256 then return (position, out)
      else if symbol ≤ 285 then do
        let (position, out) ← backReference bytes distances symbol position out
        blockLoop bytes literals distances maxOutput fuel position out
      else fail (badSymbolText symbol)

/-- `block`: every turn of its loop reads a bit. -/
def block (bytes : List UInt8) (literals distances : Huffman) (maxOutput position : Nat)
    (out : List UInt8) : Result (Nat × List UInt8) :=
  blockLoop bytes literals distances maxOutput (8 * bytes.length + 1) position out

/-- `u16::from_le_bytes` of the two bytes at an index. -/
def le16 (bytes : List UInt8) (index : Nat) : Result Nat := do
  let low ← get bytes index
  let high ← get bytes (index + 1)
  return low.toNat + 256 * high.toNat

def storedBlock (bytes : List UInt8) (position : Nat) (out : List UInt8) :
    Result (Nat × List UInt8) := do
  let position ← align position
  let start := position >>> 3
  let header ← fits 64 (start + 4)
  if header > bytes.length then fail "truncated stored block".toList
  else do
    let len ← le16 bytes start
    let nlen ← le16 bytes (start + 2)
    if len ≠ 65535 - nlen then fail "stored block length check failed".toList
    else if 2 ^ 64 ≤ header + len then fail "stored block overflow".toList
    else if header + len > bytes.length then fail "truncated stored block".toList
    else do
      let data ← slice bytes header (header + len)
      let next ← fits 64 ((header + len) <<< 3)
      return (next, out ++ data)

/-- The lengths of the fixed code. -/
def fixedLengths : List Nat :=
  (List.range 288).map fun symbol =>
    if symbol ≤ 143 then 8 else if symbol ≤ 255 then 9 else if symbol ≤ 279 then 7 else 8

def fixedBlock (bytes : List UInt8) (maxOutput position : Nat) (out : List UInt8) :
    Result (Nat × List UInt8) := do
  let literals ← Huffman.new fixedLengths
  let distances ← Huffman.new (List.replicate 30 5)
  block bytes literals distances maxOutput position out

/-- `ORDER` -/
def order : List Nat := [16, 17, 18, 0, 8, 7, 9, 6, 10, 5, 11, 4, 12, 3, 13, 2, 14, 1, 15]

/-- The lengths of the code for code lengths, three bits each. -/
def codeLengths (bytes : List UInt8) : List Nat → Nat → List Nat → Result (List Nat × Nat)
  | [], position, lengths => return (lengths, position)
  | index :: indices, position, lengths => do
    let (n, position) ← bits bytes 3 position
    let lengths ← put lengths index n
    codeLengths bytes indices position lengths

def overrunText : Text := "code length overrun".toList

/-- The previous length again. -/
def repeatLength (previous : Nat) : Nat → Nat → List Nat → Result (Nat × List Nat)
  | 0, index, lengths => return (index, lengths)
  | remaining + 1, index, lengths =>
    if index ≥ lengths.length then fail overrunText
    else do
      let lengths ← put lengths index previous
      let index ← fits 64 (index + 1)
      repeatLength previous remaining index lengths

def badLengthText (symbol : Nat) : Text := "bad code length symbol ".toList ++ Text.ofNat symbol

/-- One code length symbol. -/
def lengthStep (bytes : List UInt8) (symbol position index : Nat) (lengths : List Nat) :
    Result (Nat × Nat × List Nat) :=
  if symbol ≤ 15 then do
    let lengths ← put lengths index symbol
    let index ← fits 64 (index + 1)
    return (position, index, lengths)
  else if symbol = 16 then
    if index = 0 then fail "repeat with nothing to repeat".toList
    else do
      let last ← minus index 1
      let previous ← get lengths last
      let (n, position) ← bits bytes 2 position
      let (index, lengths) ← repeatLength previous (3 + n) index lengths
      return (position, index, lengths)
  else if symbol = 17 then do
    let (n, position) ← bits bytes 3 position
    let index ← fits 64 (index + (3 + n))
    return (position, index, lengths)
  else if symbol = 18 then do
    let (n, position) ← bits bytes 7 position
    let index ← fits 64 (index + (11 + n))
    return (position, index, lengths)
  else fail (badLengthText symbol)

/-- The loop that reads the code lengths: every turn fills at least one. -/
def lengthsLoop (bytes : List UInt8) (huffman : Huffman) :
    Nat → Nat → Nat → List Nat → Result (Nat × Nat × List Nat)
  | 0, _, _, _ => .error .spin
  | fuel + 1, position, index, lengths =>
    if index < lengths.length then do
      let (symbol, position) ← huffman.decode bytes position
      let (position, index, lengths) ← lengthStep bytes symbol position index lengths
      lengthsLoop bytes huffman fuel position index lengths
    else return (position, index, lengths)

def dynamicBlock (bytes : List UInt8) (maxOutput position : Nat) (out : List UInt8) :
    Result (Nat × List UInt8) := do
  let (n, position) ← bits bytes 5 position
  let hlit := n + 257
  let (n, position) ← bits bytes 5 position
  let hdist := n + 1
  let (n, position) ← bits bytes 4 position
  let hclen := n + 4
  let (codes, position) ← codeLengths bytes (order.take hclen) position (List.replicate 19 0)
  let huffman ← Huffman.new codes
  let (position, index, lengths) ←
    lengthsLoop bytes huffman (hlit + hdist + 1) position 0 (List.replicate (hlit + hdist) 0)
  if index > lengths.length then fail overrunText
  else do
    let literals ← slice lengths 0 hlit
    let literals ← Huffman.new literals
    let distances ← slice lengths hlit lengths.length
    let distances ← Huffman.new distances
    block bytes literals distances maxOutput position out

/-- What the two bits of a block's kind ask for. -/
def anyBlock (bytes : List UInt8) (maxOutput kind position : Nat) (out : List UInt8) :
    Result (Nat × List UInt8) :=
  if kind = 0 then storedBlock bytes position out
  else if kind = 1 then fixedBlock bytes maxOutput position out
  else if kind = 2 then dynamicBlock bytes maxOutput position out
  else fail "reserved deflate block type".toList

/-- The loop of `inflate`. -/
def inflateLoop (bytes : List UInt8) (maxOutput : Nat) :
    Nat → Nat → List UInt8 → Result (List UInt8)
  | 0, _, _ => .error .spin
  | fuel + 1, position, out => do
    let (final, position) ← bit bytes position
    let (kind, position) ← bits bytes 2 position
    let (position, out) ← anyBlock bytes maxOutput kind position out
    if final = 1 then return out else inflateLoop bytes maxOutput fuel position out

/-- `inflate`: every block has a bit. -/
def inflate (bytes : List UInt8) (maxOutput : Nat) : Result (List UInt8) :=
  inflateLoop bytes maxOutput (8 * bytes.length + 1) 0 []

/-- `zlib` -/
def zlib (bytes : List UInt8) (maxOutput : Nat) : Result (List UInt8) :=
  if bytes.length < 2 then fail "no zlib stream".toList
  else do
    let cmf ← get bytes 0
    let flags ← get bytes 1
    if cmf.toNat &&& 0x0f ≠ 8 then fail "not a deflate stream".toList
    else do
      let check ← fits 16 (cmf.toNat * 256 + flags.toNat)
      if check % 31 ≠ 0 then fail "bad zlib header check".toList
      else if flags.toNat &&& 0x20 ≠ 0 then fail "preset dictionaries are not supported".toList
      else do
        let rest ← slice bytes 2 bytes.length
        inflate rest maxOutput

end AiDaemon.Inflate
