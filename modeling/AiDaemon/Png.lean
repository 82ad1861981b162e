import AiDaemon.Inflate

/-!
# Reading a picture

The PNG reader, as it runs: the chunks of a file, the header, the inflated rows
and their filters.  A product or a sum that a `u64` cannot hold ends the run
with `panic`, as it does where overflow is checked; a release build goes on with
what is left of it.
-/

namespace AiDaemon.Png

open Checked
open Inflate (Result)

/-- What a decoder hands back. -/
structure Decoded where
  w : Option Nat
  h : Option Nat
  fmt : Option Text
  rate : Option Nat
  data : List UInt8
deriving DecidableEq, Repr

structure Header where
  width : Nat
  height : Nat
  colour : UInt8
deriving DecidableEq, Repr

def Header.channels (header : Header) : Nat := if header.colour = 6 then 4 else 3

/-- `MAGIC` -/
def magic : List UInt8 := [0x89, 0x50, 0x4e, 0x47, 0x0d, 0x0a, 0x1a, 0x0a]

/-- `b"IHDR"` -/
def ihdr : List UInt8 := [0x49, 0x48, 0x44, 0x52]

/-- `b"IDAT"` -/
def idat : List UInt8 := [0x49, 0x44, 0x41, 0x54]

/-- `b"IEND"` -/
def iend : List UInt8 := [0x49, 0x45, 0x4e, 0x44]

/-- `be32` -/
def be32 (bytes : List UInt8) : Result Nat :=
  if bytes.length < 4 then fail "truncated integer".toList
  else do
    let a ← get bytes 0
    let b ← get bytes 1
    let c ← get bytes 2
    let d ← get bytes 3
    return ((a.toNat * 256 + b.toNat) * 256 + c.toNat) * 256 + d.toNat

def depthText (depth : Nat) : Text :=
  "only 8-bit PNG is accepted, got ".toList ++ Text.ofNat depth ++ "-bit".toList

/-- `Header::parse` -/
def Header.parse (bytes : List UInt8) : Result Header :=
  if bytes.length < 13 then fail "short IHDR".toList
  else do
    let width ← be32 bytes
    let rest ← slice bytes 4 bytes.length
    let height ← be32 rest
    let depth ← get bytes 8
    let colour ← get bytes 9
    let interlace ← get bytes 12
    if width = 0 ∨ height = 0 then fail "zero-sized image".toList
    else if depth ≠ 8 then fail (depthText depth.toNat)
    else if interlace ≠ 0 then fail "interlaced PNG is not accepted".toList
    else if colour ≠ 2 ∧ colour ≠ 6 then
      fail "only truecolour PNG (with or without alpha) is accepted".toList
    else return ⟨width, height, colour⟩

/-- The loop over the chunks: the header and the data so far. -/
def scanLoop (bytes : List UInt8) :
    Nat → Nat → Option Header → List UInt8 → Result (Option Header × List UInt8)
  | 0, _, _, _ => .error .spin
  | fuel + 1, offset, header, data => do
    let start ← fits 64 (offset + 8)
    if start ≤ bytes.length then do
      let rest ← slice bytes offset bytes.length
      let len ← be32 rest
      let kind ← slice bytes (offset + 4) start
      if 2 ^ 64 ≤ start + len then fail "chunk length overflow".toList
      else do
        let stop := start + len
        let after ← fits 64 (stop + 4)
        if after > bytes.length then fail "truncated chunk".toList
        else if kind = ihdr then do
          let payload ← slice bytes start stop
          let header ← Header.parse payload
          scanLoop bytes fuel after (some header) data
        else if kind = idat then do
          let payload ← slice bytes start stop
          scanLoop bytes fuel after header (data ++ payload)
        else if kind = iend then return (header, data)
        else scanLoop bytes fuel after header data
    else return (header, data)

/-- Every chunk has a length, a kind and a checksum. -/
def scan (bytes : List UInt8) : Result (Option Header × List UInt8) :=
  scanLoop bytes (bytes.length + 1) 8 none []

/-! ### Rows -/

/-- `paeth` -/
def paeth (a b c : UInt8) : UInt8 :=
  let p : Int := a.toNat + b.toNat - c.toNat
  let pa := (p - a.toNat).natAbs
  let pb := (p - b.toNat).natAbs
  let pc := (p - c.toNat).natAbs
  if pa ≤ pb ∧ pa ≤ pc then a else if pb ≤ pc then b else c

def filterText (filter : Nat) : Text := "unknown row filter ".toList ++ Text.ofNat filter

/-- The byte that a filtered byte stands for beside `a`, below `b`, and below and
    beside `c`. -/
def restore (filter x a b c : UInt8) : Result UInt8 :=
  if filter = 0 then .ok x
  else if filter = 1 then .ok (x + a)
  else if filter = 2 then .ok (x + b)
  else if filter = 3 then .ok (x + UInt8.ofNat ((a.toNat + b.toNat) / 2))
  else if filter = 4 then .ok (x + paeth a b c)
  else fail (filterText filter.toNat)

/-- `previous.map(|p| p[i]).unwrap_or(0)` -/
def above (previous : Option (List UInt8)) (i : Nat) : Result UInt8 :=
  match previous with
  | some row => get row i
  | none => .ok 0

/-- `if i >= channels { at(i - channels) } else { 0 }` -/
def beside (channels i : Nat) (row : Nat → Result UInt8) : Result UInt8 :=
  if i ≥ channels then row (i - channels) else .ok 0

/-- The loop over the bytes of a row. -/
def rowLoop (filter : UInt8) (channels : Nat) (src : List UInt8) (previous : Option (List UInt8)) :
    List Nat → List UInt8 → Result (List UInt8)
  | [], current => return current
  | i :: indices, current => do
    let a ← beside channels i (get current)
    let b ← above previous i
    let c ← beside channels i (above previous)
    let x ← get src i
    let byte ← restore filter x a b c
    let current ← put current i byte
    rowLoop filter channels src previous indices current

/-- The row before this one, of the rows so far. -/
def previousRow (stride row : Nat) (before : List UInt8) : Result (Option (List UInt8)) :=
  if row = 0 then return none
  else do
    let previous ← slice before ((row - 1) * stride) before.length
    return some previous

/-- One row of the picture. -/
def unfilterRow (raw : List UInt8) (stride channels row : Nat) (out : List UInt8) :
    Result (List UInt8) := do
  let place ← fits 64 (row * (stride + 1))
  let filter ← get raw place
  let src ← slice raw (place + 1) (place + 1 + stride)
  let start ← fits 64 (row * stride)
  let before ← slice out 0 start
  let tail ← slice out start out.length
  let previous ← previousRow stride row before
  let current ← slice tail 0 stride
  let current ← rowLoop filter channels src previous (List.range stride) current
  return before ++ current ++ tail.drop stride

/-- The loop over the rows. -/
def rowsLoop (raw : List UInt8) (stride channels : Nat) : List Nat → List UInt8 → Result
    (List UInt8)
  | [], out => return out
  | row :: rows, out => do
    let out ← unfilterRow raw stride channels row out
    rowsLoop raw stride channels rows out

def shortText (expected got : Nat) : Text :=
  "expected ".toList ++ Text.ofNat expected ++ " filtered bytes, got ".toList ++ Text.ofNat got

def unfilter (raw : List UInt8) (header : Header) (channels : Nat) : Result (List UInt8) := do
  let stride ← fits 64 (header.width * channels)
  let line ← fits 64 (stride + 1)
  let expected ← fits 64 (line * header.height)
  if raw.length < expected then fail (shortText expected raw.length)
  else do
    let size ← fits 64 (stride * header.height)
    rowsLoop raw stride channels (List.range header.height) (List.replicate size 0)

def limitText (outputLen : Nat) : Text :=
  "decoded size ".toList ++ Text.ofNat outputLen ++ " exceeds the caller's limit".toList

def rgb8 : Text := "rgb8".toList

def rgba8 : Text := "rgba8".toList

/-- What `decode` does with the header and the data of a file. -/
def render (header : Header) (data : List UInt8) (maxOutput : Nat) : Result Decoded := do
  let channels := header.channels
  let pixels ← fits 64 (header.width * header.height)
  let outputLen ← fits 64 (pixels * channels)
  if outputLen > maxOutput then fail (limitText outputLen)
  else do
    let slack ← fits 64 (header.height * 2)
    let limit ← fits 64 (outputLen + slack)
    let raw ← Inflate.zlib data limit
    let data ← unfilter raw header channels
    return ⟨some header.width, some header.height, some (if channels = 4 then rgba8 else rgb8),
    none,
      data⟩

/-- `png::decode` -/
def decode (bytes : List UInt8) (maxOutput : Nat) : Result Decoded :=
  if bytes.length < 8 ∨ bytes.take 8 ≠ magic then fail "not a PNG".toList
  else do
    let (header, data) ← scan bytes
    match header with
    | none => fail "no IHDR".toList
    | some header => render header data maxOutput

end AiDaemon.Png
