import AiDaemon.ByteStream
import AiDaemon.InflateSafe
import AiDaemon.Png

/-!
# Reading a sound (`wav::decode`)

The WAVE reader, as it runs: a walk over the chunks of a RIFF file, which keeps
the last format and the last data it meets, and the samples made of them.  The
sizes are the file's to choose.  A chunk that claims more than there is ends where
the file does, and one of odd size is followed by a byte of padding, which may lie
past the end.

`riffChunks` says what the chunks of a file are, without positions.  The walk does
not go wrong and keeps the last of each kind (`safe_scan`), and what is returned
is four bytes for every group of samples (`decode_sized`).

What an `f32` is does not matter to any of this, so it is a parameter.
-/

namespace AiDaemon.Wav

open Checked
open ByteStream (chunks)
open Inflate (Result le16 safe_le16)
open Png (Decoded limitText)

/-! ### The source -/

/-- The conversions and the arithmetic of `f32`. `ofI16` is `i16::from_le_bytes`
    over 32768. -/
structure F32 (F : Type) where
  ofI16 : UInt8 → UInt8 → F
  ofLeBytes : UInt8 → UInt8 → UInt8 → UInt8 → F
  sum : List F → F
  ofNat : Nat → F
  div : F → F → F
  toLeBytes : F → UInt8 × UInt8 × UInt8 × UInt8

structure Format where
  tag : Nat
  channels : Nat
  rate : Nat
  depth : Nat
deriving DecidableEq, Repr

/-- `b"RIFF"` -/
def riff : List UInt8 := [0x52, 0x49, 0x46, 0x46]

/-- `b"WAVE"` -/
def wave : List UInt8 := [0x57, 0x41, 0x56, 0x45]

/-- `b"fmt "` -/
def fmtId : List UInt8 := [0x66, 0x6d, 0x74, 0x20]

/-- `b"data"` -/
def dataId : List UInt8 := [0x64, 0x61, 0x74, 0x61]

/-- `u32::from_le_bytes` of the four bytes at an index. -/
def le32 (bytes : List UInt8) (index : Nat) : Result Nat := do
  let low ← le16 bytes index
  let high ← le16 bytes (index + 2)
  return low + 65536 * high

def readFormat (chunk : List UInt8) : Result Format := do
  let tag ← le16 chunk 0
  let channels ← le16 chunk 2
  let rate ← le32 chunk 4
  let depth ← le16 chunk 14
  return ⟨tag, channels, rate, depth⟩

/-- The chunk `id` from `start` to `stop`. -/
def chunkStep (bytes id : List UInt8) (start stop : Nat) (format : Option Format)
    (data : Option (List UInt8)) : Result (Option Format × Option (List UInt8)) :=
  if id = fmtId then do
    let size ← minus stop start
    if size < 16 then fail "short fmt chunk".toList
    else do
      let chunk ← slice bytes start stop
      let format ← readFormat chunk
      return (some format, data)
  else if id = dataId then do
    let payload ← slice bytes start stop
    return (format, some payload)
  else return (format, data)

/-- The loop over the chunks: the format and the data so far. -/
def scanLoop (bytes : List UInt8) :
    Nat → Nat → Option Format → Option (List UInt8) → Result (Option Format × Option (List UInt8))
  | 0, _, _, _ => .error .spin
  | fuel + 1, offset, format, data => do
    let start ← fits 64 (offset + 8)
    if start ≤ bytes.length then do
      let id ← slice bytes offset (offset + 4)
      let size ← le32 bytes (offset + 4)
      if 2 ^ 64 ≤ start + size then fail "chunk overflow".toList
      else do
        let stop := min (start + size) bytes.length
        let (format, data) ← chunkStep bytes id start stop format data
        let next ← fits 64 (stop + (size &&& 1))
        scanLoop bytes fuel next format data
    else return (format, data)

/-- Every chunk has an id and a size. -/
def scan (bytes : List UInt8) : Result (Option Format × Option (List UInt8)) :=
  scanLoop bytes (bytes.length + 1) 12 none none

section Samples

variable {F : Type} (f32 : F32 F)

/-- `chunks_exact(2)`, each a sample. -/
def samples16 : List UInt8 → List F
  | a :: b :: rest => f32.ofI16 a b :: samples16 rest
  | _ => []

/-- `chunks_exact(4)`, each a sample. -/
def samples32 : List UInt8 → List F
  | a :: b :: c :: d :: rest => f32.ofLeBytes a b c d :: samples32 rest
  | _ => []

def formatText (tag depth : Nat) : Text :=
  "unsupported WAVE format tag ".toList ++ Text.ofNat tag ++ " at ".toList ++ Text.ofNat depth ++
    "-bit".toList

def samplesOf (format : Format) (data : List UInt8) : Result (List F) :=
  if format.tag = 1 ∧ format.depth = 16 then return samples16 f32 data
  else if format.tag = 3 ∧ format.depth = 32 then return samples32 f32 data
  else fail (formatText format.tag format.depth)

/-- The average of the channels of a frame. -/
def average (channels : Nat) (frame : List F) : F := f32.div (f32.sum frame) (f32.ofNat channels)

def downmix (channels : Nat) (hchannels : 0 < channels) (samples : List F) : List F :=
  if channels = 1 then samples
  else (chunks channels hchannels samples).map (average f32 channels)

def rawBytes (mono : List F) : List UInt8 :=
  mono.flatMap fun sample =>
    [(f32.toLeBytes sample).1, (f32.toLeBytes sample).2.1, (f32.toLeBytes sample).2.2.1,
      (f32.toLeBytes sample).2.2.2]

/-- What `decode` does with the format and the data of a file. -/
def render (format : Format) (data : List UInt8) (maxOutput : Nat) : Result Decoded := do
  let channels := max format.channels 1
  let samples ← samplesOf f32 format data
  let mono := downmix f32 channels (Nat.lt_of_lt_of_le Nat.one_pos (Nat.le_max_right _ _)) samples
  let outLen ← fits 64 (mono.length * 4)
  if outLen > maxOutput then fail (limitText outLen)
  else return ⟨none, none, none, some format.rate, rawBytes f32 mono⟩

/-- `wav::decode` -/
def decode (bytes : List UInt8) (maxOutput : Nat) : Result Decoded :=
  if bytes.length < 12 ∨ bytes.take 4 ≠ riff ∨ (bytes.drop 8).take 4 ≠ wave then
    fail "not a RIFF/WAVE file".toList
  else do
    let (format, data) ← scan bytes
    match format with
    | none => fail "no fmt chunk".toList
    | some format =>
      match data with
      | none => fail "no data chunk".toList
      | some data => render f32 format data maxOutput

end Samples

/-! ### What a file holds -/

structure Chunk where
  id : List UInt8
  payload : List UInt8

/-- The size of the chunk that starts a text. -/
def chunkSize : List UInt8 → Nat
  | _ :: _ :: _ :: _ :: a :: b :: c :: d :: _ =>
    a.toNat + 256 * b.toNat + 65536 * (c.toNat + 256 * d.toNat)
  | _ => 0

/-- The chunks of a file after its first twelve bytes. -/
def riffChunks (rest : List UInt8) : List Chunk :=
  if rest.length < 8 then []
  else
    ⟨rest.take 4, (rest.drop 8).take (chunkSize rest)⟩ ::
      riffChunks (rest.drop (8 + chunkSize rest + chunkSize rest % 2))
termination_by rest.length
decreasing_by
  rw [List.length_drop]
  omega

/-- The payload of the last chunk with an id. -/
def lastOf (id : List UInt8) (found : List Chunk) : Option (List UInt8) :=
  (found.filter fun c => c.id = id).getLast?.map Chunk.payload

/-- The bytes of a sample, in the formats that are read. -/
def sampleWidth (format : Format) : Option Nat :=
  if format.tag = 1 ∧ format.depth = 16 then some 2
  else if format.tag = 3 ∧ format.depth = 32 then some 4
  else none

/-- A sound is as large as its last format and its last data make it, and within
    the limit. -/
def Sized (bytes : List UInt8) (maxOutput : Nat) (d : Decoded) : Prop :=
  ∃ fmt data format width,
    lastOf fmtId (riffChunks (bytes.drop 12)) = some fmt ∧ readFormat fmt = .ok format ∧
    lastOf dataId (riffChunks (bytes.drop 12)) = some data ∧ sampleWidth format = some width ∧
    d.data.length = 4 * ((data.length / width + max format.channels 1 - 1) / max format.channels 1) ∧
    d.data.length ≤ maxOutput

/-! ### Numbers -/

theorem le16_eq {bytes : List UInt8} {index : Nat} {low high : UInt8} (hlow : bytes[index]? = some low)
    (hhigh : bytes[index + 1]? = some high) :
    le16 bytes index = .ok (low.toNat + 256 * high.toNat) := by
  rw [le16, get_eq hlow, bind_ok, get_eq hhigh, bind_ok, pure_eq]

theorem exists_head_eight {rest : List UInt8} (h : 8 ≤ rest.length) :
    ∃ i j k l a b c d tail, rest = i :: j :: k :: l :: a :: b :: c :: d :: tail := by
  match rest, h with
  | i :: j :: k :: l :: a :: b :: c :: d :: tail, _ => exact ⟨i, j, k, l, a, b, c, d, tail, rfl⟩

/-- The size the walk reads is the size of the chunk. -/
theorem le32_chunkSize {bytes : List UInt8} {offset : Nat} (h : offset + 8 ≤ bytes.length) :
    le32 bytes (offset + 4) = .ok (chunkSize (bytes.drop offset)) := by
  have hlength : 8 ≤ (bytes.drop offset).length := by
    rw [List.length_drop]
    omega
  obtain ⟨i, j, k, l, a, b, c, d, tail, hrest⟩ := exists_head_eight hlength
  have hat : ∀ n, bytes[offset + n]? = (bytes.drop offset)[n]? := fun n => (List.getElem?_drop ..).symm
  have ha : bytes[offset + 4]? = some a := by rw [hat, hrest]; rfl
  have hb : bytes[offset + 4 + 1]? = some b := by rw [Nat.add_assoc, hat, hrest]; rfl
  have hc : bytes[offset + 4 + 2]? = some c := by rw [Nat.add_assoc, hat, hrest]; rfl
  have hd : bytes[offset + 4 + 2 + 1]? = some d := by rw [Nat.add_assoc, Nat.add_assoc, hat, hrest]; rfl
  rw [le32, le16_eq ha hb, bind_ok, le16_eq hc hd, bind_ok, pure_eq, hrest]
  rfl

theorem chunkSize_lt (rest : List UInt8) : chunkSize rest < 2 ^ 32 := by
  unfold chunkSize
  split
  · rename_i a b c d _
    have ha := a.toNat_lt
    have hb := b.toNat_lt
    have hc := c.toNat_lt
    have hd := d.toNat_lt
    omega
  · decide

theorem safe_le32 {bytes : List UInt8} {index : Nat} (h : index + 3 < bytes.length) :
    Safe (le32 bytes index) fun _ => True := by
  rw [le32]
  refine (safe_le16 (by omega)).bind fun _ _ => ?_
  exact (safe_le16 (by omega)).bind fun _ _ => safe_ok trivial

theorem safe_readFormat {chunk : List UInt8} (h : 16 ≤ chunk.length) :
    Safe (readFormat chunk) fun _ => True := by
  rw [readFormat]
  refine (safe_le16 (by omega)).bind fun _ _ => ?_
  refine (safe_le16 (by omega)).bind fun _ _ => ?_
  refine (safe_le32 (by omega)).bind fun _ _ => ?_
  exact (safe_le16 (by omega)).bind fun _ _ => safe_ok trivial

/-! ### The walk -/

theorem riffChunks_short {rest : List UInt8} (h : rest.length < 8) : riffChunks rest = [] := by
  rw [riffChunks, if_pos h]

theorem riffChunks_cons {rest : List UInt8} (h : 8 ≤ rest.length) :
    riffChunks rest = ⟨rest.take 4, (rest.drop 8).take (chunkSize rest)⟩ ::
      riffChunks (rest.drop (8 + chunkSize rest + chunkSize rest % 2)) := by
  rw [riffChunks, if_neg (by omega)]

theorem lastOf_cons (id : List UInt8) (c : Chunk) (found : List Chunk) :
    lastOf id (c :: found) =
      (lastOf id found).or (if c.id = id then some c.payload else none) := by
  unfold lastOf
  by_cases hid : c.id = id
  · rw [List.filter_cons_of_pos (by simpa using hid), if_pos hid, List.getLast?_cons]
    cases (found.filter fun c => c.id = id).getLast? <;> rfl
  · rw [List.filter_cons_of_neg (by simpa using hid), if_neg hid, Option.or_none]

/-- What the walk has met before is what it keeps if nothing follows. -/
structure Kept (found : List Chunk) (format : Option Format) (data : Option (List UInt8))
    (r : Option Format × Option (List UInt8)) : Prop where
  format : match lastOf fmtId found with
    | none => r.1 = format
    | some fmt => ∃ read, readFormat fmt = .ok read ∧ r.1 = some read
  data : r.2 = (lastOf dataId found).or data

variable {bytes : List UInt8}

theorem kept_nil (format : Option Format) (data : Option (List UInt8)) :
    Kept [] format data (format, data) := ⟨rfl, rfl⟩

/-- One chunk more in front. -/
theorem Kept.cons {c : Chunk} {found : List Chunk} {format format' : Option Format}
    {data data' : Option (List UInt8)} {r : Option Format × Option (List UInt8)}
    (h : Kept found format' data' r)
    (hformat : if c.id = fmtId then ∃ read, readFormat c.payload = .ok read ∧ format' = some read
      else format' = format)
    (hdata : data' = (if c.id = dataId then some c.payload else none).or data) :
    Kept (c :: found) format data r := by
  constructor
  · have hrest := h.format
    rw [lastOf_cons]
    cases hlast : lastOf fmtId found with
    | some fmt =>
      rw [hlast] at hrest
      exact hrest
    | none =>
      rw [hlast] at hrest
      rw [Option.none_or]
      split at hformat
      · rename_i hid
        obtain ⟨read, hread, rfl⟩ := hformat
        rw [if_pos hid]
        exact ⟨read, hread, hrest⟩
      · rename_i hid
        rw [if_neg hid, ← hformat]
        exact hrest
  · rw [h.data, lastOf_cons, hdata, Option.or_assoc]

theorem safe_chunkStep {id : List UInt8} {start stop : Nat} (hle : start ≤ stop)
    (hstop : stop ≤ bytes.length) (format : Option Format) (data : Option (List UInt8)) :
    Safe (chunkStep bytes id start stop format data) fun r =>
      (if id = fmtId then ∃ read,
          readFormat ((bytes.drop start).take (stop - start)) = .ok read ∧ r.1 = some read
        else r.1 = format) ∧
      r.2 = (if id = dataId then some ((bytes.drop start).take (stop - start)) else none).or data := by
  have hpayload : ((bytes.drop start).take (stop - start)).length = stop - start := by
    rw [List.length_take, List.length_drop]
    omega
  unfold chunkStep
  split
  · rename_i hid
    have hdata : id ≠ dataId := by
      rw [hid]
      decide
    rw [if_neg hdata, minus_eq hle, bind_ok]
    split
    · exact safe_fail _
    · rename_i hlong
      rw [slice_eq hle hstop, bind_ok]
      have hall : 16 ≤ ((bytes.drop start).take (stop - start)).length := by omega
      rcases safe_iff.mp (safe_readFormat hall) with ⟨read, hread, -⟩ | ⟨e, hread⟩
      · rw [hread]
        exact safe_ok ⟨⟨read, rfl, rfl⟩, rfl⟩
      · rw [hread]
        exact safe_fail e
  · split
    · rw [slice_eq hle hstop, bind_ok]
      exact safe_ok ⟨rfl, rfl⟩
    · exact safe_ok ⟨rfl, rfl⟩

/-- The walk goes from chunk to chunk, and past the end at the last. -/
theorem riffChunks_drop {offset : Nat} (h : offset + 8 ≤ bytes.length) :
    riffChunks (bytes.drop offset) =
      ⟨(bytes.drop offset).take 4, (bytes.drop (offset + 8)).take
        (min (offset + 8 + chunkSize (bytes.drop offset)) bytes.length - (offset + 8))⟩ ::
      riffChunks (bytes.drop (min (offset + 8 + chunkSize (bytes.drop offset)) bytes.length +
        chunkSize (bytes.drop offset) % 2)) := by
  have hlength : 8 ≤ (bytes.drop offset).length := by
    rw [List.length_drop]
    omega
  rw [riffChunks_cons hlength]
  generalize chunkSize (bytes.drop offset) = size
  rw [List.drop_drop, List.drop_drop]
  by_cases hsize : offset + 8 + size ≤ bytes.length
  · rw [Nat.min_eq_left hsize]
    have hpayload : offset + 8 + size - (offset + 8) = size := by omega
    have hnext : offset + (8 + size + size % 2) = offset + 8 + size + size % 2 := by omega
    rw [hpayload, hnext]
  · have hover : bytes.length ≤ offset + 8 + size := by omega
    rw [Nat.min_eq_right hover]
    have hall : (bytes.drop (offset + 8)).length ≤ bytes.length - (offset + 8) := by
      rw [List.length_drop]
    have hnext : bytes.drop (offset + (8 + size + size % 2)) = [] :=
      List.drop_eq_nil_of_le (by omega)
    have hpast : bytes.drop (bytes.length + size % 2) = [] :=
      List.drop_eq_nil_of_le (Nat.le_add_right _ _)
    rw [List.take_of_length_le hall, List.take_of_length_le (hall.trans (by omega)), hnext, hpast]

theorem safe_scanLoop (hmem : bytes.length < 2 ^ 63) {fuel offset : Nat}
    (hoffset : offset ≤ bytes.length + 1) (hfuel : bytes.length + 1 < offset + fuel)
    (format : Option Format) (data : Option (List UInt8)) :
    Safe (scanLoop bytes fuel offset format data)
      (Kept (riffChunks (bytes.drop offset)) format data) := by
  induction fuel generalizing offset format data with
  | zero => omega
  | succ fuel ih =>
    rw [scanLoop, fits_eq (by omega), bind_ok]
    split
    · rename_i hstart
      rw [slice_eq (by omega) (by omega), bind_ok, le32_chunkSize hstart, bind_ok,
        riffChunks_drop hstart]
      have hsize := chunkSize_lt (bytes.drop offset)
      generalize chunkSize (bytes.drop offset) = size at hsize ⊢
      rw [if_neg (by omega)]
      dsimp only
      have hstop : offset + 8 ≤ min (offset + 8 + size) bytes.length := by omega
      refine (safe_chunkStep hstop (Nat.min_le_right _ _) format data).bind ?_
      rintro ⟨format', data'⟩ ⟨hformat, hdata⟩
      have hodd : size &&& 1 = size % 2 := Nat.and_one_is_mod size
      dsimp only
      rw [hodd, fits_eq (by omega), bind_ok]
      have hrest := ih (show min (offset + 8 + size) bytes.length + size % 2 ≤ bytes.length + 1 by
        omega) (by omega) format' data'
      refine hrest.imp fun r hkept => hkept.cons ?_ ?_
      · have hid : offset + 4 - offset = 4 := by omega
        rw [hid] at hformat
        exact hformat
      · have hid : offset + 4 - offset = 4 := by omega
        rw [hid] at hdata
        exact hdata
    · rename_i hend
      have hshort : (bytes.drop offset).length < 8 := by
        rw [List.length_drop]
        omega
      rw [riffChunks_short hshort]
      exact safe_ok (kept_nil format data)

/-- **The walk goes well**, and keeps the last format and the last data. -/
theorem safe_scan (hmem : bytes.length < 2 ^ 63) (hhead : 12 ≤ bytes.length) :
    Safe (scan bytes) (Kept (riffChunks (bytes.drop 12)) none none) :=
  safe_scanLoop hmem (by omega) (by omega) none none

/-! ### Samples -/

section Samples

variable {F : Type} (f32 : F32 F)

theorem length_samples16 (data : List UInt8) : (samples16 f32 data).length = data.length / 2 := by
  induction data using samples16.induct with
  | case1 a b rest ih =>
    rw [samples16, List.length_cons, ih, List.length_cons, List.length_cons]
    omega
  | case2 data hshort =>
    rw [samples16]
    · match data, hshort with
      | [], _ => rfl
      | [_], _ => simp
      | a :: b :: rest, hshort => exact absurd rfl (hshort a b rest)
    · exact hshort

theorem length_samples32 (data : List UInt8) : (samples32 f32 data).length = data.length / 4 := by
  induction data using samples32.induct with
  | case1 a b c d rest ih =>
    rw [samples32, List.length_cons, ih]
    simp only [List.length_cons]
    omega
  | case2 data hshort =>
    rw [samples32]
    · match data, hshort with
      | [], _ => rfl
      | [_], _ => simp
      | [_, _], _ => simp
      | [_, _, _], _ => simp
      | a :: b :: c :: d :: rest, hshort => exact absurd rfl (hshort a b c d rest)
    · exact hshort

theorem length_chunks (size : Nat) (hsize : 0 < size) (l : List F) :
    (chunks size hsize l).length = (l.length + size - 1) / size := by
  induction l using ByteStream.chunks.induct size hsize with
  | case1 =>
    have hnone : (([] : List F).length + size - 1) / size = 0 := by
      rw [List.length_nil, Nat.zero_add]
      exact Nat.div_eq_of_lt (by omega)
    rw [chunks, dif_pos rfl, hnone, List.length_nil]
  | case2 l h ih =>
    have hpos := List.length_pos_of_ne_nil h
    rw [chunks, dif_neg h, List.length_cons, ih, List.length_drop]
    by_cases hlast : l.length ≤ size
    · have hzero : l.length - size + size - 1 = size - 1 := by omega
      have hone : l.length + size - 1 = (l.length - 1) + size := by omega
      rw [hzero, hone, Nat.add_div_right _ hsize, Nat.div_eq_of_lt (by omega),
        Nat.div_eq_of_lt (by omega)]
    · have hmore : l.length + size - 1 = (l.length - size + size - 1) + size := by omega
      rw [hmore, Nat.add_div_right _ hsize]

/-- Grouping makes no more groups than there are samples. -/
theorem ceil_le {n size : Nat} (hsize : 0 < size) : (n + size - 1) / size ≤ n := by
  apply Nat.le_of_lt_succ
  rw [Nat.div_lt_iff_lt_mul hsize, Nat.succ_mul]
  have hle : n * 1 ≤ n * size := Nat.mul_le_mul_left n hsize
  omega

theorem length_downmix (channels : Nat) (hchannels : 0 < channels) (samples : List F) :
    (downmix f32 channels hchannels samples).length =
      (samples.length + channels - 1) / channels := by
  unfold downmix
  split
  · rename_i hone
    rw [hone, Nat.div_one, Nat.add_sub_cancel]
  · rw [List.length_map, length_chunks]

theorem length_rawBytes (mono : List F) : (rawBytes f32 mono).length = 4 * mono.length := by
  induction mono with
  | nil => rfl
  | cons sample mono ih =>
    rw [rawBytes, List.flatMap_cons, List.length_append, ← rawBytes, ih, List.length_cons]
    simp only [List.length_cons, List.length_nil]
    omega

theorem safe_samplesOf (format : Format) (data : List UInt8) :
    Safe (samplesOf f32 format data) fun samples => ∃ width, sampleWidth format = some width ∧
      2 ≤ width ∧ samples.length = data.length / width := by
  unfold samplesOf sampleWidth
  split
  · exact safe_ok ⟨2, rfl, by decide, length_samples16 f32 data⟩
  split
  · exact safe_ok ⟨4, rfl, by decide, length_samples32 f32 data⟩
  · exact safe_fail _

theorem safe_render {data : List UInt8} (hdata : data.length < 2 ^ 63) (format : Format)
    (maxOutput : Nat) :
    Safe (render f32 format data maxOutput) fun d => ∃ width, sampleWidth format = some width ∧
      d.data.length =
        4 * ((data.length / width + max format.channels 1 - 1) / max format.channels 1) ∧
      d.data.length ≤ maxOutput := by
  rw [render]
  refine (safe_samplesOf f32 format data).bind fun samples hsamples => ?_
  obtain ⟨width, hwidth, htwo, hlength⟩ := hsamples
  have hmono := length_downmix f32 (max format.channels 1)
    (Nat.lt_of_lt_of_le Nat.one_pos (Nat.le_max_right _ _)) samples
  rw [hlength] at hmono
  dsimp only
  generalize downmix f32 (max format.channels 1) _ samples = mono at hmono ⊢
  have hsmall : mono.length * 4 < 2 ^ 64 := by
    have hgroups := ceil_le (n := data.length / width)
      (Nat.lt_of_lt_of_le Nat.one_pos (Nat.le_max_right format.channels 1))
    have hdiv : data.length / width ≤ data.length / 2 := Nat.div_le_div_left htwo (by decide)
    omega
  rw [fits_eq hsmall, bind_ok]
  split
  · exact safe_fail _
  · rename_i hlimit
    refine safe_ok ⟨width, hwidth, ?_, ?_⟩
    · dsimp only
      rw [length_rawBytes, hmono]
    · dsimp only
      rw [length_rawBytes]
      omega

end Samples

theorem length_riffPayload {found : List Chunk} {bound : Nat} {id payload : List UInt8}
    (hbound : ∀ c ∈ found, c.payload.length ≤ bound) (h : lastOf id found = some payload) :
    payload.length ≤ bound := by
  obtain ⟨c, hlast, rfl⟩ := Option.map_eq_some_iff.mp h
  have hmem := List.mem_of_getLast? hlast
  exact hbound c (List.mem_filter.mp hmem).1

theorem riffChunks_length (rest : List UInt8) :
    ∀ c ∈ riffChunks rest, c.payload.length ≤ rest.length := by
  induction rest using riffChunks.induct with
  | case1 rest hshort =>
    rw [riffChunks_short hshort]
    simp
  | case2 rest hlong ih =>
    rw [riffChunks_cons (by omega)]
    intro c hmem
    rcases List.mem_cons.mp hmem with rfl | hmem
    · dsimp only
      rw [List.length_take, List.length_drop]
      omega
    · have hle := ih c hmem
      rw [List.length_drop] at hle
      omega

/-- **A sound is read safely**, and has the size its last chunks make it. -/
theorem decode_sized {F : Type} (f32 : F32 F) (bytes : List UInt8) (hmem : bytes.length < 2 ^ 63)
    (maxOutput : Nat) : Safe (decode f32 bytes maxOutput) (Sized bytes maxOutput) := by
  rw [decode]
  split
  · exact safe_fail _
  rename_i hhead
  have hlength : 12 ≤ bytes.length := by
    rw [not_or] at hhead
    omega
  refine (safe_scan hmem hlength).bind ?_
  rintro ⟨format, data⟩ ⟨hformat, hdata⟩
  rw [Option.or_none] at hdata
  cases hlastFormat : lastOf fmtId (riffChunks (bytes.drop 12)) with
  | none =>
    rw [hlastFormat] at hformat
    obtain rfl : format = none := hformat
    exact safe_fail _
  | some fmt =>
    rw [hlastFormat] at hformat
    obtain ⟨read, hread, rfl⟩ : ∃ read, readFormat fmt = .ok read ∧ format = some read := hformat
    cases data with
    | none => exact safe_fail _
    | some data =>
      have hshort := length_riffPayload (riffChunks_length (bytes.drop 12)) hdata.symm
      rw [List.length_drop] at hshort
      have hsmall : data.length < 2 ^ 63 := by omega
      refine (safe_render f32 hsmall read maxOutput).imp ?_
      rintro d ⟨width, hwidth, hsize, hlimit⟩
      exact ⟨fmt, data, read, width, hlastFormat, hread, hdata.symm, hwidth, hsize, hlimit⟩

def float32 : F32 Float32 where
  ofI16 low high := (UInt16.ofNat (low.toNat + 256 * high.toNat)).toInt16.toFloat32 / 32768
  ofLeBytes a b c d := Float32.ofBits
    (UInt32.ofNat (a.toNat + 256 * (b.toNat + 256 * (c.toNat + 256 * d.toNat))))
  sum frame := frame.foldl (· + ·) 0
  ofNat := Float32.ofNat
  div := (· / ·)
  toLeBytes sample :=
    let bits := sample.toBits.toNat
    (UInt8.ofNat bits, UInt8.ofNat (bits / 2 ^ 8), UInt8.ofNat (bits / 2 ^ 16),
      UInt8.ofNat (bits / 2 ^ 24))

/-- Two channels, a frame and a half of 16-bit samples, and a byte that is none. -/
def beep : List UInt8 :=
  riff ++ [0, 0, 0, 0] ++ wave ++
    (fmtId ++ [16, 0, 0, 0] ++ [1, 0, 2, 0, 0x44, 0xac, 0, 0, 0x10, 0xb1, 2, 0, 4, 0, 16, 0]) ++
    (dataId ++ [7, 0, 0, 0] ++ [1, 0, 2, 0, 3, 0, 4])

theorem decode_sized_beep : Safe (decode float32 beep 8) (Sized beep 8) :=
  decode_sized float32 beep (by decide) 8

end AiDaemon.Wav
