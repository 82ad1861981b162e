import AiDaemon.Deflate

/-!
# PNG

The format itself, with no decoder in mind: the chunks of a file, the header of
a picture with eight bits a channel, the filters of its rows, and how a picture
can be written (`Encoding`): any filter for any row, any stored blocks, any
division into chunks of data, and chunks of other kinds between them.
-/

namespace AiDaemon.PngFormat

/-! ### Chunks -/

/-- A number of four bytes, the highest first. -/
def be32 (n : Nat) : List UInt8 :=
  [UInt8.ofNat (n / 2 ^ 24), UInt8.ofNat (n / 2 ^ 16), UInt8.ofNat (n / 2 ^ 8), UInt8.ofNat n]

def signature : List UInt8 := [137, 80, 78, 71, 13, 10, 26, 10]

/-- `IHDR` -/
def header : List UInt8 := [73, 72, 68, 82]

/-- `IDAT` -/
def imageData : List UInt8 := [73, 68, 65, 84]

/-- `IEND` -/
def ending : List UInt8 := [73, 69, 78, 68]

/-- A chunk.  Its checksum may be wrong. -/
structure Chunk where
  kind : List UInt8
  data : List UInt8
  checksum : List UInt8
  length_kind : kind.length = 4
  length_data : data.length < 2 ^ 32
  length_checksum : checksum.length = 4

def Chunk.bytes (c : Chunk) : List UInt8 := be32 c.data.length ++ (c.kind ++ (c.data ++ c.checksum))

/-- What may stand after the chunks of a picture: the chunk that ends it, or too
    little for a chunk. -/
def Ends (tail : List UInt8) : Prop :=
  tail.length < 8 ∨ ∃ (c : Chunk) (rest : List UInt8), c.kind = ending ∧ tail = c.bytes ++ rest

/-- The chunks of a file up to its end. -/
def IsFile (bytes : List UInt8) (chunks : List Chunk) : Prop :=
  (∀ c ∈ chunks, c.kind ≠ ending) ∧
    ∃ tail, Ends tail ∧ bytes = signature ++ (chunks.flatMap Chunk.bytes ++ tail)

theorem length_be32 (n : Nat) : (be32 n).length = 4 := rfl

theorem Chunk.length_bytes (c : Chunk) : c.bytes.length = 12 + c.data.length := by
  simp only [Chunk.bytes, List.length_append, length_be32, c.length_kind, c.length_checksum]
  omega

/-! ### Headers -/

/-- The data of a header: a picture of this size, with eight bits a channel, in
    colour, with alpha or without, and not interlaced. -/
def IsHeader (data : List UInt8) (width height : Nat) (alpha : Bool) : Prop :=
  0 < width ∧ width < 2 ^ 32 ∧ 0 < height ∧ height < 2 ^ 32 ∧
    ∃ compression filter rest,
      data = be32 width ++ (be32 height ++
        (8 :: (if alpha then 6 else 2) :: compression :: filter :: 0 :: rest))

def channels (alpha : Bool) : Nat := if alpha then 4 else 3

/-- Every header is one, and the last is this. -/
def LastHeader (chunks : List Chunk) (width height : Nat) (alpha : Bool) : Prop :=
  (∀ c ∈ chunks, c.kind = header → ∃ w h a, IsHeader c.data w h a) ∧
    ∃ c, (chunks.filter fun c => c.kind = header).getLast? = some c ∧
      IsHeader c.data width height alpha

/-! ### Filters -/

inductive Filter where
  | none
  | sub
  | up
  | average
  | paeth
deriving DecidableEq, Repr

def Filter.code : Filter → UInt8
  | .none => 0
  | .sub => 1
  | .up => 2
  | .average => 3
  | .paeth => 4

/-- The neighbour that is nearest to `a + b - c`; of two as near, the first of `a`,
    `b` and `c`. -/
def nearest (a b c : UInt8) : UInt8 :=
  let estimate : Int := a.toNat + b.toNat - c.toNat
  let far (n : UInt8) : Nat := (estimate - n.toNat).natAbs
  if far a ≤ far b ∧ far a ≤ far c then a else if far b ≤ far c then b else c

/-- What a filter takes a byte to be, from the byte before it in the row (`a`), the
    one above it (`b`) and the one before that (`c`). -/
def Filter.predict : Filter → UInt8 → UInt8 → UInt8 → UInt8
  | .none, _, _, _ => 0
  | .sub, a, _, _ => a
  | .up, _, b, _ => b
  | .average, a, b, _ => UInt8.ofNat ((a.toNat + b.toNat) / 2)
  | .paeth, a, b, c => nearest a b c

/-- A picture of bytes, row after row. -/
structure Picture where
  width : Nat
  height : Nat
  alpha : Bool
  pixels : List UInt8
  width_pos : 0 < width
  height_pos : 0 < height
  length_pixels : pixels.length = width * height * channels alpha

namespace Picture

variable (picture : Picture)

def stride : Nat := picture.width * channels picture.alpha

/-- The byte in this row and column. -/
def byte (row column : Nat) : UInt8 := picture.pixels.getD (row * picture.stride + column) 0

/-- The same channel one pixel to the left; zero outside of the picture. -/
def left (row column : Nat) : UInt8 :=
  if column < channels picture.alpha then 0
  else picture.byte row (column - channels picture.alpha)

/-- The same channel one pixel up. -/
def up (row column : Nat) : UInt8 := if row = 0 then 0 else picture.byte (row - 1) column

/-- The same channel one pixel up and to the left. -/
def upLeft (row column : Nat) : UInt8 := if row = 0 then 0 else picture.left (row - 1) column

def filteredByte (filter : Filter) (row column : Nat) : UInt8 :=
  picture.byte row column -
    filter.predict (picture.left row column) (picture.up row column) (picture.upLeft row column)

def filteredRow (filter : Filter) (row : Nat) : List UInt8 :=
  filter.code :: (List.range picture.stride).map (picture.filteredByte filter row)

/-- The rows, each with the filter that is chosen for it. -/
def filtered (filters : Nat → Filter) : List UInt8 :=
  (List.range picture.height).flatMap fun row => picture.filteredRow (filters row) row

end Picture

/-! ### Files -/

/-- The two bytes before a stream: DEFLATE, a check, no dictionary. -/
def IsPrelude (cmf flags : UInt8) : Prop :=
  cmf.toNat % 16 = 8 ∧ (cmf.toNat * 256 + flags.toNat) % 31 = 0 ∧ flags.toNat.testBit 5 = false

/-- A way to write a picture. -/
structure Encoding (picture : Picture) where
  filters : Nat → Filter
  blocks : List (List UInt8)
  cmf : UInt8
  flags : UInt8
  checksum : List UInt8
  chunks : List Chunk
  last : Chunk
  rest : List UInt8
  blocks_ne : blocks ≠ []
  blocks_short : ∀ data ∈ blocks, data.length < 2 ^ 16
  blocks_flatten : blocks.flatten = picture.filtered filters
  prelude : IsPrelude cmf flags
  chunks_header : ∃ c, chunks.filter (fun c => c.kind = header) = [c] ∧
    IsHeader c.data picture.width picture.height picture.alpha
  chunks_data : (chunks.filter fun c => c.kind = imageData).flatMap Chunk.data =
    cmf :: flags :: (Deflate.storedStream blocks ++ checksum)
  chunks_ending : ∀ c ∈ chunks, c.kind ≠ ending
  last_kind : last.kind = ending

def Encoding.bytes {picture : Picture} (encoding : Encoding picture) : List UInt8 :=
  signature ++ (encoding.chunks.flatMap Chunk.bytes ++ (encoding.last.bytes ++ encoding.rest))

theorem Encoding.isFile {picture : Picture} (encoding : Encoding picture) :
    IsFile encoding.bytes encoding.chunks :=
  ⟨encoding.chunks_ending, _, .inr ⟨_, _, encoding.last_kind, rfl⟩, rfl⟩

theorem channels_pos (alpha : Bool) : 0 < channels alpha := by
  cases alpha <;> decide

theorem Picture.length_eq (picture : Picture) :
    picture.pixels.length = picture.height * picture.stride := by
  rw [picture.length_pixels, stride, Nat.mul_comm picture.width, Nat.mul_assoc]

theorem Picture.length_filtered (picture : Picture) (filters : Nat → Filter) :
    (picture.filtered filters).length = picture.height * (picture.stride + 1) := by
  have hrow : ∀ row, (picture.filteredRow (filters row) row).length = picture.stride + 1 := by
    intro row
    rw [filteredRow, List.length_cons, List.length_map, List.length_range]
  unfold filtered
  induction picture.height with
  | zero => rw [List.range_zero, List.flatMap_nil, Nat.zero_mul, List.length_nil]
  | succ n ih =>
    rw [List.range_succ, List.flatMap_append, List.length_append, ih, List.flatMap_singleton, hrow,
      Nat.succ_mul]

end AiDaemon.PngFormat
