import AiDaemon.ByteStream
import AiDaemon.Fallible
import AiDaemon.Text

/-!
# Framing (`frame.rs`)

A frame is a four-byte length, a kind and a payload.  `write_cbor` puts one
value in one frame, `write_blob` cuts its bytes into frames of at most
`BLOB_CHUNK`, none for no bytes.  `read_frame` takes one frame off a stream that
may return its bytes in pieces of any size: nothing at the end of the stream, an
error for anything that is not a whole frame.

The main result is `framing_round_trip`.  What was written is read back frame by
frame, from the whole stream and from every part of it that ends early; the
payload is never longer than `MAX_FRAME`, whatever the stream; and `read_blob`,
which reads blob frames up to a declared length, gets the blob and stops at the
item behind it.
-/

namespace AiDaemon.Framing

open ByteStream Fallible

variable {V : Type}

/-! ### The source -/

def maxFrame : Nat := 64 * 1024 * 1024

def blobChunk : Nat := 8 * 1024 * 1024

def kindCbor : UInt8 := 0x01

def kindBlob : UInt8 := 0x02

/-- The kinds of `io::Error` that come up here, with their texts. -/
inductive IoError where
  | unexpectedEof (message : Text)
  | other (message : Text)
deriving DecidableEq, Repr

def IoError.message : IoError → Text
  | unexpectedEof message | other message => message

/-- `ciborium` on values of one type. It decodes what it encodes. -/
structure Ciborium (V : Type) where
  intoWriter : V → List UInt8
  fromReader : List UInt8 → Except Text V
  reads : ∀ v, fromReader (intoWriter v) = .ok v

inductive Frame (V : Type) where
  | cbor (value : V)
  | blob (bytes : List UInt8)
deriving DecidableEq, Repr

/-- `u32::to_be_bytes`. -/
def toBeBytes (n : Nat) : List UInt8 :=
  [.ofNat (n / 2 ^ 24), .ofNat (n / 2 ^ 16), .ofNat (n / 2 ^ 8), .ofNat n]

/-- `u32::from_be_bytes`. -/
def fromBeBytes (bytes : List UInt8) : Nat := bytes.foldl (fun n b => n * 256 + b.toNat) 0

def header (kind : UInt8) (payload : List UInt8) : List UInt8 := toBeBytes payload.length ++ [kind]

/-- `write_raw`, as the bytes it appends. -/
def writeRaw (kind : UInt8) (payload : List UInt8) : Except IoError (List UInt8) :=
  if payload.length ≥ 2 ^ 32 then .error (.other "frame exceeds u32 length".toList)
  else if payload.length > maxFrame then .error (.other "frame exceeds MAX_FRAME".toList)
  else .ok (header kind payload ++ payload)

def writeCbor (c : Ciborium V) (value : V) : Except IoError (List UInt8) :=
  writeRaw kindCbor (c.intoWriter value)

def blobChunks (bytes : List UInt8) : List (List UInt8) := chunks blobChunk (by decide) bytes

def writeBlob (bytes : List UInt8) : Except IoError (List UInt8) :=
  ((blobChunks bytes).mapM (writeRaw kindBlob)).map List.flatten

/-- `read_exact_or_eof`: `none` when the stream ends before the first byte. -/
def readExactOrEof (src : Source) (want : Nat) : Except IoError (Option (List UInt8)) × Source :=
  let (got, rest) := src.fill want
  if got.length = want then (.ok (some got), rest)
  else if got = [] then (.ok none, rest)
  else (.error (.unexpectedEof "unexpected end of file".toList), rest)

/-- `Read::read_exact`. -/
def readExact (src : Source) (want : Nat) : Except IoError (List UInt8) × Source :=
  let (got, rest) := src.fill want
  if got.length = want then (.ok got, rest)
  else (.error (.unexpectedEof "failed to fill whole buffer".toList), rest)

def tooLongText (len : Nat) : Text :=
  "frame of ".toList ++ Text.ofNat len ++ " bytes exceeds MAX_FRAME".toList

def unknownKindText (kind : UInt8) : Text :=
  "unknown frame kind 0x".toList ++
    [(kind.toNat / 16).digitChar, (kind.toNat % 16).digitChar]

/-- What a payload of this kind is. -/
def frameOf (c : Ciborium V) (kind : UInt8) (payload : List UInt8) :
    Except IoError (Option (Frame V)) :=
  if kind = kindCbor then
    match c.fromReader payload with
    | .ok value => .ok (some (.cbor value))
    | .error e => .error (.other ("malformed CBOR frame: ".toList ++ e))
  else if kind = kindBlob then .ok (some (.blob payload))
  else .error (.other (unknownKindText kind))

/-- What one `read_frame` did: its result, how much it allocated for a payload,
    and the stream it left. -/
structure FrameRead (V : Type) where
  result : Except IoError (Option (Frame V))
  allocated : Nat
  rest : Source

def readFrame (c : Ciborium V) (src : Source) : FrameRead V :=
  match readExactOrEof src 5 with
  | (.error e, rest) => ⟨.error e, 0, rest⟩
  | (.ok none, rest) => ⟨.ok none, 0, rest⟩
  | (.ok (some head), rest) =>
    let len := fromBeBytes (head.take 4)
    if len > maxFrame then ⟨.error (.other (tooLongText len)), 0, rest⟩
    else
      match readExact rest len with
      | (.error e, rest) => ⟨.error e, len, rest⟩
      | (.ok payload, rest) => ⟨frameOf c (head.getD 4 0) payload, len, rest⟩

/-! ### One frame -/

theorem fromBeBytes_toBeBytes {n : Nat} (h : n < 2 ^ 32) : fromBeBytes (toBeBytes n) = n := by
  simp only [fromBeBytes, toBeBytes, List.foldl_cons, List.foldl_nil, UInt8.toNat_ofNat']
  omega

theorem length_header (kind : UInt8) (payload : List UInt8) :
    (header kind payload).length = 5 := rfl

/-- The length comes back out of the header. -/
theorem fromBeBytes_header (kind : UInt8) {payload : List UInt8}
    (hfits : payload.length ≤ maxFrame) :
    fromBeBytes ((header kind payload).take 4) = payload.length := by
  show fromBeBytes (toBeBytes payload.length) = payload.length
  exact fromBeBytes_toBeBytes (Nat.lt_of_le_of_lt hfits (by decide))

/-- As many bytes as are wanted stand at the front. -/
theorem fill_front {src : Source} {want : Nat} {got rest : List UInt8}
    (hbytes : src.bytes = got ++ rest) (hwant : got.length = want) :
    (src.fill want).1 = got ∧ (src.fill want).2.bytes = rest := by
  constructor
  · rw [src.fill_bytes, hbytes, ← hwant, List.take_left]
  · rw [src.fill_rest, hbytes, ← hwant, List.drop_left]

theorem readExactOrEof_full {src : Source} {want : Nat} {got rest : List UInt8}
    (hbytes : src.bytes = got ++ rest) (hwant : got.length = want) :
    ∃ next, readExactOrEof src want = (.ok (some got), next) ∧ next.bytes = rest := by
  obtain ⟨htake, hrest⟩ := fill_front hbytes hwant
  refine ⟨(src.fill want).2, ?_, hrest⟩
  simp only [readExactOrEof, htake, hwant, if_true]

theorem readExact_full {src : Source} {want : Nat} {got rest : List UInt8}
    (hbytes : src.bytes = got ++ rest) (hwant : got.length = want) :
    ∃ next, readExact src want = (.ok got, next) ∧ next.bytes = rest := by
  obtain ⟨htake, hrest⟩ := fill_front hbytes hwant
  refine ⟨(src.fill want).2, ?_, hrest⟩
  simp only [readExact, htake, hwant, if_true]

/-- A whole frame at the front of the stream is read, and no more. -/
theorem readFrame_whole (c : Ciborium V) {src : Source} {kind : UInt8} {payload rest : List UInt8}
    (hfits : payload.length ≤ maxFrame)
    (hbytes : src.bytes = header kind payload ++ payload ++ rest) :
    (readFrame c src).result = frameOf c kind payload ∧ (readFrame c src).rest.bytes = rest := by
  rw [List.append_assoc] at hbytes
  obtain ⟨next, hhead, hnext⟩ := readExactOrEof_full hbytes (length_header kind payload)
  obtain ⟨last, hread, hlast⟩ := readExact_full hnext (rfl : payload.length = payload.length)
  have hkind : (header kind payload).getD 4 0 = kind := rfl
  simp only [readFrame, hhead, fromBeBytes_header kind hfits, hread, hkind, Nat.not_lt.mpr hfits,
    if_false, true_and]
  exact hlast

/-- The end of the stream between frames is no error. -/
theorem readFrame_end (c : Ciborium V) {src : Source} (hbytes : src.bytes = []) :
    (readFrame c src).result = .ok none := by
  have htake : (src.fill 5).1 = [] := by rw [src.fill_bytes, hbytes, List.take_nil]
  simp [readFrame, readExactOrEof, htake]

/-- What a frame is called that ends after `k` bytes: inside its header, or
    inside its payload. -/
def cutText (k : Nat) : Text :=
  if k < 5 then "unexpected end of file".toList else "failed to fill whole buffer".toList

/-- A frame that is cut short is an error. -/
theorem readFrame_cut (c : Ciborium V) {src : Source} {kind : UInt8} {payload : List UInt8}
    {k : Nat}
    (hfits : payload.length ≤ maxFrame) (hpos : 0 < k) (hcut : k < 5 + payload.length)
    (hbytes : src.bytes = (header kind payload ++ payload).take k) :
    (readFrame c src).result = .error (.unexpectedEof (cutText k)) := by
  have hlength : (header kind payload ++ payload).length = 5 + payload.length := by
    rw [List.length_append, length_header]
  have hk : src.bytes.length = k := by
    rw [hbytes, List.length_take, hlength]
    omega
  by_cases hshort : k < 5
  · -- the cut is inside the header
    have htake : (src.fill 5).1 = src.bytes := by
      rw [src.fill_bytes, List.take_of_length_le (by omega)]
    have hsome : src.bytes ≠ [] := by
      rw [← List.length_pos_iff]
      omega
    simp only [readFrame, readExactOrEof, htake, hsome, if_false, hk, cutText, hshort, if_true]
    rw [if_neg (by omega)]
  · have hsplit : src.bytes = header kind payload ++ payload.take (k - 5) := by
      rw [hbytes, List.take_append, length_header, List.take_of_length_le]
      rw [length_header]
      omega
    obtain ⟨next, hhead, hnext⟩ := readExactOrEof_full hsplit (length_header kind payload)
    have htake : (next.fill payload.length).1.length ≠ payload.length := by
      rw [next.fill_bytes, hnext, List.length_take, List.length_take]
      omega
    simp only [readFrame, hhead, fromBeBytes_header kind hfits, readExact, htake,
      Nat.not_lt.mpr hfits, if_false, cutText, hshort]

/-- No stream makes it allocate more than the ceiling, or return more. -/
theorem readFrame_bounded (c : Ciborium V) (src : Source) :
    (readFrame c src).allocated ≤ maxFrame ∧
      ∀ bytes, (readFrame c src).result = .ok (some (.blob bytes)) → bytes.length ≤ maxFrame := by
  unfold readFrame
  split
  · simp
  · simp
  · rename_i head rest hhead
    dsimp only
    split
    · simp
    · rename_i hle
      rw [gt_iff_lt, Nat.not_lt] at hle
      split
      · exact ⟨hle, by simp⟩
      · rename_i payload rest' hread
        refine ⟨hle, ?_⟩
        intro bytes hbytes
        have hlength : payload.length = fromBeBytes (head.take 4) := by
          unfold readExact at hread
          dsimp only at hread
          split at hread
          · rename_i hgot
            obtain rfl : (rest.fill (fromBeBytes (head.take 4))).1 = payload := by
              simpa using (Prod.mk.inj hread).1
            exact hgot
          · simp at hread
        have hsame : bytes = payload := by
          unfold frameOf at hbytes
          split at hbytes
          · split at hbytes <;> simp at hbytes
          · split at hbytes
            · simpa using hbytes.symm
            · simp at hbytes
        rw [hsame, hlength]
        exact hle

/-! ### Streams of frames -/

/-- A frame that was read took bytes off the stream. -/
theorem readFrame_shrinks (c : Ciborium V) {src : Source} {frame : Frame V}
    (h : (readFrame c src).result = .ok (some frame)) :
    (readFrame c src).rest.bytes.length < src.bytes.length := by
  unfold readFrame at h ⊢
  split
  · rename_i hhead
    simp [hhead] at h
  · rename_i hhead
    simp [hhead] at h
  · rename_i head rest hhead
    have hlength : rest.bytes.length + 5 = src.bytes.length := by
      unfold readExactOrEof at hhead
      dsimp only at hhead
      split at hhead
      · rename_i hgot
        obtain rfl := (Prod.mk.inj hhead).2
        rw [src.fill_bytes, List.length_take] at hgot
        rw [src.fill_rest, List.length_drop]
        omega
      · split at hhead <;> simp at hhead
    simp only [hhead] at h
    dsimp only
    split at h
    · simp at h
    · rename_i hle
      rw [if_neg hle]
      have hrest : (readExact rest (fromBeBytes (head.take 4))).2.bytes.length ≤
          rest.bytes.length := by
        unfold readExact
        dsimp only
        split <;> simp only [rest.fill_rest, List.length_drop] <;> omega
      split <;> rename_i hread <;> rw [hread] at hrest <;> dsimp only at hrest ⊢ <;> omega

/-- Every frame up to the end of the stream or the first error. -/
def readFrames (c : Ciborium V) (src : Source) : List (Frame V) × Except IoError Unit :=
  match _hresult : (readFrame c src).result with
  | .error e => ([], .error e)
  | .ok none => ([], .ok ())
  | .ok (some frame) =>
    let more := readFrames c (readFrame c src).rest
    (frame :: more.1, more.2)
termination_by src.bytes.length
decreasing_by exact readFrame_shrinks c _hresult

theorem readFrames_end (c : Ciborium V) {src : Source} (h : (readFrame c src).result = .ok none) :
    readFrames c src = ([], .ok ()) := by
  rw [readFrames]
  split <;> simp_all

theorem readFrames_error (c : Ciborium V) {src : Source} {e : IoError}
    (h : (readFrame c src).result = .error e) : readFrames c src = ([], .error e) := by
  rw [readFrames]
  split <;> simp_all

theorem readFrames_frame (c : Ciborium V) {src : Source} {frame : Frame V}
    (h : (readFrame c src).result = .ok (some frame)) :
    readFrames c src = (frame :: (readFrames c (readFrame c src).rest).1,
      (readFrames c (readFrame c src).rest).2) := by
  rw [readFrames]
  split <;> simp_all

def Frame.kind : Frame V → UInt8
  | cbor _ => kindCbor
  | blob _ => kindBlob

def Frame.payload (c : Ciborium V) : Frame V → List UInt8
  | cbor value => c.intoWriter value
  | blob bytes => bytes

/-- A frame as it stands on the wire. -/
def Frame.bytes (c : Ciborium V) (frame : Frame V) : List UInt8 :=
  header frame.kind (frame.payload c) ++ frame.payload c

theorem Frame.length_bytes (c : Ciborium V) (frame : Frame V) :
    (frame.bytes c).length = 5 + (frame.payload c).length := by
  rw [Frame.bytes, List.length_append, length_header]

theorem frameOf_payload (c : Ciborium V) (frame : Frame V) :
    frameOf c frame.kind (frame.payload c) = .ok (some frame) := by
  cases frame with
  | cbor value => simp [frameOf, Frame.kind, Frame.payload, c.reads]
  | blob bytes => simp [frameOf, Frame.kind, Frame.payload, kindCbor, kindBlob]

def Frame.Fits (c : Ciborium V) (frame : Frame V) : Prop := (frame.payload c).length ≤ maxFrame

theorem readFrame_frame (c : Ciborium V) {src : Source} (frame : Frame V) {rest : List UInt8}
    (hfits : frame.Fits c) (hbytes : src.bytes = frame.bytes c ++ rest) :
    (readFrame c src).result = .ok (some frame) ∧ (readFrame c src).rest.bytes = rest := by
  obtain ⟨hresult, hrest⟩ := readFrame_whole c hfits hbytes
  exact ⟨hresult.trans (frameOf_payload c frame), hrest⟩

/-- Frames in front of a stream are read one by one, then the stream. -/
theorem readFrames_append (c : Ciborium V) {frames : List (Frame V)} (rest : List UInt8)
    {ending : Except IoError Unit} (hfits : ∀ frame ∈ frames, frame.Fits c)
    (hrest : ∀ src : Source, src.bytes = rest → readFrames c src = ([], ending)) {src : Source}
    (hbytes : src.bytes = frames.flatMap (Frame.bytes c) ++ rest) :
    readFrames c src = (frames, ending) := by
  induction frames generalizing src with
  | nil => exact hrest src (by simpa using hbytes)
  | cons frame frames ih =>
    rw [List.flatMap_cons, List.append_assoc] at hbytes
    obtain ⟨hresult, hnext⟩ := readFrame_frame c frame (hfits frame List.mem_cons_self) hbytes
    rw [readFrames_frame c hresult,
      ih (fun other hother => hfits other (List.mem_cons_of_mem _ hother)) hnext]

theorem readFrames_whole (c : Ciborium V) {frames : List (Frame V)}
    (hfits : ∀ frame ∈ frames, frame.Fits c) {src : Source}
    (hbytes : src.bytes = frames.flatMap (Frame.bytes c)) :
    readFrames c src = (frames, .ok ()) := by
  refine readFrames_append c [] hfits ?_ (by rw [hbytes, List.append_nil])
  intro src hnil
  exact readFrames_end c (readFrame_end c hnil)

/-- A stream that stops inside a frame gives the frames before it and an error. -/
theorem readFrames_torn (c : Ciborium V) {frames : List (Frame V)} {frame : Frame V} {n : Nat}
    (hfits : ∀ frame ∈ frames, frame.Fits c) (hlast : frame.Fits c) (hpos : 0 < n)
    (hlt : n < (frame.bytes c).length) {src : Source}
    (hbytes : src.bytes = frames.flatMap (Frame.bytes c) ++ (frame.bytes c).take n) :
    readFrames c src = (frames, .error (.unexpectedEof (cutText n))) := by
  rw [frame.length_bytes c] at hlt
  refine readFrames_append c _ hfits ?_ hbytes
  intro src hcut
  exact readFrames_error c (readFrame_cut c hlast hpos hlt hcut)

/-! ### Items -/

/-- What a peer puts on the stream: a value, or a blob. -/
inductive Item (V : Type) where
  | cbor (value : V)
  | blob (bytes : List UInt8)
deriving DecidableEq, Repr

def Item.frames : Item V → List (Frame V)
  | cbor value => [.cbor value]
  | blob bytes => (blobChunks bytes).map .blob

def writeItem (c : Ciborium V) : Item V → Except IoError (List UInt8)
  | .cbor value => writeCbor c value
  | .blob bytes => writeBlob bytes

def writeItems (c : Ciborium V) (items : List (Item V)) : Except IoError (List UInt8) :=
  (items.mapM (writeItem c)).map List.flatten

/-- The value's encoding is at most `MAX_FRAME` long; a blob may have any
    length. -/
def Item.Fits (c : Ciborium V) : Item V → Prop
  | cbor value => (c.intoWriter value).length ≤ maxFrame
  | blob _ => True

theorem writeRaw_fits {kind : UInt8} {payload : List UInt8} (h : payload.length ≤ maxFrame) :
    writeRaw kind payload = .ok (header kind payload ++ payload) := by
  have hsmall : ¬ payload.length ≥ 2 ^ 32 :=
    Nat.not_le.mpr (Nat.lt_of_le_of_lt h (by decide))
  rw [writeRaw, if_neg hsmall, if_neg (Nat.not_lt.mpr h)]

theorem frame_fits (c : Ciborium V) {item : Item V} (h : item.Fits c) :
    ∀ frame ∈ item.frames, frame.Fits c := by
  intro frame hframe
  cases item with
  | cbor value =>
    rw [List.mem_singleton.mp hframe]
    exact h
  | blob bytes =>
    obtain ⟨chunk, hchunk, rfl⟩ := List.mem_map.mp hframe
    have hle : chunk.length ≤ blobChunk := (mem_chunks blobChunk _ bytes chunk hchunk).2
    exact Nat.le_trans hle (by decide)

/-- Writing an item is writing its frames. -/
theorem writeItem_fits (c : Ciborium V) (item : Item V) (h : item.Fits c) :
    writeItem c item = .ok (item.frames.flatMap (Frame.bytes c)) := by
  cases item with
  | cbor value =>
    rw [writeItem, writeCbor, writeRaw_fits h]
    simp [Item.frames, Frame.bytes, Frame.kind, Frame.payload]
  | blob bytes =>
    have hchunks : (blobChunks bytes).mapM (writeRaw kindBlob) =
        .ok ((blobChunks bytes).map fun chunk => (Frame.blob chunk).bytes c) := by
      apply mapM_ok
      intro chunk hchunk
      exact writeRaw_fits (frame_fits c h (.blob chunk) (List.mem_map_of_mem hchunk))
    rw [writeItem, writeBlob, hchunks]
    simp [Item.frames, Except.map, List.flatMap_def, Function.comp_def]

theorem writeItems_fits (c : Ciborium V) {items : List (Item V)} (h : ∀ item ∈ items, item.Fits c) :
    writeItems c items = .ok ((items.flatMap Item.frames).flatMap (Frame.bytes c)) := by
  have hitems := mapM_ok fun item hitem => writeItem_fits c item (h item hitem)
  rw [writeItems, hitems, List.flatMap_assoc, List.flatMap_def]
  rfl

/-! ### Reading a blob of a declared length -/

/-- `read_blob`, from what it has so far. -/
def readBlobFrom (c : Ciborium V) (len : Nat) (bytes : List UInt8) (src : Source) :
    Except Text (List UInt8) × Source :=
  if bytes.length < len then
    let rest := (readFrame c src).rest
    match _hresult : (readFrame c src).result with
    | .ok (some (.blob chunk)) => readBlobFrom c len (bytes ++ chunk) rest
    | .ok (some (.cbor _)) => (.error "a request frame interrupted the payload".toList, rest)
    | .ok none => (.error "the payload ended early".toList, rest)
    | .error e => (.error ("payload: ".toList ++ e.message), rest)
  else (.ok bytes, src)
termination_by src.bytes.length
decreasing_by exact readFrame_shrinks c _hresult

def readBlob (c : Ciborium V) (len : Nat) (src : Source) : Except Text (List UInt8) × Source :=
  readBlobFrom c len [] src

theorem readBlobFrom_chunk (c : Ciborium V) {len : Nat} {bytes chunk : List UInt8} {src : Source}
    (hshort : bytes.length < len) (h : (readFrame c src).result = .ok (some (.blob chunk))) :
    readBlobFrom c len bytes src = readBlobFrom c len (bytes ++ chunk) (readFrame c src).rest := by
  rw [readBlobFrom, if_pos hshort]
  split <;> simp_all

theorem readBlobFrom_done (c : Ciborium V) {len : Nat} {bytes : List UInt8} {src : Source}
    (h : ¬ bytes.length < len) : readBlobFrom c len bytes src = (.ok bytes, src) := by
  rw [readBlobFrom, if_neg h]

theorem readBlobFrom_chunks (c : Ciborium V) {pieces : List (List UInt8)} {rest : List UInt8}
    (hpieces : ∀ piece ∈ pieces, piece ≠ [] ∧ piece.length ≤ maxFrame) (bytes : List UInt8)
    {src : Source}
    (hbytes : src.bytes = pieces.flatMap (fun piece => (Frame.blob piece).bytes c) ++ rest) :
    ∃ next, readBlobFrom c (bytes ++ pieces.flatten).length bytes src =
      (.ok (bytes ++ pieces.flatten), next) ∧ next.bytes = rest := by
  induction pieces generalizing bytes src with
  | nil =>
    refine ⟨src, ?_, by simpa using hbytes⟩
    rw [readBlobFrom_done c (by simp)]
    simp
  | cons piece pieces ih =>
    obtain ⟨hne, hle⟩ := hpieces piece List.mem_cons_self
    rw [List.flatMap_cons, List.append_assoc] at hbytes
    obtain ⟨hresult, hnext⟩ := readFrame_frame c (.blob piece) hle hbytes
    have hpos : 0 < piece.length := List.length_pos_iff.mpr hne
    have hshort : bytes.length < (bytes ++ (piece :: pieces).flatten).length := by
      rw [List.length_append, List.flatten_cons, List.length_append]
      omega
    obtain ⟨last, hread, hlast⟩ :=
      ih (fun other hother => hpieces other (List.mem_cons_of_mem _ hother))
        (bytes ++ piece) hnext
    refine ⟨last, ?_, hlast⟩
    rw [readBlobFrom_chunk c hshort hresult, List.flatten_cons, ← List.append_assoc]
    exact hread

/-- It gets a blob that was written and stops behind it. -/
theorem readBlob_written (c : Ciborium V) (blob rest : List UInt8) (src : Source)
    (hbytes : src.bytes = (Item.blob blob).frames.flatMap (Frame.bytes c) ++ rest) :
    ∃ next, readBlob c blob.length src = (.ok blob, next) ∧ next.bytes = rest := by
  have hpieces : ∀ piece ∈ blobChunks blob, piece ≠ [] ∧ piece.length ≤ maxFrame := by
    intro piece hpiece
    obtain ⟨hne, hle⟩ := mem_chunks blobChunk _ blob piece hpiece
    exact ⟨hne, Nat.le_trans hle (by decide)⟩
  have hwhole : (blobChunks blob).flatten = blob := flatten_chunks blobChunk _ blob
  rw [Item.frames, List.flatMap_map] at hbytes
  have hread := readBlobFrom_chunks c hpieces [] hbytes
  rw [List.nil_append, hwhole] at hread
  exact hread

/-! ### The round trip -/

/-- A cut inside a frame is at no boundary. -/
theorem not_boundary (c : Ciborium V) {frames : List (Frame V)} {j n : Nat} {frame : Frame V}
    (hframe : frames[j]? = some frame) (hpos : 0 < n) (hlt : n < (frame.bytes c).length) (i : Nat) :
    boundary (Frame.bytes c) frames j + n ≠ boundary (Frame.bytes c) frames i := by
  have hnext : boundary (Frame.bytes c) frames (j + 1) =
      boundary (Frame.bytes c) frames j + (frame.bytes c).length := by
    have hlt : j < frames.length := (List.getElem?_eq_some_iff.mp hframe).1
    have hget : frames[j] = frame := (List.getElem?_eq_some_iff.mp hframe).2
    rw [boundary, boundary, List.take_succ_eq_append_getElem hlt, hget]
    simp
  rcases Nat.lt_or_ge j i with h | h
  · have hmono := boundary_mono (Frame.bytes c) frames h
    rw [Nat.succ_eq_add_one, hnext] at hmono
    omega
  · have hmono := boundary_mono (Frame.bytes c) frames h
    omega

/-- **Framing round trip.** Items that fit are written and read back frame by
    frame, however the reader returns the bytes. A stream that ends early gives
    the frames before the end, then the end of the stream if the cut is at a
    boundary of frames and an error if not. The frames of a blob are its pieces
    in order, none for an empty one; reading up to its length gets the blob. No
    stream makes `read_frame` allocate or return more than `MAX_FRAME`. -/
theorem framing_round_trip (c : Ciborium V) (items : List (Item V))
    (hfits : ∀ item ∈ items, item.Fits c) :
    ∃ bytes, writeItems c items = .ok bytes ∧
      (∀ script, readFrames c ⟨bytes, script⟩ = (items.flatMap Item.frames, .ok ())) ∧
      (∀ k < bytes.length, ∀ script,
        (∃ j, k = boundary (Frame.bytes c) (items.flatMap Item.frames) j ∧
          readFrames c ⟨bytes.take k, script⟩ = ((items.flatMap Item.frames).take j, .ok ())) ∨
        ((∀ j, k ≠ boundary (Frame.bytes c) (items.flatMap Item.frames) j) ∧
          ∃ j e, readFrames c ⟨bytes.take k, script⟩ =
            ((items.flatMap Item.frames).take j, .error e))) ∧
      (∀ blob rest script, ∃ pieces : List (List UInt8),
        (Item.blob blob : Item V).frames = pieces.map .blob ∧ pieces.flatten = blob ∧
        (∀ piece ∈ pieces, piece ≠ [] ∧ piece.length ≤ blobChunk) ∧
        ∃ written next, writeBlob blob = .ok written ∧
          readBlob c blob.length ⟨written ++ rest, script⟩ = (.ok blob, next) ∧
          next.bytes = rest) ∧
      ∀ src, (readFrame c src).allocated ≤ maxFrame ∧
        ∀ bytes, (readFrame c src).result = .ok (some (.blob bytes)) → bytes.length ≤ maxFrame := by
  have hframes : ∀ frame ∈ items.flatMap Item.frames, frame.Fits c := by
    intro frame hframe
    obtain ⟨item, hitem, hmem⟩ := List.mem_flatMap.mp hframe
    exact frame_fits c (hfits item hitem) frame hmem
  refine ⟨_, writeItems_fits c hfits, ?_, ?_, ?_, readFrame_bounded c⟩
  · intro script
    exact readFrames_whole c hframes rfl
  · intro k hk script
    rcases cut_flatMap (Frame.bytes c) (items.flatMap Item.frames) (Nat.le_of_lt hk) with
      ⟨j, hj⟩ | ⟨j, frame, n, hframe, hpos, hlt, hj⟩
    · refine Or.inl ⟨j, hj, ?_⟩
      apply readFrames_whole c fun frame hframe => hframes frame (List.mem_of_mem_take hframe)
      dsimp only
      rw [hj, take_boundary]
    · refine Or.inr ⟨?_, j, .unexpectedEof (cutText n), ?_⟩
      · intro i
        rw [hj]
        exact not_boundary c hframe hpos hlt i
      · apply readFrames_torn c (fun frame hmem => hframes frame (List.mem_of_mem_take hmem))
          (hframes frame (List.mem_of_getElem? hframe)) hpos hlt
        dsimp only
        rw [hj, take_flatMap (Frame.bytes c) hframe n (Nat.le_of_lt hlt)]
  · intro blob rest script
    refine ⟨blobChunks blob, rfl, flatten_chunks blobChunk _ blob, mem_chunks blobChunk _ blob, ?_⟩
    obtain ⟨next, hread, hnext⟩ := readBlob_written c blob rest
      ⟨(Item.blob blob : Item V).frames.flatMap (Frame.bytes c) ++ rest, script⟩ rfl
    exact ⟨_, next, writeItem_fits c (.blob blob) trivial, hread, hnext⟩

/-- Booleans, as CBOR has them. -/
def booleans : Ciborium Bool where
  intoWriter
    | false => [0xf4]
    | true => [0xf5]
  fromReader
    | 0xf4 :: _ => .ok false
    | 0xf5 :: _ => .ok true
    | _ => .error "not a boolean".toList
  reads
    | false => rfl
    | true => rfl

theorem framing_round_trip_booleans :
    ∃ bytes, writeItems booleans [.cbor true, .blob [1, 2, 3], .blob [], .cbor false] = .ok bytes ∧
      ∀ script, readFrames booleans ⟨bytes, script⟩ =
        ([.cbor true, .blob [1, 2, 3], .cbor false], .ok ()) := by
  obtain ⟨bytes, hwritten, hread, -⟩ := framing_round_trip booleans
    [.cbor true, .blob [1, 2, 3], .blob [], .cbor false]
    (by simp [Item.Fits, booleans, maxFrame])
  refine ⟨bytes, hwritten, ?_⟩
  intro script
  rw [hread script]
  simp [Item.frames, blobChunks, chunks, blobChunk]

end AiDaemon.Framing
