import AiDaemon.Framing

/-!
# Frames from a pipe (`frame.rs`: `read_typed`)

A pipe hands out bytes in pieces, and when they are gone a read says that the stream
is over, or fails: the other end broke, or a deadline passed.  A frame that the bytes
do not fill is refused with what the read said.

`read_typed` takes one frame and expects a value of some type in it.  The payload
behind a header is read by a loop that a client has for the daemon, the decoder for
the daemon and the daemon for the decoder; they differ only in what they say
(`readPayload_ok`).
-/

namespace AiDaemon.PipeFrames

open ByteStream Framing

variable {V α : Type}

/-! ### The source -/

/-- The end of a pipe that is read, with what a read says behind the last byte: that
    the stream is over, or an error. -/
structure Pipe where
  source : Source
  ending : Option IoError
deriving DecidableEq, Repr

/-- The result of a read that may have come to the end of the bytes. -/
def atEnd (ending : Option IoError) :
    Except IoError (Option (Frame V)) → Except IoError (Option (Frame V))
  | .ok none => match ending with
    | none => .ok none
    | some e => .error e
  | .error (.unexpectedEof message) => .error (ending.getD (.unexpectedEof message))
  | result => result

/-- `read_frame` on a pipe. -/
def Pipe.readFrame (c : Ciborium V) (p : Pipe) : Except IoError (Option (Frame V)) × Pipe :=
  let read := Framing.readFrame c p.source
  (atEnd p.ending read.result, ⟨read.rest, p.ending⟩)

/-- `deserialized` is `Value::deserialized`. -/
def readTyped (c : Ciborium V) (deserialized : V → Except Text α) (p : Pipe) :
    Except IoError (Option α) × Pipe :=
  match p.readFrame c with
  | (.error e, rest) => (.error e, rest)
  | (.ok none, rest) => (.ok none, rest)
  | (.ok (some (.blob _)), rest) =>
    (.error (.other "expected a CBOR frame, got a BLOB".toList), rest)
  | (.ok (some (.cbor value)), rest) =>
    match deserialized value with
    | .ok a => (.ok (some a), rest)
    | .error e => (.error (.other ("unexpected frame shape: ".toList ++ e)), rest)

/-- What a loop that reads a payload says when it gets something else. -/
structure PayloadTexts where
  interrupted : Text
  ended : Text
  failed : Text

/-- What stands at the front is read, whatever the end of the pipe says. -/
theorem Pipe.readFrame_some (c : Ciborium V) {p : Pipe} {frame : Frame V} :
    (p.readFrame c).1 = .ok (some frame) ↔
      (Framing.readFrame c p.source).result = .ok (some frame) := by
  simp only [Pipe.readFrame]
  cases (Framing.readFrame c p.source).result with
  | error e =>
    cases e with
    | unexpectedEof message => simp [atEnd]
    | other message => simp [atEnd]
  | ok read =>
    cases read with
    | none => cases p.ending <;> simp [atEnd]
    | some other => simp [atEnd]

theorem Pipe.readFrame_shrinks (c : Ciborium V) {p : Pipe} {frame : Frame V}
    (h : (p.readFrame c).1 = .ok (some frame)) :
    (p.readFrame c).2.source.bytes.length < p.source.bytes.length := by
  exact Framing.readFrame_shrinks c ((Pipe.readFrame_some c).mp h)

/-- Reads BLOB frames until they come to `len` bytes. -/
def readPayload (c : Ciborium V) (texts : PayloadTexts) (len : Nat) (bytes : List UInt8)
    (p : Pipe) : Except Text (List UInt8) × Pipe :=
  if bytes.length < len then
    let rest := (p.readFrame c).2
    match _hresult : (p.readFrame c).1 with
    | .ok (some (.blob chunk)) => readPayload c texts len (bytes ++ chunk) rest
    | .ok (some (.cbor _)) => (.error texts.interrupted, rest)
    | .ok none => (.error texts.ended, rest)
    | .error e => (.error (texts.failed ++ e.message), rest)
  else (.ok bytes, p)
termination_by p.source.bytes.length
decreasing_by exact p.readFrame_shrinks c _hresult

/-! ### Frames that are there -/

theorem readTyped_whole (c : Ciborium V) (deserialized : V → Except Text α) {p : Pipe} {value : V}
    {rest : List UInt8} (hfits : (c.intoWriter value).length ≤ maxFrame)
    (hbytes : p.source.bytes = (Frame.cbor value).bytes c ++ rest) {a : α}
    (hread : deserialized value = .ok a) :
    ∃ next, readTyped c deserialized p = (.ok (some a), ⟨next, p.ending⟩) ∧ next.bytes = rest := by
  obtain ⟨hresult, hnext⟩ := readFrame_frame c (.cbor value) hfits hbytes
  refine ⟨(Framing.readFrame c p.source).rest, ?_, hnext⟩
  simp only [readTyped, Pipe.readFrame, hresult, atEnd, hread]

theorem readTyped_none (c : Ciborium V) (deserialized : V → Except Text α) {p : Pipe}
    (h : (p.readFrame c).1 = .ok none) :
    readTyped c deserialized p = (.ok none, (p.readFrame c).2) := by
  have hpair : p.readFrame c = (.ok none, (p.readFrame c).2) := Prod.ext h rfl
  rw [readTyped, hpair]

theorem readTyped_error (c : Ciborium V) (deserialized : V → Except Text α) {p : Pipe}
    {e : IoError} (h : (p.readFrame c).1 = .error e) :
    readTyped c deserialized p = (.error e, (p.readFrame c).2) := by
  have hpair : p.readFrame c = (.error e, (p.readFrame c).2) := Prod.ext h rfl
  rw [readTyped, hpair]

theorem readTyped_nothing (c : Ciborium V) (deserialized : V → Except Text α) {p : Pipe}
    (hbytes : p.source.bytes = []) (hending : p.ending = none) :
    ∃ next, readTyped c deserialized p = (.ok none, next) := by
  have hend := readFrame_end c hbytes
  refine ⟨_, readTyped_none c deserialized ?_⟩
  simp only [Pipe.readFrame, hend, hending, atEnd]

/-! ### Payloads -/

variable (c : Ciborium V) (texts : PayloadTexts)

theorem readPayload_done {len : Nat} {bytes : List UInt8} {p : Pipe} (h : ¬bytes.length < len) :
    readPayload c texts len bytes p = (.ok bytes, p) := by
  rw [readPayload, if_neg h]

theorem readPayload_chunk {len : Nat} {bytes chunk : List UInt8} {p : Pipe}
    (hshort : bytes.length < len) (h : (p.readFrame c).1 = .ok (some (.blob chunk))) :
    readPayload c texts len bytes p =
      readPayload c texts len (bytes ++ chunk) (p.readFrame c).2 := by
  rw [readPayload, if_pos hshort]
  split <;> simp_all

/-- What is read does not depend on the texts, nor on what the end of the pipe says: it is
    what `read_blob` reads. -/
theorem readPayload_ok {len : Nat} {bytes payload : List UInt8} {src next : Source}
    {ending : Option IoError} :
    readPayload c texts len bytes ⟨src, ending⟩ = (.ok payload, ⟨next, ending⟩) ↔
      readBlobFrom c len bytes src = (.ok payload, next) := by
  induction hsize : src.bytes.length using Nat.strongRecOn generalizing bytes src with
  | _ size ih =>
    by_cases hshort : bytes.length < len
    · by_cases hblob : ∃ chunk, (Framing.readFrame c src).result = .ok (some (.blob chunk))
      · obtain ⟨chunk, hresult⟩ := hblob
        have hsame : (Pipe.readFrame c ⟨src, ending⟩).1 = .ok (some (.blob chunk)) :=
          (Pipe.readFrame_some c).mpr hresult
        rw [readPayload_chunk c texts hshort hsame, readBlobFrom_chunk c hshort hresult]
        exact ih _ (by rw [← hsize]; exact readFrame_shrinks c hresult) rfl
      · -- anything else is refused by both
        have hpipe : ¬∃ chunk, (Pipe.readFrame c ⟨src, ending⟩).1 = .ok (some (.blob chunk)) := by
          rintro ⟨chunk, hchunk⟩
          exact hblob ⟨chunk, (Pipe.readFrame_some c).mp hchunk⟩
        constructor
        · intro h
          rw [readPayload, if_pos hshort] at h
          split at h
          · rename_i chunk hchunk
            exact absurd ⟨chunk, hchunk⟩ hpipe
          · simp at h
          · simp at h
          · simp at h
        · intro h
          rw [readBlobFrom, if_pos hshort] at h
          split at h
          · rename_i chunk hchunk
            exact absurd ⟨chunk, hchunk⟩ hblob
          · simp at h
          · simp at h
          · simp at h
    · rw [readPayload_done c texts hshort, readBlobFrom_done c hshort]
      simp

/-- A blob that was written is read up to its end. -/
theorem readPayload_written (blob rest : List UInt8) {p : Pipe}
    (hbytes : p.source.bytes = (Item.blob blob).frames.flatMap (Frame.bytes c) ++ rest) :
    ∃ next, readPayload c texts blob.length [] p = (.ok blob, ⟨next, p.ending⟩) ∧
      next.bytes = rest := by
  obtain ⟨next, hread, hnext⟩ := readBlob_written c blob rest p.source hbytes
  exact ⟨next, (readPayload_ok c texts).mpr hread, hnext⟩

/-- Whatever is on the pipe, the loop stops with less than one frame too many. -/
theorem readPayload_bounded {len : Nat} {bytes payload : List UInt8} {p next : Pipe}
    (h : readPayload c texts len bytes p = (.ok payload, next)) :
    bytes <+: payload ∧ len ≤ payload.length ∧
      (payload = bytes ∨ payload.length < len + maxFrame) := by
  induction hsize : p.source.bytes.length using Nat.strongRecOn generalizing bytes p with
  | _ size ih =>
    by_cases hshort : bytes.length < len
    · cases hresult : (p.readFrame c).1 with
      | error e =>
        rw [readPayload, if_pos hshort] at h
        split at h <;> simp_all
      | ok read =>
        cases read with
        | none =>
          rw [readPayload, if_pos hshort] at h
          split at h <;> simp_all
        | some frame =>
          cases frame with
          | cbor value =>
            rw [readPayload, if_pos hshort] at h
            split at h <;> simp_all
          | blob chunk =>
            rw [readPayload_chunk c texts hshort hresult] at h
            have hchunk := (readFrame_bounded c p.source).2 chunk
              ((Pipe.readFrame_some c).mp hresult)
            obtain ⟨hpre, hlen, hmore⟩ := ih _
              (by rw [← hsize]; exact p.readFrame_shrinks c hresult) h rfl
            refine ⟨(List.prefix_append bytes chunk).trans hpre, hlen, Or.inr ?_⟩
            rcases hmore with rfl | hmore
            · rw [List.length_append]
              omega
            · exact hmore
    · rw [readPayload_done c texts hshort] at h
      simp only [Prod.mk.injEq, Except.ok.injEq] at h
      obtain ⟨rfl, rfl⟩ := h
      exact ⟨List.prefix_refl bytes, Nat.not_lt.mp hshort, Or.inl rfl⟩

/-! ### Streams that break off -/

/-- What is read of a frame that is not all there. -/
theorem Pipe.readFrame_cut {p : Pipe} {frame : Frame V} {k : Nat} (hfits : frame.Fits c)
    (hcut : k < (frame.bytes c).length) (hbytes : p.source.bytes = (frame.bytes c).take k) :
    (p.ending = none ∧ (p.readFrame c).1 = .ok none) ∨
      ∃ e, (p.readFrame c).1 = .error e ∧ ∀ err, p.ending = some err → e = err := by
  rw [frame.length_bytes c] at hcut
  rcases Nat.eq_zero_or_pos k with rfl | hpos
  · have hend := readFrame_end c hbytes
    cases hending : p.ending with
    | none =>
      refine .inl ⟨rfl, ?_⟩
      simp only [Pipe.readFrame, hend, hending, atEnd]
    | some err =>
      refine .inr ⟨err, ?_, by simp⟩
      simp only [Pipe.readFrame, hend, hending, atEnd]
  · have hshort := Framing.readFrame_cut c hfits hpos hcut hbytes
    refine .inr ⟨p.ending.getD (.unexpectedEof (cutText k)), ?_, ?_⟩
    · simp only [Pipe.readFrame, hshort, atEnd]
    · intro err herr
      rw [herr, Option.getD_some]

theorem readPayload_pieces_cut {pieces : List (List UInt8)}
    (hpieces : ∀ piece ∈ pieces, piece ≠ [] ∧ piece.length ≤ maxFrame) (bytes : List UInt8)
    {p : Pipe} {k : Nat}
    (hcut : k < (pieces.flatMap fun piece => (Frame.blob piece).bytes c).length)
    (hbytes : p.source.bytes = (pieces.flatMap fun piece => (Frame.blob piece).bytes c).take k) :
    ∃ message next, readPayload c texts (bytes ++ pieces.flatten).length bytes p =
        (.error message, next) ∧
      ∀ err, p.ending = some err → message = texts.failed ++ err.message := by
  induction pieces generalizing bytes p k with
  | nil => exact absurd hcut (Nat.not_lt_zero k)
  | cons piece pieces ih =>
    obtain ⟨hne, hle⟩ := hpieces piece List.mem_cons_self
    have hpos : 0 < piece.length := List.length_pos_iff.mpr hne
    have hshort : bytes.length < (bytes ++ (piece :: pieces).flatten).length := by
      rw [List.length_append, List.flatten_cons, List.length_append]
      omega
    rw [List.flatMap_cons, List.length_append] at hcut
    rw [List.flatMap_cons, List.take_append] at hbytes
    by_cases hinside : k < ((Frame.blob piece : Frame V).bytes c).length
    · rw [Nat.sub_eq_zero_of_le (Nat.le_of_lt hinside), List.take_zero, List.append_nil] at hbytes
      rw [readPayload, if_pos hshort]
      have hblob : (Frame.blob piece : Frame V).Fits c := hle
      rcases Pipe.readFrame_cut c hblob hinside hbytes with
        ⟨hending, hresult⟩ | ⟨e, hresult, he⟩
      · refine ⟨texts.ended, (p.readFrame c).2, ?_, by simp [hending]⟩
        split <;> simp_all
      · refine ⟨texts.failed ++ e.message, (p.readFrame c).2, ?_, ?_⟩
        · split <;> simp_all
        · intro err herr
          rw [he err herr]
    · rw [List.take_of_length_le (Nat.not_lt.mp hinside)] at hbytes
      obtain ⟨hresult, hnext⟩ := readFrame_frame c (.blob piece) hle hbytes
      obtain ⟨message, next, hread, hmessage⟩ :=
        ih (fun other hother => hpieces other (List.mem_cons_of_mem _ hother))
          (bytes ++ piece) (p := (p.readFrame c).2) (by omega) hnext
      refine ⟨message, next, ?_, hmessage⟩
      rw [readPayload_chunk c texts hshort ((Pipe.readFrame_some c).mpr hresult),
        List.flatten_cons, ← List.append_assoc]
      exact hread

/-- A payload that is not all there is refused, with what the end of the pipe says. -/
theorem readPayload_cut (blob : List UInt8) {p : Pipe} {k : Nat}
    (hcut : k < ((Item.blob blob).frames.flatMap (Frame.bytes c)).length)
    (hbytes : p.source.bytes = ((Item.blob blob).frames.flatMap (Frame.bytes c)).take k) :
    ∃ message next, readPayload c texts blob.length [] p = (.error message, next) ∧
      ∀ err, p.ending = some err → message = texts.failed ++ err.message := by
  have hpieces : ∀ piece ∈ blobChunks blob, piece ≠ [] ∧ piece.length ≤ maxFrame := by
    intro piece hpiece
    obtain ⟨hne, hle⟩ := mem_chunks blobChunk _ blob piece hpiece
    exact ⟨hne, Nat.le_trans hle (by decide)⟩
  have hwhole : (blobChunks blob).flatten = blob := flatten_chunks blobChunk _ blob
  rw [Item.frames, List.flatMap_map] at hcut hbytes
  have hread := readPayload_pieces_cut c texts hpieces [] hcut hbytes
  rw [List.nil_append, hwhole] at hread
  exact hread

end AiDaemon.PipeFrames
