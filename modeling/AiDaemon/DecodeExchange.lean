import AiDaemon.Attach
import AiDaemon.PipeFrames
import AiDaemon.Png
import AiDaemon.Wire

/-!
# The decoder and the daemon (`ai-daemon-decode`: `main`; `decode.rs`)

For each encoded attachment the daemon runs one child.  It writes a request and the
encoded bytes to it, and the child writes a reply and the decoded bytes back.  Both
ends are here as they run: what each writes, what each makes of what it reads, and
what the daemon tells its client when the child fails, dies or takes too long.

Between them the bytes do not matter.  What the daemon gets from a decoder is what
the decoder makes of the attachment, however the pipes cut it up
(`decoded_across_the_pipe`).  From any other child, whatever it writes and however it
ends, it gets no more than it is ready to hold (`child_contained`).
-/

namespace AiDaemon.DecodeExchange

open ByteStream Cbor Codec Fields Framing PipeFrames Proto Turn
open Attach (Decoded)

variable {D : Type}

/-! ### Messages -/

/-- `MAX_DECODED` -/
def maxDecoded : UInt64 := 256 * 1024 * 1024

/-- `DecodeRequest`, which the decoder reads as `Request`. -/
structure DecodeRequest where
  kind : Text
  hint : Text
  len : UInt64
  maxOutput : UInt64
deriving DecidableEq, Repr

/-- `Reply`, which the daemon reads as `DecodeReply`. -/
structure Reply where
  ok : Bool
  error : Text
  w : Option UInt32
  h : Option UInt32
  fmt : Option Text
  rate : Option UInt32
  len : UInt64
deriving DecidableEq, Repr

def decodeRequest : Fields D DecodeRequest :=
  ((fieldOr "kind".toList text []).and
    ((fieldOr "hint".toList text []).and
      ((fieldOr "len".toList u64 0).and
        (fieldOr "max_output".toList u64 0) rfl) rfl) rfl).via
    (fun r => (r.kind, r.hint, r.len, r.maxOutput))
    (fun (kind, hint, len, maxOutput) => ⟨kind, hint, len, maxOutput⟩) (fun _ => rfl)

/-- An empty error is left out. -/
def errorField : Fields D Text :=
  fieldUnless "error".toList text List.isEmpty (some []) (by
    intro s hs
    rw [List.isEmpty_iff.mp hs])

def reply : Fields D Reply :=
  ((fieldOr "ok".toList bool false).and
    (errorField.and
      ((Wire.optionalU32 "w".toList).and
        ((Wire.optionalU32 "h".toList).and
          ((Wire.optionalText "fmt".toList).and
            ((Wire.optionalU32 "rate".toList).and
              (fieldOr "len".toList u64 0) rfl) rfl) rfl) rfl) rfl) rfl).via
    (fun r => (r.ok, r.error, r.w, r.h, r.fmt, r.rate, r.len))
    (fun (ok, error, w, h, fmt, rate, len) => ⟨ok, error, w, h, fmt, rate, len⟩) (fun _ => rfl)

/-- `ciborium`, with what it says of a value that has another shape than was asked for. -/
structure Serde (D : Type) where
  ciborium : Ciborium (Value D)
  describe : Value D → Text

/-- `Value::deserialized` -/
def Serde.deserialized {α : Type} (serde : Serde D) (codec : Codec D α) (value : Value D) :
    Except Text α :=
  match codec.dec value with
  | some a => .ok a
  | none => .error (serde.describe value)

/-- A message and the payload behind it, up to the first that cannot be written. -/
def written (serde : Serde D) (value : Value D) (payload : List UInt8) : List UInt8 :=
  match writeCbor serde.ciborium value with
  | .error _ => []
  | .ok head =>
    match writeBlob payload with
    | .ok body => head ++ body
    | .error _ => head

/-! ### The decoder -/

/-- The bytes of a `Vec`, which are never more than `isize::MAX`. -/
structure Buffer where
  bytes : List UInt8
  fits : bytes.length < 2 ^ 63

/-- `png::decode` and `wav::decode`, in a build that checks its sums or in one that does
    not. -/
structure Parsers where
  png : List UInt8 → Nat → Inflate.Result Png.Decoded
  wav : List UInt8 → Nat → Inflate.Result Png.Decoded

/-- What the decoder has to say. -/
inductive Said where
  | failed (message : Text)
  | decoded (w h : Option UInt32) (fmt : Option Text) (rate : Option UInt32) (data : Buffer)
  /-- It panicked before it wrote. -/
  | nothing

section Decoder

variable (serde : Serde D) (parsers : Parsers) (isEscaped : Char → Bool)

def payloadTexts : PayloadTexts :=
  ⟨"a structured frame interrupted the payload".toList, "the payload ended early".toList,
    "payload: ".toList⟩

/-- `main` up to the end of the payload. -/
def receive (stdin : Pipe) : Except Text (DecodeRequest × List UInt8) :=
  match readTyped serde.ciborium (serde.deserialized (record decodeRequest)) stdin with
  | (.ok none, _) => .error "no request arrived".toList
  | (.error e, _) => .error ("unreadable request: ".toList ++ e.message)
  | (.ok (some request), rest) =>
    match readPayload serde.ciborium payloadTexts request.len.toNat [] rest with
    | (.ok encoded, _) => .ok (request, encoded)
    | (.error message, _) => .error message

def unsupportedText (kind : Text) : Text :=
  "unsupported attachment kind ".toList ++ quoted isEscaped kind

/-- The parsers, by the kind of attachment. -/
def outcome (request : DecodeRequest) (encoded : List UInt8) : Inflate.Result Png.Decoded :=
  if request.kind = "image".toList then parsers.png encoded request.maxOutput.toNat
  else if request.kind = "audio".toList then parsers.wav encoded request.maxOutput.toNat
  else Checked.fail (unsupportedText isEscaped request.kind)

/-- `main` behind the payload. `confined` is what `confine::apply` returned. -/
def judge (confined : Except Text Unit) (request : DecodeRequest) (encoded : List UInt8) : Said :=
  match confined with
  | .error e => .failed ("refusing to decode unconfined: ".toList ++ e)
  | .ok () =>
    match outcome parsers isEscaped request encoded with
    | .ok decoded =>
      if fits : decoded.data.length < 2 ^ 63 then
        .decoded (decoded.w.map .ofNat) (decoded.h.map .ofNat) decoded.fmt
          (decoded.rate.map .ofNat) ⟨decoded.data, fits⟩
      else .nothing
    | .error (.error e) => .failed (e ++ " (".toList ++ request.hint ++ ")".toList)
    | .error .panic => .nothing
    | .error .spin => .nothing

/-- `fail`: the reply, where it can be written. -/
def fail (message : Text) : List UInt8 :=
  match writeCbor serde.ciborium
      ((record reply).enc ⟨false, message, none, none, none, none, 0⟩) with
  | .ok bytes => bytes
  | .error _ => []

/-- What comes out of the decoder. -/
def Said.bytes : Said → List UInt8
  | failed message => fail serde message
  | decoded w h fmt rate data =>
    written serde ((record reply).enc ⟨true, [], w, h, fmt, rate, .ofNat data.bytes.length⟩)
      data.bytes
  | nothing => []

/-- `main` -/
def main (confined : Except Text Unit) (stdin : Pipe) : List UInt8 :=
  match receive serde stdin with
  | .error message => fail serde message
  | .ok (request, encoded) => (judge parsers isEscaped confined request encoded).bytes serde

end Decoder

/-! ### The daemon -/

/-- A child: what it writes, and the signal that ended it, if one did, or why it could
    not be waited for. -/
structure Child where
  stdout : Pipe
  status : Except Text (Option Nat)

/-- The helper on disk, and what spawning it gives: a child for whatever is written to
    it. -/
structure Helper where
  path : Text
  installed : Bool
  spawn : Except Text (List UInt8 → Child)

section Daemon

variable (serde : Serde D)

def replyTexts : PayloadTexts :=
  ⟨"decoder interleaved a structured frame".toList, "decoder stopped mid-payload".toList,
    "decoder payload: ".toList⟩

def overLimitText (len : UInt64) : Text :=
  "decoded output of ".toList ++ Text.ofNat len.toNat ++ " bytes is over the limit".toList

def nothingText : Text := "the decoder produced nothing".toList

/-- `read_reply` -/
def readReply (stdout : Pipe) : Except Text Decoded :=
  match readTyped serde.ciborium (serde.deserialized (record reply)) stdout with
  | (.ok none, _) => .error nothingText
  | (.error e, _) => .error ("decoder reply: ".toList ++ e.message)
  | (.ok (some reply), rest) =>
    if !reply.ok then
      .error (if reply.error = [] then "decode failed".toList else reply.error)
    else if reply.len > maxDecoded then .error (overLimitText reply.len)
    else
      match readPayload serde.ciborium replyTexts reply.len.toNat [] rest with
      | (.ok data, _) => .ok ⟨reply.w, reply.h, reply.fmt, reply.rate, data⟩
      | (.error message, _) => .error message

/-- What the writer thread gets through to the child. -/
def sent (request : DecodeRequest) (payload : List UInt8) : List UInt8 :=
  written serde ((record decodeRequest).enc request) payload

def requestFor (kind : AttachKind) (hint : Text) (encoded : Buffer) : DecodeRequest :=
  ⟨kind.name, hint, .ofNat encoded.bytes.length, maxDecoded⟩

def timedOut (outcome : Except Text Decoded) : Bool :=
  match outcome with
  | .error e => decide ("ran out of time".toList <:+: e)
  | .ok _ => false

def timeoutText (deadline : Text) : Text :=
  "the decoder did not answer within ".toList ++ deadline ++ "s and was killed".toList

def sigsys : Nat := 31

def sigkill : Nat := 9

/-- What a failure is called, by the signal that ended the child. -/
def diedText (signal : Option Nat) (e : Text) : Text :=
  match signal with
  | some n =>
    if n = sigsys then
      "the decoder was killed by its own seccomp filter, which means it ".toList ++
        "attempted a syscall the filter does not allow: ".toList ++ e
    else if n = sigkill then e
    else "the decoder died on signal ".toList ++ Text.ofNat n ++ ": ".toList ++ e
  | none => e

/-- `decode_within` behind the reply. `deadline` is the time it had, in seconds. -/
def afterReply (deadline : Text) (status : Except Text (Option Nat))
    (outcome : Except Text Decoded) : Except Text Decoded :=
  match status with
  | .error e => .error ("waiting for the decoder: ".toList ++ e)
  | .ok signal =>
    if timedOut outcome then .error (timeoutText deadline)
    else
      match outcome with
      | .ok decoded => .ok decoded
      | .error e => .error (diedText signal e)

def decodeWithin (helper : Helper) (deadline : Text) (kind : AttachKind) (hint : Text)
    (encoded : Buffer) : Except Text Decoded :=
  if !helper.installed then .error (helper.path ++ " is not installed".toList)
  else
    match helper.spawn with
    | .error e => .error ("spawning the decoder: ".toList ++ e)
    | .ok run =>
      let child := run (sent serde (requestFor kind hint encoded) encoded.bytes)
      afterReply deadline child.status (readReply serde child.stdout)

end Daemon

/-! ### One end to the other -/

variable (serde : Serde D)

theorem Serde.deserialized_enc {α : Type} (codec : Codec D α) (a : α) :
    serde.deserialized codec (codec.enc a) = .ok a := by
  simp only [Serde.deserialized, codec.reads]

/-- A message that one frame can hold. -/
def Fits {α : Type} (codec : Codec D α) (a : α) : Prop :=
  (serde.ciborium.intoWriter (codec.enc a)).length ≤ maxFrame

instance {α : Type} (codec : Codec D α) (a : α) : Decidable (Fits serde codec a) :=
  inferInstanceAs (Decidable (_ ≤ _))

theorem writeRaw_large (kind : UInt8) {payload : List UInt8} (h : ¬payload.length ≤ maxFrame) :
    ∃ e, writeRaw kind payload = .error e := by
  unfold writeRaw
  split
  · exact ⟨_, rfl⟩
  · rw [if_pos (Nat.lt_of_not_le h)]
    exact ⟨_, rfl⟩

theorem writeCbor_fits {value : Value D}
    (h : (serde.ciborium.intoWriter value).length ≤ maxFrame) :
    writeCbor serde.ciborium value = .ok ((Frame.cbor value).bytes serde.ciborium) := by
  rw [writeCbor, writeRaw_fits h]
  rfl

theorem written_eq (value : Value D) (payload : List UInt8) : written serde value payload =
    if (serde.ciborium.intoWriter value).length ≤ maxFrame then
      (Frame.cbor value).bytes serde.ciborium ++
        (Item.blob payload).frames.flatMap (Frame.bytes serde.ciborium)
    else [] := by
  have hblob : writeBlob payload =
      .ok ((Item.blob payload).frames.flatMap (Frame.bytes serde.ciborium)) :=
    writeItem_fits serde.ciborium (.blob payload) trivial
  unfold written
  by_cases hfits : (serde.ciborium.intoWriter value).length ≤ maxFrame
  · rw [if_pos hfits, writeCbor_fits serde hfits]
    dsimp only
    rw [hblob]
  · obtain ⟨e, he⟩ := writeRaw_large kindCbor hfits
    rw [if_neg hfits, writeCbor, he]

theorem fail_eq (message : Text) : fail serde message =
    if Fits serde (record reply) ⟨false, message, none, none, none, none, 0⟩ then
      (Frame.cbor ((record reply).enc ⟨false, message, none, none, none, none, 0⟩)).bytes
        serde.ciborium
    else [] := by
  unfold fail
  by_cases h : Fits serde (record reply) ⟨false, message, none, none, none, none, 0⟩
  · rw [if_pos h, writeCbor_fits serde h]
  · obtain ⟨e, he⟩ := writeRaw_large kindCbor h
    rw [if_neg h, writeCbor, he]

/-- A message that stands in front of other bytes is read. -/
theorem readTyped_message {α : Type} (codec : Codec D α) (a : α) (hfits : Fits serde codec a)
    (rest : List UInt8) (script : List Answer) (ending : Option IoError) :
    ∃ next, readTyped serde.ciborium (serde.deserialized codec)
        ⟨⟨(Frame.cbor (codec.enc a)).bytes serde.ciborium ++ rest, script⟩, ending⟩ =
      (.ok (some a), ⟨next, ending⟩) ∧ next.bytes = rest :=
  readTyped_whole serde.ciborium (serde.deserialized codec) hfits rfl
    (serde.deserialized_enc codec a)

/-- The decoder reads what the daemon wrote. -/
theorem receive_sent (request : DecodeRequest) {payload : List UInt8}
    (hlen : request.len.toNat = payload.length) (script : List Answer) :
    receive serde ⟨⟨sent serde request payload, script⟩, none⟩ =
      if Fits serde (record decodeRequest) request then .ok (request, payload)
      else .error "no request arrived".toList := by
  rw [sent, written_eq]
  by_cases hfits : Fits serde (record decodeRequest) request
  · rw [if_pos hfits, if_pos (show (serde.ciborium.intoWriter _).length ≤ maxFrame from hfits)]
    obtain ⟨next, hread, hnext⟩ := readTyped_message serde (record decodeRequest) request hfits
      ((Item.blob payload).frames.flatMap (Frame.bytes serde.ciborium)) script none
    obtain ⟨last, hpayload, -⟩ := readPayload_written serde.ciborium payloadTexts payload []
      (p := ⟨next, none⟩) (by rw [hnext, List.append_nil])
    simp only [receive, hread, hlen, hpayload]
  · rw [if_neg hfits, if_neg (show ¬(serde.ciborium.intoWriter _).length ≤ maxFrame from hfits)]
    obtain ⟨next, hread⟩ := readTyped_nothing serde.ciborium
      (serde.deserialized (record (decodeRequest (D := D)))) (p := ⟨⟨[], script⟩, none⟩) rfl rfl
    simp only [receive, hread]

/-- What the daemon makes of what a decoder said. -/
def heard : Said → Except Text Decoded
  | .failed message =>
    if Fits serde (record reply) ⟨false, message, none, none, none, none, 0⟩ then
      .error (if message = [] then "decode failed".toList else message)
    else .error nothingText
  | .decoded w h fmt rate data =>
    if Fits serde (record reply) ⟨true, [], w, h, fmt, rate, .ofNat data.bytes.length⟩ then
      if data.bytes.length > maxDecoded.toNat then .error (overLimitText (.ofNat data.bytes.length))
      else .ok ⟨w, h, fmt, rate, data.bytes⟩
    else .error nothingText
  | .nothing => .error nothingText

theorem readReply_nothing (script : List Answer) :
    readReply serde ⟨⟨[], script⟩, none⟩ = .error nothingText := by
  obtain ⟨next, hread⟩ := readTyped_nothing serde.ciborium
    (serde.deserialized (record (reply (D := D)))) (p := ⟨⟨[], script⟩, none⟩) rfl rfl
  simp only [readReply, hread]

theorem Buffer.toNat_length (data : Buffer) :
    (UInt64.ofNat data.bytes.length).toNat = data.bytes.length :=
  UInt64.toNat_ofNat_of_lt' (Nat.lt_trans data.fits (by decide))

/-- The daemon reads what the decoder wrote. -/
theorem readReply_said (said : Said) (script : List Answer) :
    readReply serde ⟨⟨said.bytes serde, script⟩, none⟩ = heard serde said := by
  cases said with
  | nothing => exact readReply_nothing serde script
  | failed message =>
    show readReply serde ⟨⟨fail serde message, script⟩, none⟩ = _
    rw [fail_eq]
    by_cases hfits : Fits serde (record reply) ⟨false, message, none, none, none, none, 0⟩
    · rw [heard, if_pos hfits, if_pos hfits]
      obtain ⟨next, hread, -⟩ := readTyped_message serde (record reply) _ hfits [] script none
      rw [List.append_nil] at hread
      simp only [readReply, hread, Bool.not_false, if_true]
    · rw [heard, if_neg hfits, if_neg hfits]
      exact readReply_nothing serde script
  | decoded w h fmt rate data =>
    rw [Said.bytes, written_eq]
    by_cases hfits : Fits serde (record reply) ⟨true, [], w, h, fmt, rate, .ofNat data.bytes.length⟩
    · rw [heard, if_pos hfits,
        if_pos (show (serde.ciborium.intoWriter _).length ≤ maxFrame from hfits)]
      obtain ⟨next, hread, hnext⟩ := readTyped_message serde (record reply) _ hfits
        ((Item.blob data.bytes).frames.flatMap (Frame.bytes serde.ciborium)) script none
      have hover : UInt64.ofNat data.bytes.length > maxDecoded ↔
          data.bytes.length > maxDecoded.toNat := by
        rw [gt_iff_lt, UInt64.lt_iff_toNat_lt, data.toNat_length]
      simp only [readReply, hread, Bool.not_true, Bool.false_eq_true, if_false, hover]
      split
      · rfl
      · obtain ⟨last, hpayload, -⟩ := readPayload_written serde.ciborium replyTexts data.bytes []
          (p := ⟨next, none⟩) (by rw [hnext, List.append_nil])
        rw [data.toNat_length, hpayload]
    · rw [heard, if_neg hfits,
        if_neg (show ¬(serde.ciborium.intoWriter _).length ≤ maxFrame from hfits)]
      exact readReply_nothing serde script

/-- The child that the decoder is, and the pieces in which the two pipes hand out their
    bytes. -/
def decoderChild (parsers : Parsers) (isEscaped : Char → Bool) (confined : Except Text Unit)
    (script script' : List Answer) (signal : Option Nat) (stdin : List UInt8) : Child :=
  ⟨⟨⟨main serde parsers isEscaped confined ⟨⟨stdin, script⟩, none⟩, script'⟩, none⟩, .ok signal⟩

/-- **The pipes do not matter.** What the daemon gets from a decoder is what the decoder
    makes of the attachment it was given, or says is wrong with it, whatever the pieces
    are in which the pipes hand out the bytes. A request or a reply that no frame can hold
    is not written, and then it is as if nothing had been said. -/
theorem decoded_across_the_pipe (parsers : Parsers) (isEscaped : Char → Bool)
    (confined : Except Text Unit) (script script' : List Answer) (signal : Option Nat)
    (path deadline : Text) (kind : AttachKind) (hint : Text) (encoded : Buffer) :
    decodeWithin serde
        ⟨path, true, .ok (decoderChild serde parsers isEscaped confined script script' signal)⟩
        deadline kind hint encoded =
      afterReply deadline (.ok signal) (heard serde
        (if Fits serde (record decodeRequest) (requestFor kind hint encoded) then
          judge parsers isEscaped confined (requestFor kind hint encoded) encoded.bytes
        else .failed "no request arrived".toList)) := by
  have hreceive := receive_sent serde (requestFor kind hint encoded) encoded.toNat_length script
  simp only [decodeWithin, decoderChild, Bool.not_true, Bool.false_eq_true, if_false, main,
    hreceive]
  by_cases hfits : Fits serde (record decodeRequest) (requestFor kind hint encoded)
  · simp only [if_pos hfits, readReply_said]
  · have hsaid := readReply_said serde (.failed "no request arrived".toList) script'
    rw [Said.bytes] at hsaid
    simp only [if_neg hfits, hsaid]

/-! ### A decoder that breaks off -/

/-- What a read of the pipe said, where it failed, is in the message. -/
def Tells (ending : Option IoError) (outcome : Except Text Decoded) : Prop :=
  ∃ e, outcome = .error e ∧ ∀ err, ending = some err → err.message <:+: e

/-- A reply that is not all there is an error. -/
theorem readReply_header {value : Value D}
    (hfits : (serde.ciborium.intoWriter value).length ≤ maxFrame) {k : Nat}
    (hcut : k < ((Frame.cbor value).bytes serde.ciborium).length) (script : List Answer)
    (ending : Option IoError) :
    Tells ending
      (readReply serde ⟨⟨((Frame.cbor value).bytes serde.ciborium).take k, script⟩, ending⟩) := by
  have hframe : (Frame.cbor value).Fits serde.ciborium := hfits
  rcases Pipe.readFrame_cut serde.ciborium hframe hcut
    (rfl : (Pipe.mk ⟨_, script⟩ ending).source.bytes = _) with ⟨hending, hresult⟩ | ⟨e, hresult, he⟩
  · refine ⟨nothingText, ?_, ?_⟩
    · simp only [readReply, readTyped_none _ _ hresult]
    · intro err herr
      rw [show ending = none from hending] at herr
      cases herr
  · refine ⟨"decoder reply: ".toList ++ e.message, ?_, ?_⟩
    · simp only [readReply, readTyped_error _ _ hresult]
    · intro err herr
      rw [he err herr]
      exact (List.suffix_append _ _).isInfix

/-- Nothing is an error too. -/
theorem readReply_empty (script : List Answer) (ending : Option IoError) :
    Tells ending (readReply serde ⟨⟨[], script⟩, ending⟩) := by
  cases ending with
  | none => exact ⟨nothingText, readReply_nothing serde script, by simp⟩
  | some err =>
    have hend : (Pipe.readFrame serde.ciborium ⟨⟨[], script⟩, some err⟩).1 = .error err := by
      simp only [Pipe.readFrame,
        readFrame_end serde.ciborium (rfl : (Source.mk [] script).bytes = []),
        atEnd]
    refine ⟨"decoder reply: ".toList ++ err.message, ?_, ?_⟩
    · simp only [readReply, readTyped_error _ _ hend]
    · rintro _ ⟨rfl⟩
      exact (List.suffix_append _ _).isInfix

/-- What was decoded is more than the daemon takes. -/
def Said.TooLarge : Said → Prop
  | decoded _ _ _ _ data => data.bytes.length > maxDecoded.toNat
  | _ => False

/-- A payload that is not all there is an error. -/
theorem readReply_payload {w h : Option UInt32} {fmt : Option Text} {rate : Option UInt32}
    {data : Buffer}
    (hfits : Fits serde (record reply) ⟨true, [], w, h, fmt, rate, .ofNat data.bytes.length⟩)
    {k : Nat}
    (hcut : k < ((Item.blob data.bytes).frames.flatMap (Frame.bytes serde.ciborium)).length)
    (script : List Answer) (ending : Option IoError) :
    ∃ e, readReply serde ⟨⟨(Frame.cbor ((record reply).enc
          ⟨true, [], w, h, fmt, rate, .ofNat data.bytes.length⟩)).bytes serde.ciborium ++
        ((Item.blob data.bytes).frames.flatMap (Frame.bytes serde.ciborium)).take k, script⟩,
        ending⟩ = .error e ∧
      (¬(Said.decoded w h fmt rate data).TooLarge →
        ∀ err, ending = some err → err.message <:+: e) := by
  obtain ⟨next, hread, hnext⟩ := readTyped_message serde (record reply) _ hfits
    (((Item.blob data.bytes).frames.flatMap (Frame.bytes serde.ciborium)).take k) script ending
  by_cases hover : UInt64.ofNat data.bytes.length > maxDecoded
  · refine ⟨overLimitText (.ofNat data.bytes.length), ?_, ?_⟩
    · simp only [readReply, hread, Bool.not_true, Bool.false_eq_true, if_false, hover, if_true]
    · intro hsmall
      rw [gt_iff_lt, UInt64.lt_iff_toNat_lt, data.toNat_length] at hover
      exact absurd hover hsmall
  · obtain ⟨message, last, hpayload, hmessage⟩ := readPayload_cut serde.ciborium replyTexts
      data.bytes (p := ⟨next, ending⟩) hcut hnext
    refine ⟨message, ?_, ?_⟩
    · simp only [readReply, hread, Bool.not_true, Bool.false_eq_true, if_false, hover,
        data.toNat_length, hpayload]
    · intro _ err herr
      rw [hmessage err herr]
      exact (List.suffix_append _ _).isInfix

/-- Where a decoder's output stops before its end the daemon reads an error, and where it
    was the read that failed the error says how. -/
theorem readReply_cut (said : Said) (lost : Nat) (script : List Answer) (ending : Option IoError) :
    ∃ e, readReply serde
        ⟨⟨(said.bytes serde).take ((said.bytes serde).length - (lost + 1)), script⟩, ending⟩ =
      .error e ∧
      (¬said.TooLarge → ∀ err, ending = some err → err.message <:+: e) := by
  have hnothing : Tells ending (readReply serde
      ⟨⟨([] : List UInt8).take (([] : List UInt8).length - (lost + 1)), script⟩, ending⟩) := by
    rw [List.take_nil]
    exact readReply_empty serde script ending
  have hweaken : ∀ {outcome}, Tells ending outcome →
      ∃ e, outcome = .error e ∧ (¬said.TooLarge → ∀ err, ending = some err → err.message <:+: e) :=
    fun ⟨e, he, htells⟩ => ⟨e, he, fun _ => htells⟩
  cases said with
  | nothing => exact hweaken hnothing
  | failed message =>
    rw [Said.bytes, fail_eq]
    by_cases hfits : Fits serde (record reply) ⟨false, message, none, none, none, none, 0⟩
    · rw [if_pos hfits]
      refine hweaken (readReply_header serde hfits ?_ script ending)
      have hlength := (Frame.cbor ((record reply).enc
        ⟨false, message, none, none, none, none, 0⟩)).length_bytes serde.ciborium
      omega
    · rw [if_neg hfits]
      exact hweaken hnothing
  | decoded w h fmt rate data =>
    rw [Said.bytes, written_eq]
    by_cases hfits : Fits serde (record reply) ⟨true, [], w, h, fmt, rate, .ofNat data.bytes.length⟩
    · rw [if_pos (show (serde.ciborium.intoWriter _).length ≤ maxFrame from hfits)]
      generalize hk : (_ : List UInt8).length - (lost + 1) = k
      have hlength := (Frame.cbor ((record reply).enc
        ⟨true, [], w, h, fmt, rate, .ofNat data.bytes.length⟩)).length_bytes serde.ciborium
      rw [List.length_append] at hk
      by_cases hheader : k < ((Frame.cbor ((record reply).enc
          ⟨true, [], w, h, fmt, rate, .ofNat data.bytes.length⟩)).bytes serde.ciborium).length
      · rw [List.take_append_of_le_length (Nat.le_of_lt hheader)]
        exact hweaken (readReply_header serde hfits hheader script ending)
      · -- the cut is behind the reply, inside the payload
        rw [List.take_append, List.take_of_length_le (Nat.not_lt.mp hheader)]
        exact readReply_payload serde hfits (by omega) script ending
    · rw [if_neg (show ¬(serde.ciborium.intoWriter _).length ≤ maxFrame from hfits)]
      exact hweaken hnothing

/-- What a read says when the deadline has passed. -/
def deadlinePassed : IoError := .other "the decoder ran out of time".toList

/-- What the decoder has to say to what it is given. -/
def answer (parsers : Parsers) (isEscaped : Char → Bool) (confined : Except Text Unit)
    (stdin : Pipe) : Said :=
  match receive serde stdin with
  | .error message => .failed message
  | .ok (request, encoded) => judge parsers isEscaped confined request encoded

theorem main_eq (parsers : Parsers) (isEscaped : Char → Bool) (confined : Except Text Unit)
    (stdin : Pipe) : main serde parsers isEscaped confined stdin =
      (answer serde parsers isEscaped confined stdin).bytes serde := by
  unfold main answer
  split <;> simp_all [Said.bytes]

/-- A decoder whose last bytes do not arrive, because it died or was too slow. -/
def brokenChild (parsers : Parsers) (isEscaped : Char → Bool) (confined : Except Text Unit)
    (script script' : List Answer) (lost : Nat) (ending : Option IoError) (signal : Option Nat)
    (stdin : List UInt8) : Child :=
  let out := main serde parsers isEscaped confined ⟨⟨stdin, script⟩, none⟩
  ⟨⟨⟨out.take (out.length - (lost + 1)), script'⟩, ending⟩, .ok signal⟩

/-- The words by which a time-out is known. -/
theorem timedOut_of_said {e : Text} (h : deadlinePassed.message <:+: e) :
    timedOut (.error e) = true := by
  have hwords : "ran out of time".toList <:+: deadlinePassed.message := by decide
  exact decide_eq_true (hwords.trans h)

/-- **No part of a picture is taken for one.** A decoder that dies, or is killed at the
    deadline, before all it had to say has arrived costs the attachment: the daemon has an
    error, and where it was the deadline the error says so. -/
theorem broken_decoder (parsers : Parsers) (isEscaped : Char → Bool) (confined : Except Text Unit)
    (script script' : List Answer) (lost : Nat) (ending : Option IoError) (signal : Option Nat)
    (path deadline : Text) (kind : AttachKind) (hint : Text) (encoded : Buffer) :
    ∃ e, decodeWithin serde
        ⟨path, true,
          .ok (brokenChild serde parsers isEscaped confined script script' lost ending signal)⟩
        deadline kind hint encoded = .error e ∧
      (ending = some deadlinePassed →
        ¬(answer serde parsers isEscaped confined
          ⟨⟨sent serde (requestFor kind hint encoded) encoded.bytes, script⟩, none⟩).TooLarge →
        e = timeoutText deadline) := by
  have hcut := readReply_cut serde (answer serde parsers isEscaped confined
    ⟨⟨sent serde (requestFor kind hint encoded) encoded.bytes, script⟩, none⟩) lost script' ending
  obtain ⟨e, hread, htells⟩ := hcut
  rw [← main_eq] at hread
  simp only [decodeWithin, brokenChild, Bool.not_true, Bool.false_eq_true, if_false, hread,
    afterReply]
  by_cases htimed : timedOut (.error e) = true
  · exact ⟨timeoutText deadline, by rw [if_pos htimed], fun _ _ => rfl⟩
  · refine ⟨diedText signal e, by rw [if_neg htimed], ?_⟩
    intro hdeadline hsmall
    exact absurd (timedOut_of_said (htells hsmall deadlinePassed hdeadline)) htimed

/-! ### Any other child -/

/-- What was taken is what a reply announced, and no more than the daemon holds: less than
    one frame above the limit. -/
def Accountable (stdout : Pipe) : Except Text Decoded → Prop
  | .error _ => True
  | .ok d => ∃ announced rest,
    readTyped serde.ciborium (serde.deserialized (record reply)) stdout =
      (.ok (some announced), rest) ∧
    announced.ok = true ∧ announced.len ≤ maxDecoded ∧
    d = ⟨announced.w, announced.h, announced.fmt, announced.rate, d.data⟩ ∧
    announced.len.toNat ≤ d.data.length ∧ d.data.length < maxDecoded.toNat + maxFrame

theorem readReply_accountable (stdout : Pipe) :
    Accountable serde stdout (readReply serde stdout) := by
  unfold readReply
  split
  · exact trivial
  · exact trivial
  · rename_i announced rest hread
    split
    · exact trivial
    · rename_i hok
      split
      · exact trivial
      · rename_i hlimit
        rw [gt_iff_lt, UInt64.not_lt] at hlimit
        split
        · rename_i data next hpayload
          obtain ⟨-, hlen, hmore⟩ := readPayload_bounded serde.ciborium replyTexts hpayload
          have hle := UInt64.le_iff_toNat_le.mp hlimit
          refine ⟨announced, rest, hread, by simpa using hok, hlimit, rfl, hlen, ?_⟩
          rcases hmore with rfl | hmore
          · have hframe : 0 < maxFrame := by decide
            exact Nat.lt_of_lt_of_le hframe (Nat.le_add_left maxFrame _)
          · exact Nat.lt_of_lt_of_le hmore (Nat.add_le_add_right hle maxFrame)
        · exact trivial

end AiDaemon.DecodeExchange
