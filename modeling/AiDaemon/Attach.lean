import AiDaemon.Dispatch
import AiDaemon.Settlement

/-!
# Taking an attachment (`session.rs`: `attach`, `check_attachment_budget`, `run`)

An `Attach` request says how many bytes follow it, and they follow as blob frames.
Whatever becomes of the attachment, its bytes have to leave the stream, or the
frames behind them would be read as something else; where they cannot, the session
ends.

The frames of a session are those its reader hands to the worker.  A `Cancel` is
not among them, since the reader acts on it itself.  The stream of the client ends
where the list does.
-/

namespace AiDaemon.Attach

open Dispatch Framing Ledger Proto Settlement Transition Turn

variable {R F J V : Type}

/-! ### The source -/

structure AttachmentBudget where
  maxBytes : UInt64
  maxPixels : UInt64
  maxSamples : UInt64
  maxPerSession : UInt32
  allowEncoded : Bool

/-- `decode::Decoded`. -/
structure Decoded where
  w : Option UInt32
  h : Option UInt32
  fmt : Option Text
  rate : Option UInt32
  data : List UInt8

/-- What the decoder process answers. -/
abbrev Decoder := AttachKind → Text → List UInt8 → Except Text Decoded

def tooLargeText (len maxBytes : UInt64) : Text :=
  "attachment of ".toList ++ Text.ofNat len.toNat ++ " bytes exceeds the ".toList ++
    Text.ofNat maxBytes.toNat ++ " byte limit".toList

def tooManyText (maxPerSession : UInt32) : Text :=
  "this session may hold ".toList ++ Text.ofNat maxPerSession.toNat ++ " attachments".toList

def interruptedText : Text := "attachment interrupted by a request frame".toList

def overshotText : Text := "attachment BLOBs exceeded the declared length".toList

def rawOnlyText : Text :=
  "this install accepts raw pixels and PCM only; decode client-side".toList

def pixelLimitText (pixels maxPixels : UInt64) : Text :=
  Text.ofNat pixels.toNat ++ " pixels exceeds the ".toList ++ Text.ofNat maxPixels.toNat ++
    " pixel limit".toList

def unsupportedText (isEscaped : Char → Bool) (fmt : Text) : Text :=
  "unsupported pixel format ".toList ++ quoted isEscaped fmt

def wrongSizeText (w h expected : UInt64) (fmt : Option Text) (got : Nat) : Text :=
  Text.ofNat w.toNat ++ "x".toList ++ Text.ofNat h.toNat ++ " ".toList ++
    fmt.getD "rgba8".toList ++ " needs ".toList ++ Text.ofNat expected.toNat ++
    " bytes, got ".toList ++ Text.ofNat got

def sampleLimitText (samples maxSamples : UInt64) : Text :=
  Text.ofNat samples.toNat ++ " samples exceeds the ".toList ++ Text.ofNat maxSamples.toNat ++
    " sample limit".toList

section Source

variable (isEscaped : Char → Bool) (budget : AttachmentBudget)

def bytesPerPixel : Option Text → Except Text UInt64
  | none => .ok 4
  | some fmt =>
    if fmt = "rgb8".toList then .ok 3
    else if fmt = "rgba8".toList then .ok 4
    else .error (unsupportedText isEscaped fmt)

def checkImage (raw : RawAttachment) : Except Text Unit :=
  let w := (raw.w.getD 0).toUInt64
  let h := (raw.h.getD 0).toUInt64
  if w = 0 ∨ h = 0 then .error "an image attachment needs w and h".toList
  else
    let pixels := saturatingMul w h
    if pixels > budget.maxPixels then .error (pixelLimitText pixels budget.maxPixels)
    else
      match bytesPerPixel isEscaped raw.fmt with
      | .error reason => .error reason
      | .ok perPixel =>
        let expected := saturatingMul pixels perPixel
        if .ofNat raw.data.length ≠ expected then
          .error (wrongSizeText w h expected raw.fmt raw.data.length)
        else .ok ()

def checkAudio (raw : RawAttachment) : Except Text Unit :=
  if raw.rate.getD 0 = 0 then .error "an audio attachment needs a sample rate".toList
  else
    let samples := UInt64.ofNat raw.data.length / 4
    if samples > budget.maxSamples then .error (sampleLimitText samples budget.maxSamples)
    else if raw.data.length % 4 ≠ 0 then .error "audio must be mono float32 PCM".toList
    else .ok ()

def checkAttachmentBudget (kind : AttachKind) (raw : RawAttachment) : Except Text Unit :=
  match kind with
  | .image => checkImage isEscaped budget raw
  | .audio => checkAudio budget raw

/-- The loop that reads the payload: the payload, or the error the client is sent, if
    it is sent one, and the frames that are left. -/
def drain (len : UInt64) (payload : List UInt8) (frames : List (Frame V)) :
    Except (Option ErrorBody) (List UInt8) × List (Frame V) :=
  if payload.length < len.toNat then
    match frames with
    | [] => (.error none, [])
    | .cbor _ :: rest => (.error (some ⟨"protocol".toList, interruptedText⟩), rest)
    | .blob chunk :: rest =>
      if (payload ++ chunk).length > len.toNat then
        (.error (some ⟨"protocol".toList, overshotText⟩), rest)
      else drain len (payload ++ chunk) rest
  else (.ok payload, frames)

/-- `attach` up to the end of the payload. -/
def receive (held : Nat) (len : UInt64) (frames : List (Frame V)) :
    Except (Option ErrorBody) (List UInt8) × List (Frame V) :=
  if len > budget.maxBytes then
    (.error (some ⟨"policy-denied".toList, tooLargeText len budget.maxBytes⟩), frames)
  else if UInt32.ofNat held ≥ budget.maxPerSession then
    (.error (some ⟨"policy-denied".toList, tooManyText budget.maxPerSession⟩), frames)
  else drain len [] frames

/-- The attachment a payload is. -/
def rawOf (decode : Decoder) (id : Text) (kind : AttachKind) (attachMeta : AttachMeta)
    (payload : List UInt8) : Except ErrorBody RawAttachment :=
  match attachMeta.encoded with
  | some hint =>
    if !budget.allowEncoded then .error ⟨"attachment-unsupported".toList, rawOnlyText⟩
    else
      match decode kind hint payload with
      | .ok decoded =>
        .ok ⟨id, kind.name, decoded.w, decoded.h, decoded.fmt, decoded.rate, decoded.data⟩
      | .error reason => .error ⟨"attachment-unsupported".toList, reason⟩
  | none =>
    .ok ⟨id, kind.name, attachMeta.w, attachMeta.h, attachMeta.fmt, attachMeta.rate, payload⟩

/-- What a session holds. -/
structure Held where
  attachments : Table Text RawAttachment
  attachmentBytes : UInt64

def Held.count (held : Held) : Nat := held.attachments.keys.length

def Held.insert (held : Held) (id : Text) (raw : RawAttachment) : Held where
  attachments := held.attachments.insert id raw
  attachmentBytes := held.attachmentBytes + .ofNat raw.data.length

/-- What `attach` returns, with the event it sends where it fails, and what it leaves. -/
structure Attached (V : Type) where
  result : Except (Option ErrorBody × Bool) Unit
  held : Held
  frames : List (Frame V)

def attach (decode : Decoder) (held : Held) (id : Text) (kind : AttachKind)
    (attachMeta : AttachMeta) (len : UInt64) (frames : List (Frame V)) : Attached V :=
  match receive budget held.count len frames with
  | (.error body, rest) => ⟨.error (body, true), held, rest⟩
  | (.ok payload, rest) =>
    match rawOf budget decode id kind attachMeta payload with
    | .error body => ⟨.error (some body, false), held, rest⟩
    | .ok raw =>
      match checkAttachmentBudget isEscaped budget kind raw with
      | .error reason => ⟨.error (some ⟨"policy-denied".toList, reason⟩, false), held, rest⟩
      | .ok () => ⟨.ok (), held.insert id raw, rest⟩

end Source

/-- A worker with its session's attachments and the frames it has not taken. -/
structure Served (F J V : Type) where
  worker : Worker F J
  held : Held
  frames : List (Frame V)

inductive Turned (F : Type) where
  /-- The worker takes the next frame. -/
  | take (env : Env) (decode : Decoder)
  | arrival (x : Arrival F) (bytesTaken : Bool)
  /-- The session was closed. -/
  | leave

section Run

variable (w : TurnWorker R J) (info : SessionInfo) (budget : AttachmentBudget)
variable (deserialized : V → Except Text (Request F J))

/-- What the next frame is to the worker, and what is left when it has been dealt
    with. -/
def Served.next (st : Served F J V) (env : Env) (decode : Decoder) :
    Act F J × Held × List (Frame V) :=
  match st.frames with
  | [] => (.leave, st.held, [])
  | .blob _ :: rest => (.strayBlob env.delivered, st.held, rest)
  | .cbor value :: rest =>
    match deserialized value with
    | .error reason => (.unrecognised reason env.delivered, st.held, rest)
    | .ok (.attach id kind attachMeta len) =>
      let made := attach w.isEscaped budget decode st.held id kind attachMeta len rest
      (.request (.attach id kind attachMeta len) { env with attached := made.result }, made.held,
        made.frames)
    | .ok request => (.request request env, st.held, rest)

/-- One round of `run`, or one of the loop it is in. -/
def servedStep (st : Served F J V) : Turned F → Option (Served F J V)
  | .take env decode =>
    let (act, held, frames) := st.next w budget deserialized env decode
    (workerStep w info st.worker act).map fun worker => ⟨worker, held, frames⟩
  | .arrival x bytesTaken =>
    (workerStep w info st.worker (.arrival x bytesTaken)).map fun worker =>
      { st with worker := worker }
  | .leave => (workerStep w info st.worker .leave).map fun worker => { st with worker := worker }

end Run

/-! ### What a payload is -/

/-- The chunks come to `n` bytes, and not before the last of them. -/
def Comes (n : Nat) (chunks : List (List UInt8)) : Prop :=
  chunks.flatten.length = n ∧
    ∀ before after, chunks = before ++ after → after ≠ [] → before.flatten.length < n

/-- The frames begin with blobs that come to `n` bytes, and `rest` is behind them. -/
def Carries (n : Nat) (frames rest : List (Frame V)) : Prop :=
  ∃ chunks, Comes n chunks ∧ frames = chunks.map Frame.blob ++ rest

/-- `Err(true)`. -/
def Attached.fatal (made : Attached V) : Bool :=
  match made.result with
  | .error (_, fatal) => fatal
  | .ok () => false

/-- No more attachments than there may be, each under its own id and within the budget of
    its kind. -/
structure InBudget (isEscaped : Char → Bool) (budget : AttachmentBudget) (held : Held) : Prop where
  count_le : held.count ≤ budget.maxPerSession.toNat
  checked : ∀ id raw, held.attachments.lookup id = some raw → raw.id = id ∧
    ∃ kind : AttachKind, raw.kind = kind.name ∧
      checkAttachmentBudget isEscaped budget kind raw = .ok ()

theorem comes_nil {n : Nat} : Comes n [] ↔ n = 0 := by
  constructor
  · intro h
    exact h.1.symm
  · rintro rfl
    refine ⟨rfl, ?_⟩
    intro before after happ hafter
    exact absurd (List.append_eq_nil_iff.mp happ.symm).2 hafter

theorem comes_cons {n : Nat} {chunk : List UInt8} {chunks : List (List UInt8)} :
    Comes n (chunk :: chunks) ↔ 0 < n ∧ chunk.length ≤ n ∧ Comes (n - chunk.length) chunks := by
  constructor
  · rintro ⟨htotal, hbefore⟩
    have hpos : 0 < n := hbefore [] (chunk :: chunks) rfl (List.cons_ne_nil _ _)
    rw [List.flatten_cons, List.length_append] at htotal
    refine ⟨hpos, by omega, by omega, ?_⟩
    intro before after happ hafter
    have hlt := hbefore (chunk :: before) after (by rw [happ, List.cons_append]) hafter
    rw [List.flatten_cons, List.length_append] at hlt
    omega
  · rintro ⟨hpos, hfits, htotal, hbefore⟩
    refine ⟨by rw [List.flatten_cons, List.length_append, htotal]; omega, ?_⟩
    intro before after happ hafter
    rcases List.cons_eq_append_iff.mp happ with ⟨rfl, -⟩ | ⟨front, rfl, rfl⟩
    · exact hpos
    · have hlt := hbefore front after rfl hafter
      rw [List.flatten_cons, List.length_append]
      omega

theorem carries_zero {frames rest : List (Frame V)} : Carries 0 frames rest ↔ frames = rest := by
  constructor
  · rintro ⟨chunks, hcomes, rfl⟩
    cases chunks with
    | nil => rfl
    | cons chunk chunks => exact absurd (comes_cons.mp hcomes).1 (Nat.lt_irrefl 0)
  · rintro rfl
    exact ⟨[], comes_nil.mpr rfl, rfl⟩

theorem not_carries_nil {n : Nat} (hpos : 0 < n) (rest : List (Frame V)) : ¬Carries n [] rest := by
  rintro ⟨chunks, hcomes, happ⟩
  obtain ⟨hmap, -⟩ := List.append_eq_nil_iff.mp happ.symm
  rw [List.map_eq_nil_iff] at hmap
  subst hmap
  exact absurd (comes_nil.mp hcomes) (Nat.ne_of_gt hpos)

theorem not_carries_cbor {n : Nat} (hpos : 0 < n) (value : V) (frames rest : List (Frame V)) :
    ¬Carries n (.cbor value :: frames) rest := by
  rintro ⟨chunks, hcomes, happ⟩
  cases chunks with
  | nil => exact absurd (comes_nil.mp hcomes) (Nat.ne_of_gt hpos)
  | cons chunk chunks =>
    rw [List.map_cons, List.cons_append] at happ
    simp at happ

theorem carries_blob {n : Nat} (hpos : 0 < n) (chunk : List UInt8) (frames rest : List (Frame V)) :
    Carries n (.blob chunk :: frames) rest ↔
      chunk.length ≤ n ∧ Carries (n - chunk.length) frames rest := by
  constructor
  · rintro ⟨chunks, hcomes, happ⟩
    cases chunks with
    | nil => exact absurd (comes_nil.mp hcomes) (Nat.ne_of_gt hpos)
    | cons first chunks =>
      obtain ⟨-, hfits, hrest⟩ := comes_cons.mp hcomes
      rw [List.map_cons, List.cons_append] at happ
      obtain ⟨hfirst, hframes⟩ := List.cons.inj happ
      rw [Frame.blob.injEq] at hfirst
      subst hfirst
      exact ⟨hfits, chunks, hrest, hframes⟩
  · rintro ⟨hfits, chunks, hcomes, rfl⟩
    exact ⟨chunk :: chunks, comes_cons.mpr ⟨hpos, hfits, hcomes⟩, rfl⟩

/-- There is one way to read a payload. -/
theorem Carries.unique {n : Nat} {frames rest rest' : List (Frame V)} (h : Carries n frames rest)
    (h' : Carries n frames rest') : rest = rest' := by
  induction frames generalizing n with
  | nil =>
    obtain rfl | hpos := Nat.eq_zero_or_pos n
    · rw [← carries_zero.mp h, ← carries_zero.mp h']
    · exact absurd h (not_carries_nil hpos rest)
  | cons frame frames ih =>
    obtain rfl | hpos := Nat.eq_zero_or_pos n
    · rw [← carries_zero.mp h, ← carries_zero.mp h']
    · cases frame with
      | cbor value => exact absurd h (not_carries_cbor hpos value frames rest)
      | blob chunk =>
        exact ih ((carries_blob hpos chunk frames rest).mp h).2
          ((carries_blob hpos chunk frames rest').mp h').2

/-! ### What is read of the stream -/

/-- The loop gets a payload exactly where the frames carry what is missing of it, and then
    it leaves what is behind. -/
theorem drain_ok {len : UInt64} {payload : List UInt8} {frames : List (Frame V)}
    (hwithin : payload.length ≤ len.toNat) (rest : List (Frame V)) :
    (∃ whole, drain len payload frames = (.ok whole, rest)) ↔
      Carries (len.toNat - payload.length) frames rest := by
  induction frames generalizing payload with
  | nil =>
    unfold drain
    by_cases hshort : payload.length < len.toNat
    · rw [if_pos hshort]
      have hnone := not_carries_nil (V := V) (Nat.sub_pos_of_lt hshort) rest
      simp [hnone]
    · have hdone : len.toNat - payload.length = 0 := by omega
      rw [if_neg hshort, hdone, carries_zero]
      simp
  | cons frame frames ih =>
    unfold drain
    by_cases hshort : payload.length < len.toNat
    · rw [if_pos hshort]
      have hpos := Nat.sub_pos_of_lt hshort
      cases frame with
      | cbor value => simp [not_carries_cbor hpos]
      | blob chunk =>
        rw [carries_blob hpos]
        by_cases hover : (payload ++ chunk).length > len.toNat
        · have hlong : ¬chunk.length ≤ len.toNat - payload.length := by
            rw [List.length_append] at hover
            omega
          refine iff_of_false ?_ fun h => hlong h.1
          rintro ⟨whole, heq⟩
          simp only [if_pos hover, Prod.mk.injEq, reduceCtorEq, false_and] at heq
        · have hfits : chunk.length ≤ len.toNat - payload.length := by
            rw [List.length_append] at hover
            omega
          have hleft : len.toNat - (payload ++ chunk).length =
              len.toNat - payload.length - chunk.length := by
            rw [List.length_append]
            omega
          simp only [if_neg hover]
          rw [ih (Nat.not_lt.mp hover), hleft]
          simp [hfits]
    · have hdone : len.toNat - payload.length = 0 := by omega
      rw [if_neg hshort, hdone, carries_zero]
      simp

/-- What a session has to find for its stream to stay in step. -/
def Readable (budget : AttachmentBudget) (held : Nat) (len : UInt64)
    (frames rest : List (Frame V)) : Prop :=
  len ≤ budget.maxBytes ∧ UInt32.ofNat held < budget.maxPerSession ∧
    Carries len.toNat frames rest

theorem receive_ok {budget : AttachmentBudget} {held : Nat} {len : UInt64}
    {frames : List (Frame V)} (rest : List (Frame V)) :
    (∃ payload, receive budget held len frames = (.ok payload, rest)) ↔
      Readable budget held len frames rest := by
  unfold receive Readable
  by_cases hlarge : len > budget.maxBytes
  · simp [hlarge, UInt64.not_le.mpr hlarge]
  · by_cases hmany : UInt32.ofNat held ≥ budget.maxPerSession
    · simp [hlarge, hmany, UInt32.not_lt.mpr hmany]
    · rw [if_neg hlarge, if_neg hmany, drain_ok (Nat.zero_le _) rest]
      simp [UInt64.not_lt.mp hlarge, UInt32.not_le.mp hmany]

section Attach

variable {isEscaped : Char → Bool} {budget : AttachmentBudget} {decode : Decoder} {held : Held}
variable {id : Text} {kind : AttachKind} {attachMeta : AttachMeta} {len : UInt64}
variable {frames : List (Frame V)}

/-- Whatever becomes of a payload that was read, its frames are gone and the session goes
    on; where it was not read, the session ends. -/
theorem attach_fatal (rest : List (Frame V)) :
    ((attach isEscaped budget decode held id kind attachMeta len frames).fatal = false ∧
        (attach isEscaped budget decode held id kind attachMeta len frames).frames = rest) ↔
      Readable budget held.count len frames rest := by
  rw [← receive_ok]
  unfold attach
  rcases hreceive : receive budget held.count len frames with ⟨body | payload, left⟩
  · simp [Attached.fatal]
  · cases hraw : rawOf budget decode id kind attachMeta payload with
    | error body => simp [Attached.fatal, hraw]
    | ok raw =>
      cases hchecked : checkAttachmentBudget isEscaped budget kind raw with
      | error reason => simp [Attached.fatal, hraw, hchecked]
      | ok => simp [Attached.fatal, hraw, hchecked]

theorem rawOf_ok {payload : List UInt8} {raw : RawAttachment}
    (hraw : rawOf budget decode id kind attachMeta payload = .ok raw) :
    raw.id = id ∧ raw.kind = kind.name := by
  unfold rawOf at hraw
  split at hraw
  · split at hraw
    · simp at hraw
    · split at hraw
      · simp only [Except.ok.injEq] at hraw
        subst hraw
        exact ⟨rfl, rfl⟩
      · simp at hraw
  · simp only [Except.ok.injEq] at hraw
    subst hraw
    exact ⟨rfl, rfl⟩

variable (isEscaped budget decode held id kind attachMeta len frames) in
/-- What is held changes where the attachment was taken, and then by one that passed. -/
theorem attach_held :
    (attach isEscaped budget decode held id kind attachMeta len frames).held = held ∨
      ∃ raw, (attach isEscaped budget decode held id kind attachMeta len frames).held =
          held.insert id raw ∧
        UInt32.ofNat held.count < budget.maxPerSession ∧ raw.id = id ∧ raw.kind = kind.name ∧
        checkAttachmentBudget isEscaped budget kind raw = .ok () := by
  unfold attach
  rcases hreceive : receive budget held.count len frames with ⟨body | payload, rest⟩
  · exact .inl rfl
  · dsimp only
    split
    · exact .inl rfl
    · rename_i raw hraw
      split
      · exact .inl rfl
      · rename_i hpassed
        obtain ⟨hid, hkind⟩ := rawOf_ok hraw
        obtain ⟨-, hroom, -⟩ := (receive_ok rest).mp ⟨payload, hreceive⟩
        exact .inr ⟨raw, rfl, hroom, hid, hkind, hpassed⟩

theorem InBudget.attach (h : InBudget isEscaped budget held) :
    InBudget isEscaped budget
      (attach isEscaped budget decode held id kind attachMeta len frames).held := by
  rcases attach_held isEscaped budget decode held id kind attachMeta len frames with
    hsame | ⟨raw, hinsert, hroom, hid, hkind, hpassed⟩
  · rw [hsame]
    exact h
  · rw [hinsert]
    constructor
    · -- the count is below the limit, so it has not wrapped
      have hsmall : held.count < 2 ^ 32 := h.count_le.trans_lt budget.maxPerSession.toNat_lt
      rw [UInt32.lt_iff_toNat_lt, UInt32.toNat_ofNat_of_lt' hsmall] at hroom
      exact (keys_length_insert_le held.attachments id raw).trans hroom
    · intro other found hlookup
      by_cases hother : other = id
      · subst hother
        simp only [Held.insert, AList.lookup_insert, Option.some.injEq] at hlookup
        subst hlookup
        exact ⟨hid, kind, hkind, hpassed⟩
      · simp only [Held.insert, AList.lookup_insert_ne hother] at hlookup
        exact h.checked other found hlookup

end Attach

/-! ### The session -/

section Run

variable {w : TurnWorker R J} {info : SessionInfo} {budget : AttachmentBudget}
variable {deserialized : V → Except Text (Request F J)}

/-- The step that takes an `Attach` request. -/
theorem step_attach {st : Served F J V} {value : V} {after : List (Frame V)} {id : Text}
    {kind : AttachKind} {attachMeta : AttachMeta} {len : UInt64} (hidle : st.worker.phase = .idle)
    (hframes : st.frames = .cbor value :: after)
    (hrequest : deserialized value = .ok (.attach id kind attachMeta len)) (env : Env)
    (decode : Decoder) :
    let made := attach w.isEscaped budget decode st.held id kind attachMeta len after
    servedStep w info budget deserialized st (.take env decode) =
      some ⟨st.worker.attach { env with attached := made.result }, made.held, made.frames⟩ := by
  simp only [servedStep, Served.next, hframes, hrequest, workerStep, hidle, dispatch,
    Option.map_some]

theorem attach_phase (worker : Worker F J) (hidle : worker.phase = .idle) (env : Env)
    (made : Attached V) :
    (worker.attach { env with attached := made.result }).phase =
      if made.fatal then .stopped else .idle := by
  have hsend : ∀ event, (worker.send env.delivered event).phase = .idle := by
    intro event
    unfold Worker.send
    split
    · exact hidle
    · exact hidle
  unfold Worker.attach Attached.fatal
  rcases made.result with ⟨body | body, fatal⟩ | ⟨⟩
  · cases fatal <;> simp [hidle]
  · cases fatal <;> simp [hsend]
  · simp [hidle]

theorem no_step_of_stopped {st : Served F J V} (hstopped : st.worker.phase = .stopped)
    (act : Turned F) : servedStep w info budget deserialized st act = none := by
  have hnone : ∀ act, workerStep w info st.worker act = none := by
    intro act
    cases act <;> simp only [workerStep, hstopped]
  cases act with
  | take env decode => simp [servedStep, hnone]
  | arrival x bytesTaken => simp [servedStep, hnone]
  | leave => simp [servedStep, hnone]

theorem InBudget.step {st next : Served F J V} {act : Turned F}
    (h : InBudget w.isEscaped budget st.held)
    (hstep : servedStep w info budget deserialized st act = some next) :
    InBudget w.isEscaped budget next.held := by
  cases act with
  | take env decode =>
    simp only [servedStep, Option.map_eq_some_iff] at hstep
    obtain ⟨worker, -, rfl⟩ := hstep
    dsimp only
    unfold Served.next
    split
    · exact h
    · exact h
    · split
      · exact h
      · exact h.attach
      · exact h
  | arrival x bytesTaken =>
    simp only [servedStep, Option.map_eq_some_iff] at hstep
    obtain ⟨worker, -, rfl⟩ := hstep
    exact h
  | leave =>
    simp only [servedStep, Option.map_eq_some_iff] at hstep
    obtain ⟨worker, -, rfl⟩ := hstep
    exact h

end Run

/-- An attachment that is taken or refused with the session going on has had its frames
    taken off the stream, and only those; any other ends the session.  What a session
    holds stays within its budget. -/
theorem attachments_in_step (w : TurnWorker R J) (info : SessionInfo) (budget : AttachmentBudget)
    (deserialized : V → Except Text (Request F J)) :
    (∀ (st : Served F J V) (env : Env) (decode : Decoder) (value : V) (after : List (Frame V))
        (id : Text) (kind : AttachKind) (attachMeta : AttachMeta) (len : UInt64),
      st.worker.phase = .idle → st.frames = .cbor value :: after →
      deserialized value = .ok (.attach id kind attachMeta len) →
      let made := attach w.isEscaped budget decode st.held id kind attachMeta len after
      ∃ next, servedStep w info budget deserialized st (.take env decode) = some next ∧
        next.held = made.held ∧ next.frames = made.frames ∧
        (made.fatal = false →
          next.worker.phase = .idle ∧ Carries len.toNat after next.frames) ∧
        (made.fatal = true → next.worker.phase = .stopped ∧
          ∀ act, servedStep w info budget deserialized next act = none) ∧
        (made.fatal = false ↔ len ≤ budget.maxBytes ∧
          UInt32.ofNat st.held.count < budget.maxPerSession ∧
          ∃ rest, Carries len.toNat after rest)) ∧
    ∀ (start st : Served F J V) (acts : List (Turned F)), start.held.attachments = ∅ →
      runs (servedStep w info budget deserialized) start acts = some st →
      st.held.count ≤ budget.maxPerSession.toNat ∧
        ∀ id raw, st.held.attachments.lookup id = some raw →
          ∃ kind : AttachKind, raw.kind = kind.name ∧
            checkAttachmentBudget w.isEscaped budget kind raw = .ok () := by
  constructor
  · intro st env decode value after id kind attachMeta len hidle hframes hrequest made
    refine ⟨_, step_attach hidle hframes hrequest env decode, rfl, rfl, ?_, ?_, ?_⟩
    · intro hlives
      obtain ⟨-, -, hcarries⟩ := (attach_fatal made.frames).mp ⟨hlives, rfl⟩
      exact ⟨by rw [attach_phase _ hidle, if_neg (by rw [hlives]; decide)], hcarries⟩
    · intro hfatal
      have hstopped := attach_phase st.worker hidle env made
      rw [if_pos hfatal] at hstopped
      exact ⟨hstopped, no_step_of_stopped hstopped⟩
    · constructor
      · intro hlives
        obtain ⟨hsmall, hroom, hcarries⟩ := (attach_fatal made.frames).mp ⟨hlives, rfl⟩
        exact ⟨hsmall, hroom, made.frames, hcarries⟩
      · rintro ⟨hsmall, hroom, rest, hcarries⟩
        exact ((attach_fatal rest).mpr ⟨hsmall, hroom, hcarries⟩).1
  · intro start st acts hempty hrun
    have hstart : InBudget w.isEscaped budget start.held := by
      constructor
      · simp [Held.count, hempty]
      · intro id raw hlookup
        simp [hempty] at hlookup
    have hend := runs_invariant _ (fun _ _ _ h hstep => InBudget.step h hstep) hstart hrun
    refine ⟨hend.count_le, ?_⟩
    intro id raw hlookup
    exact (hend.checked id raw hlookup).2

/-- One pixel in two blobs: it is held, and the next frame is the next request. -/
example :
    let made := attach (fun _ => false) ⟨16, 4, 4, 1, false⟩ (fun _ _ _ => .error []) ⟨∅, 0⟩
      "a".toList .image ⟨some 1, some 1, none, none, none⟩ 4
      [.blob [1, 2], .blob [3, 4], .cbor ()]
    made.fatal = false ∧ made.held.count = 1 ∧ made.frames = [.cbor ()] := by
  decide

end AiDaemon.Attach
