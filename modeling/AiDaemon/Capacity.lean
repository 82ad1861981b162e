import AiDaemon.Attach
import AiDaemon.CborBytes
import AiDaemon.Framing
import AiDaemon.JsonItem
import AiDaemon.WholeTurn

/-!
# What one frame carries (`session.rs`: `turn`, `config.rs`: `validate`, `frame.rs`)

A turn's request goes to its backend in one frame.  Of what is in it the payloads of
the attachments are measured, and 4 MiB are left for the rest.  The prompt is measured
in tokens and the rest is not: the tools and their schemas, the grammar, the
parameters, the names of the attachments.

`generateSize` is what all of it takes, from the lengths of its texts.
-/

namespace AiDaemon.Capacity

open Attach Cbor Codec Dispatch Fallible Fields Framing JsonItem Proto Settlement Wire WholeTurn
open Provenance (framedMessages)

variable {D R N F : Type}

/-! ### The source -/

def pixelsText (maxPixels widest ceiling : UInt64) : Text :=
  "attachments.max_pixels = ".toList ++ Text.ofNat maxPixels.toNat ++ " allows a ".toList ++
    Text.ofNat widest.toNat ++ " byte image, and a decoded attachment travels to the ".toList ++
    "backend in one frame capped at ".toList ++ Text.ofNat ceiling.toNat ++
    " bytes; the most pixels that can fit is ".toList ++ Text.ofNat (ceiling / 4).toNat

def samplesText (maxSamples longest ceiling : UInt64) : Text :=
  "attachments.max_samples = ".toList ++ Text.ofNat maxSamples.toNat ++ " allows a ".toList ++
    Text.ofNat longest.toNat ++ " byte clip, and a decoded attachment travels to the ".toList ++
    "backend in one frame capped at ".toList ++ Text.ofNat ceiling.toNat ++
    " bytes; the most samples that can fit is ".toList ++ Text.ofNat (ceiling / 4).toNat

/-- What `validate` asks of the attachments' budget. -/
def validate (budget : AttachmentBudget) : Except Text Unit :=
  let ceiling : UInt64 := .ofNat maxAttachmentPayload
  let widestImage := saturatingMul budget.maxPixels 4
  let longestAudio := saturatingMul budget.maxSamples 4
  if widestImage > ceiling then .error (pixelsText budget.maxPixels widestImage ceiling)
  else if longestAudio > ceiling then .error (samplesText budget.maxSamples longestAudio ceiling)
  else .ok ()

/-- The budget that is shipped. -/
def shippedBudget : AttachmentBudget where
  maxBytes := 16 * 1024 * 1024
  maxPixels := 4 * 1024 * 1024
  maxSamples := 16 * 60 * 1000
  maxPerSession := 16
  allowEncoded := true

/-! ### Sizes -/

section Sizes

variable (floatBytes : D → List UInt8) (floats : Wire.Floats D F) (doubles : Doubles D N)

def messageSize (m : Message) : Nat :=
  1 + (textSize "role".toList + textSize m.role +
    (textSize "content".toList + textSize m.content +
      ((if m.attachments = [] then 0
        else textSize "attachments".toList + listSize textSize m.attachments) +
        optionSize "tool_call_id".toList textSize m.toolCallId)))

def floatSize (x : F) : Nat := (floatBytes (floats.widen x)).length

/-- The sampling parameters. -/
def paramsSize (p : Params F) : Nat :=
  1 + (optionSize "temperature".toList (floatSize floatBytes floats) p.temperature +
    (optionSize "top_p".toList (floatSize floatBytes floats) p.topP +
      (optionSize "seed".toList (fun n => headSize n.toNat) p.seed +
        (optionSize "max_tokens".toList (fun n => headSize n.toNat) p.maxTokens +
          (optionSize "stop".toList (listSize textSize) p.stop +
            (optionSize "top_k".toList (fun n => headSize n.toNat) p.topK +
              (optionSize "min_p".toList (floatSize floatBytes floats) p.minP +
                (optionSize "repeat_penalty".toList (floatSize floatBytes floats) p.repeatPenalty +
                  ((if p.logitBias.entries = [] then 0
                    else textSize "logit_bias".toList + listSize
                      (fun e => headSize e.1.toNat + floatSize floatBytes floats e.2)
                      p.logitBias.entries) +
                    optionSize "logprobs".toList (fun n => headSize n.toNat) p.logprobs)))))))))

def toolSize (tool : ToolSchema (Grammar.Schema N)) : Nat :=
  1 + (textSize "name".toList + textSize tool.name +
    (textSize "description".toList + textSize tool.description +
      (textSize "json_schema".toList + size floatBytes (toItem doubles tool.jsonSchema.value))))

/-- An attachment without its payload. -/
def attachmentSize (a : RawAttachment) : Nat :=
  1 + (textSize "id".toList + textSize a.id +
    (textSize "kind".toList + textSize a.kind +
      (optionSize "w".toList (fun n => headSize n.toNat) a.w +
        (optionSize "h".toList (fun n => headSize n.toNat) a.h +
          (optionSize "fmt".toList textSize a.fmt +
            (optionSize "rate".toList (fun n => headSize n.toNat) a.rate +
              (textSize "data".toList + headSize a.data.length)))))))

def payload (attachments : List RawAttachment) : Nat :=
  (attachments.map fun a => a.data.length).sum

/-- A request without the payloads. -/
def generateSize (reqId : UInt64) (model session : Text) (messages : List Message)
    (params : Params F) (grammar : Option Text)
    (tools : Option (List (ToolSchema (Grammar.Schema N)))) (attachments : List RawAttachment) :
    Nat :=
  1 + (textSize "op".toList + textSize "generate".toList +
    (textSize "req_id".toList + headSize reqId.toNat +
      (textSize "model_id".toList + textSize model +
        (textSize "session_id".toList + textSize session +
          (textSize "messages".toList + listSize messageSize messages +
            (textSize "params".toList + paramsSize floatBytes floats params +
              (optionSize "grammar".toList textSize grammar +
                (optionSize "tools".toList (listSize (toolSize floatBytes doubles)) tools +
                  (textSize "parallel_tools".toList + 1 +
                    (if attachments = [] then 0
                      else textSize "attachments".toList +
                        listSize attachmentSize attachments))))))))))

end Sizes

section Lemmas

variable (floatBytes : D → List UInt8) (floats : Wire.Floats D F) (doubles : Doubles D N)

theorem size_textCodec (s : Text) : size floatBytes ((text : Codec D Text).enc s) = textSize s :=
  size_text floatBytes s

theorem size_u32 (n : UInt32) : size floatBytes ((u32 : Codec D UInt32).enc n) = headSize n.toNat :=
  size_nat floatBytes n.toNat

theorem size_u64 (n : UInt64) : size floatBytes ((u64 : Codec D UInt64).enc n) = headSize n.toNat :=
  size_nat floatBytes n.toNat

theorem single_message : (message : Fields D Message).Single := by
  apply Single.via
  apply (single_field _ _).and
  apply (single_fieldOr _ _ _).and
  exact (single_listUnlessEmpty _ _).and (single_optional _ _ _) _

theorem size_message (m : Message) :
    size floatBytes ((record message).enc m) = messageSize m := by
  rw [size_record floatBytes single_message rfl (show 4 < 24 by decide)]
  unfold message optionalText
  dsimp only [Fields.and, Fields.via]
  simp only [entriesSize_append, entriesSize_field, entriesSize_fieldOr,
    entriesSize_listUnlessEmpty, entriesSize_optional, size_textCodec]
  rfl

theorem size_logitBias (bias : BTreeMap F) :
    entriesSize floatBytes ((logitBias floats).put bias) =
      if bias.entries = [] then 0
      else textSize "logit_bias".toList + listSize
        (fun e => headSize e.1.toNat + floatSize floatBytes floats e.2) bias.entries := by
  refine (entriesSize_fieldUnless ..).trans ?_
  simp only [List.isEmpty_iff, size_btreeMap]
  rfl

theorem single_params : (params floats : Fields D (Params F)).Single := by
  apply Single.via
  iterate 8 apply (single_optional _ _ _).and
  exact (single_fieldUnless _ _ _ _ _).and (single_optional _ _ _) _

theorem size_params (p : Params F) :
    size floatBytes ((record (params floats)).enc p) = paramsSize floatBytes floats p := by
  rw [size_record floatBytes (single_params floats) rfl (show 10 < 24 by decide)]
  unfold params optionalF32 optionalU32
  dsimp only [Fields.and, Fields.via]
  simp only [entriesSize_append, entriesSize_optional, size_u64, size_u32, size_list,
    size_textCodec, size_logitBias]
  rfl

theorem single_toolSchema :
    (toolSchema (foreign floats doubles) : Fields D (ToolSchema (Grammar.Schema N))).Single := by
  apply Single.via
  apply (single_field _ _).and
  exact (single_fieldOr _ _ _).and (single_fieldOr _ _ _) _

theorem size_toolSchema (tool : ToolSchema (Grammar.Schema N)) :
    size floatBytes ((record (toolSchema (foreign floats doubles))).enc tool) =
      toolSize floatBytes doubles tool := by
  rw [size_record floatBytes (single_toolSchema floats doubles) rfl (show 3 < 24 by decide)]
  unfold toolSchema
  dsimp only [Fields.and, Fields.via]
  simp only [entriesSize_append, entriesSize_field, entriesSize_fieldOr, size_textCodec]
  rfl

theorem single_rawAttachment : (rawAttachment : Fields D RawAttachment).Single := by
  apply Single.via
  iterate 2 apply (single_field _ _).and
  iterate 4 apply (single_optional _ _ _).and
  exact single_field _ _

theorem size_rawAttachment (a : RawAttachment) :
    size floatBytes ((record rawAttachment).enc a) = attachmentSize a + a.data.length := by
  rw [size_record floatBytes single_rawAttachment rfl (show 7 < 24 by decide)]
  unfold rawAttachment optionalText optionalU32
  dsimp only [Fields.and, Fields.via]
  simp only [entriesSize_append, entriesSize_field, entriesSize_optional, size_textCodec, size_u32]
  rw [show size floatBytes (bytes.enc a.data : Value D) = headSize a.data.length + a.data.length
    from size_bytes floatBytes a.data]
  simp only [attachmentSize, Nat.add_assoc]

theorem listSize_attachments (attachments : List RawAttachment) :
    listSize (fun a => attachmentSize a + a.data.length) attachments =
      listSize attachmentSize attachments + payload attachments := by
  simp only [listSize, payload, List.sum_map_add, Nat.add_assoc]

theorem single_backendGenerate :
    (backendGenerate (foreign floats doubles)).2.fields.Single := by
  iterate 4 refine (single_field _ _).and ?_ rfl
  refine (single_fieldOr _ _ _).and ?_ rfl
  iterate 2 refine (single_optional _ _ _).and ?_ rfl
  exact (single_fieldOr _ _ _).and (single_listUnlessEmpty _ _) rfl

/-- What a request takes on the wire. -/
theorem size_generate (reqId : UInt64) (model session : Text) (messages : List Message)
    (params : Params F) (grammar : Option Text)
    (tools : Option (List (ToolSchema (Grammar.Schema N)))) (parallelTools : Bool)
    (attachments : List RawAttachment) :
    size floatBytes (encBackendRequest (foreign floats doubles)
        (.generate reqId model session messages params grammar tools parallelTools attachments)) =
      generateSize floatBytes floats doubles reqId model session messages params grammar tools
        attachments + payload attachments := by
  refine (size_tagged floatBytes op (single_backendGenerate floats doubles) rfl
    (show 10 < 24 by decide) _).trans ?_
  unfold backendGenerate reqIdField modelIdField sessionIdField paramsField optionalText
    optionalTools
  dsimp only [Fields.and]
  simp only [entriesSize_append, entriesSize_field, entriesSize_fieldOr, entriesSize_optional,
    entriesSize_listUnlessEmpty, size_textCodec, size_u64, size_list, size_message,
    size_rawAttachment, listSize_attachments, size_params, size_toolSchema]
  unfold generateSize
  by_cases hnone : attachments = []
  · subst hnone
    rfl
  · simp only [if_neg hnone, Nat.add_assoc]
    rfl

end Lemmas

/-! ### Turns -/

section Turns

variable (floatBytes : D → List UInt8) (floats : Wire.Floats D F) (doubles : Doubles D N)

/-- The request of a turn, as it goes into its frame. -/
def requestBytes (t : Cleared R N F) (reqId : UInt64) : List UInt8 :=
  (encBackendRequest (foreign floats doubles) (t.request reqId)).toBytes floatBytes

/-- What the request of a turn takes besides the payloads. -/
def besides (t : Cleared R N F) (reqId : UInt64) : Nat :=
  generateSize floatBytes floats doubles reqId t.call.worker.account.model t.call.sessionId
    (framedMessages t.call.worker.account.limits t.call.nonce t.call.history) t.call.params
    t.prepared.grammar t.call.worker.tools t.call.attachments

theorem length_requestBytes (t : Cleared R N F) (reqId : UInt64) :
    (requestBytes floatBytes floats doubles t reqId).length =
      besides floatBytes floats doubles t reqId + payload t.call.attachments :=
  size_generate ..

theorem writeRaw_ok {kind : UInt8} {bytes : List UInt8} :
    (∃ frame, writeRaw kind bytes = .ok frame) ↔ bytes.length ≤ maxFrame := by
  unfold writeRaw
  have hwide : maxFrame < 2 ^ 32 := by decide
  split
  · simp only [reduceCtorEq, exists_false, false_iff]
    omega
  · split
    · simp only [reduceCtorEq, exists_false, false_iff]
      omega
    · simp only [Except.ok.injEq, exists_eq', true_iff]
      omega

/-- A turn that has passed its checks can be delivered exactly when its texts leave room
    for the payloads. -/
theorem delivered_iff (t : Cleared R N F) (reqId : UInt64) :
    ((requestBytes floatBytes floats doubles t reqId).length ≤ maxFrame ↔
      besides floatBytes floats doubles t reqId + payload t.call.attachments ≤ maxFrame) ∧
    ((∃ frame, writeRaw kindCbor (requestBytes floatBytes floats doubles t reqId) = .ok frame) ↔
      besides floatBytes floats doubles t reqId + payload t.call.attachments ≤ maxFrame) := by
  rw [writeRaw_ok, length_requestBytes]
  exact ⟨Iff.rfl, Iff.rfl⟩

theorem sum_toNat {l : List Nat} (h : l.sum < 2 ^ 64) :
    (l.map UInt64.ofNat).sum.toNat = l.sum := by
  induction l with
  | nil => rfl
  | cons n l ih =>
    rw [List.sum_cons] at h
    have hrest := ih (by omega)
    have hhead : n < 2 ^ 64 := by omega
    rw [List.map_cons, List.sum_cons, List.sum_cons, UInt64.toNat_add, hrest,
      UInt64.toNat_ofNat_of_lt' hhead]
    omega

/-- What is left beside the payloads is enough for 4 MiB. -/
theorem allowance_suffices (t : Cleared R N F) (reqId : UInt64)
    (hmemory : payload t.call.attachments < 2 ^ 64)
    (hrest : besides floatBytes floats doubles t reqId ≤ 4 * 1024 * 1024) :
    (requestBytes floatBytes floats doubles t reqId).length ≤ maxFrame := by
  have hsize := (sizeCheck_of_check t.carries).2
  unfold WholeTurn.Call.sizeCheck at hsize
  have hsum : (t.call.attachments.map fun a => UInt64.ofNat a.data.length).sum.toNat =
      payload t.call.attachments := by
    have hcast := sum_toNat hmemory
    rwa [List.map_map] at hcast
  dsimp only at hsize
  split at hsize
  · simp at hsize
  · rename_i hsmall
    rw [gt_iff_lt, UInt64.not_lt, UInt64.le_iff_toNat_le, hsum] at hsmall
    have hceiling : (UInt64.ofNat maxAttachmentPayload).toNat + 4 * 1024 * 1024 = maxFrame := by
      decide
    rw [length_requestBytes]
    omega

end Turns

/-- A picture of 16 MiB. -/
def photo (id : Text) : RawAttachment := { picture 2048 with id := id }

/-- A tool with 16 MiB of description. -/
def described : ToolSchema (Grammar.Schema Empty) where
  name := "look".toList
  description := List.replicate (16 * 1024 * 1024) 'x'
  jsonSchema := ⟨.null, by simp [Json.Value.Filed]⟩

/-- Three pictures and the tool, for a hosted model. -/
def describing : WholeTurn.Call ℚ Empty Nat :=
  let call := plainCall ["vision".toList, "tools".toList]
    [photo "a".toList, photo "b".toList, photo "c".toList] 16
  { call with worker := { call.worker with tools := some [described] } }

theorem describing_attachments :
    describing.attachments = [photo "a".toList, photo "b".toList, photo "c".toList] := rfl

theorem photo_length (id : Text) : (photo id).data.length = 16 * 1024 * 1024 :=
  List.length_replicate

theorem photo_checked (id : Text) :
    checkAttachmentBudget (fun _ => false) shippedBudget .image (photo id) = .ok () := by
  have hsize : UInt64.ofNat (photo id).data.length = 16 * 1024 * 1024 := by
    rw [photo_length]
    rfl
  have hside : ((photo id).w.getD 0).toUInt64 = 2048 ∧ ((photo id).h.getD 0).toUInt64 = 2048 :=
    ⟨rfl, rfl⟩
  have hpixels : saturatingMul 2048 2048 = 4 * 1024 * 1024 ∧
      saturatingMul (4 * 1024 * 1024) 4 = 16 * 1024 * 1024 := by decide
  simp only [checkAttachmentBudget, checkImage, hside, hpixels, shippedBudget, hsize,
    show (photo id).fmt = none from rfl, bytesPerPixel]
  rw [if_neg (by decide), if_neg (by decide), if_neg (by simp)]

theorem describing_sized : describing.sizeCheck = .ok () := by
  unfold WholeTurn.Call.sizeCheck
  rw [describing_attachments]
  simp only [List.map_cons, List.map_nil, photo_length]
  rfl

def describedTurn : Cleared ℚ Empty Nat where
  call := describing
  prepared := ⟨⟨"remote".toList, ["generate".toList, "vision".toList, "tools".toList], false⟩,
    none, ⟨1, 4096⟩⟩
  reserve := 22
  prepares := rfl
  allowed := eq_ok_of_toOption (by decide +kernel)
  carries := bind_eq_ok.mpr ⟨(), rfl, describing_sized⟩

/-- Photos under their own names. -/
def HoldsPhotos (held : Ledger.Table Text RawAttachment) : Prop :=
  ∀ id raw, held.lookup id = some raw → raw = photo id

theorem HoldsPhotos.insert {held : Ledger.Table Text RawAttachment} (h : HoldsPhotos held)
    (id : Text) : HoldsPhotos (held.insert id (photo id)) := by
  intro other raw hlookup
  by_cases hother : other = id
  · subst hother
    rw [AList.lookup_insert] at hlookup
    exact (Option.some.inj hlookup).symm
  · rw [AList.lookup_insert_ne hother] at hlookup
    exact h other raw hlookup

theorem described_in_budget :
    InBudget (fun _ => false) shippedBudget ⟨describedTurn.call.held, 0⟩ := by
  have hnone : HoldsPhotos ∅ := by
    intro id raw hlookup
    simp at hlookup
  have hheld : HoldsPhotos describedTurn.call.held :=
    ((hnone.insert "a".toList).insert "b".toList).insert "c".toList
  constructor
  · decide
  · intro id raw hlookup
    rw [hheld id raw hlookup]
    exact ⟨rfl, .image, rfl, photo_checked id⟩

theorem byteLen_replicate (n : Nat) : Text.byteLen (List.replicate n 'x') = n := by
  have hone : Char.utf8Size 'x' = 1 := rfl
  rw [Text.byteLen, List.map_replicate, List.sum_replicate_nat, hone, Nat.mul_one]

theorem described_description :
    described.description = List.replicate (16 * 1024 * 1024) 'x' := rfl

theorem describedTurn_tools : describedTurn.call.worker.tools = some [described] := rfl

/-- The description alone is more than the payloads leave. -/
theorem described_besides (floatBytes : Nat → List UInt8) (floats : Wire.Floats Nat Nat)
    (doubles : Doubles Nat Empty) (reqId : UInt64) :
    16 * 1024 * 1024 < besides floatBytes floats doubles describedTurn reqId := by
  have hdescription : textSize described.description =
      headSize (16 * 1024 * 1024) + 16 * 1024 * 1024 := by
    rw [textSize, described_description, byteLen_replicate]
  have htools : optionSize "tools".toList (listSize (toolSize floatBytes doubles))
      (some [described]) =
      textSize "tools".toList + (headSize 1 + toolSize floatBytes doubles described) := by
    simp only [optionSize, listSize, List.length_singleton, List.map_singleton,
      List.sum_singleton]
  unfold besides generateSize
  rw [describedTurn_tools, htools, toolSize, hdescription]
  omega

def naturals : Wire.Floats Nat Nat := ⟨id, id, fun _ => rfl⟩

def noDoubles : Doubles Nat Empty := ⟨Empty.elim, fun _ => none, nofun⟩

/-- Three pictures and a tool that explains itself at length, under the shipped budget. -/
theorem described_tool_refused :
    ¬ ∀ (budget : AttachmentBudget), validate budget = .ok () →
      ∀ t : Cleared ℚ Empty Nat,
        InBudget t.call.worker.isEscaped budget ⟨t.call.held, 0⟩ → ∀ reqId : UInt64,
        (requestBytes (fun _ => [0xf9, 0, 0]) naturals noDoubles t reqId).length ≤ maxFrame := by
  intro hall
  have hfits := hall shippedBudget (by decide) describedTurn described_in_budget 1
  rw [length_requestBytes] at hfits
  have hbesides := described_besides (fun _ => [0xf9, 0, 0]) naturals noDoubles 1
  have hpayload : payload describedTurn.call.attachments = 3 * (16 * 1024 * 1024) := by
    show payload describing.attachments = _
    rw [describing_attachments]
    simp [payload, photo_length]
  rw [hpayload, maxFrame] at hfits
  omega

end AiDaemon.Capacity
