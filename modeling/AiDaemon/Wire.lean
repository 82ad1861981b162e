import AiDaemon.Proto

/-!
# Messages on the wire (`frame.rs`, `backend.rs`)

The layout that the derived serialisers give each message type, field by field
in the order of the source: which fields are always written, which are left out
when they hold their default, and what a missing one reads as.  `Request`,
`BackendRequest` and `BackendEvent` are tagged by `op` or `ev`; `Event` is
untagged.

Every message is read back as it was written (`messages_survive_the_wire`).
For `Event` this rests on the order of its variants: each needs a key that no
later one writes.
-/

namespace AiDaemon.Wire

open Cbor Codec Fields Proto

/-- How `f32` is carried by the wire's `f64`. NaNs apart nothing is lost. -/
structure Floats (D F : Type) where
  widen : F → D
  narrow : D → F
  back : ∀ x, narrow (widen x) = x

/-- What the messages need from elsewhere: the floats, and `serde_json::Value`
    as a data item. -/
structure Foreign (D F J : Type) where
  floats : Floats D F
  json : Codec D J
  /-- `serde_json::Value::Null`, the default. -/
  jsonNull : J

variable {D F J : Type}

/-! ### Values that are never null -/

theorem text_solid (s : Text) : (text : Codec D Text).enc s ≠ .null := nofun

theorem u32_solid (n : UInt32) : (u32 : Codec D UInt32).enc n ≠ .null := nofun

theorem u64_solid (n : UInt64) : (u64 : Codec D UInt64).enc n ≠ .null := nofun

theorem list_solid {α : Type} (c : Codec D α) (l : List α) : c.list.enc l ≠ .null := nofun

theorem record_solid {α : Type} (f : Fields D α) (a : α) : (record f).enc a ≠ .null := nofun

/-! ### Parts -/

def f32 (floats : Floats D F) : Codec D F := float floats.widen floats.narrow floats.back

theorem f32_solid (floats : Floats D F) (x : F) : (f32 floats).enc x ≠ .null := nofun

def optionalText (name : Text) : Fields D (Option Text) := optional name text text_solid

def optionalU32 (name : Text) : Fields D (Option UInt32) := optional name u32 u32_solid

def optionalF32 (floats : Floats D F) (name : Text) : Fields D (Option F) :=
  optional name (f32 floats) (f32_solid floats)

def message : Fields D Message :=
  ((field "role".toList text).and
    ((fieldOr "content".toList text []).and
      ((listUnlessEmpty "attachments".toList text).and
        (optionalText "tool_call_id".toList) rfl) rfl) rfl).via
    (fun m => (m.role, m.content, m.attachments, m.toolCallId))
    (fun (role, content, attachments, toolCallId) => ⟨role, content, attachments, toolCallId⟩)
    (fun _ => rfl)

/-- `logit_bias` keeps its integer keys. -/
def logitBias (floats : Floats D F) : Fields D (BTreeMap F) :=
  fieldUnless "logit_bias".toList (btreeMap (f32 floats)) (fun m => m.entries.isEmpty)
    (some .empty) (by
      intro m hm
      exact congrArg some (BTreeMap.ext (List.isEmpty_iff.mp hm).symm))

def params (floats : Floats D F) : Fields D (Params F) :=
  ((optionalF32 floats "temperature".toList).and
    ((optionalF32 floats "top_p".toList).and
      ((optional "seed".toList u64 u64_solid).and
        ((optionalU32 "max_tokens".toList).and
          ((optional "stop".toList text.list (list_solid text)).and
            ((optionalU32 "top_k".toList).and
              ((optionalF32 floats "min_p".toList).and
                ((optionalF32 floats "repeat_penalty".toList).and
                  ((logitBias floats).and
                    (optionalU32 "logprobs".toList) rfl) rfl) rfl) rfl) rfl) rfl) rfl) rfl) rfl).via
    (fun p => (p.temperature, p.topP, p.seed, p.maxTokens, p.stop, p.topK, p.minP,
      p.repeatPenalty, p.logitBias, p.logprobs))
    (fun (temperature, topP, seed, maxTokens, stop, topK, minP, repeatPenalty, bias, logprobs) =>
      ⟨temperature, topP, seed, maxTokens, stop, topK, minP, repeatPenalty, bias, logprobs⟩)
    (fun _ => rfl)

def toolSchema (foreign : Foreign D F J) : Fields D (ToolSchema J) :=
  ((field "name".toList text).and
    ((fieldOr "description".toList text []).and
      (fieldOr "json_schema".toList foreign.json foreign.jsonNull) rfl) rfl).via
    (fun t => (t.name, t.description, t.jsonSchema))
    (fun (name, description, jsonSchema) => ⟨name, description, jsonSchema⟩) (fun _ => rfl)

def attachKind : Codec D AttachKind :=
  named AttachKind.name [.image, .audio]
    (fun
      | .image => rfl
      | .audio => rfl)

def mediaKind : Codec D MediaKind :=
  named MediaKind.asStr [.image, .audio]
    (fun
      | .image => rfl
      | .audio => rfl)

def attachMeta : Fields D AttachMeta :=
  ((optionalU32 "w".toList).and
    ((optionalU32 "h".toList).and
      ((optionalText "fmt".toList).and
        ((optionalU32 "rate".toList).and
          (optionalText "encoded".toList) rfl) rfl) rfl) rfl).via
    (fun m => (m.w, m.h, m.fmt, m.rate, m.encoded))
    (fun (w, h, fmt, rate, encoded) => ⟨w, h, fmt, rate, encoded⟩) (fun _ => rfl)

def toolResultItem : Fields D ToolResultItem :=
  ((field "id".toList text).and (field "content".toList text) rfl).via
    (fun r => (r.id, r.content)) (fun (id, content) => ⟨id, content⟩) (fun _ => rfl)

def toolCall : Fields D ToolCall :=
  ((field "id".toList text).and
    ((field "name".toList text).and (field "arguments".toList text) rfl) rfl).via
    (fun c => (c.id, c.name, c.arguments)) (fun (id, name, arguments) => ⟨id, name, arguments⟩)
    (fun _ => rfl)

def usage : Fields D Usage :=
  ((field "prompt_tokens".toList u64).and
    ((field "completion_tokens".toList u64).and
      ((fieldOr "attachment_tokens".toList u64 0).and
        (fieldOr "media_bytes".toList u64 0) rfl) rfl) rfl).via
    (fun u => (u.promptTokens, u.completionTokens, u.attachmentTokens, u.mediaBytes))
    (fun (prompt, completion, attachment, media) => ⟨prompt, completion, attachment, media⟩)
    (fun _ => rfl)

def sessionInfo : Fields D SessionInfo :=
  ((field "session".toList text).and
    ((field "model".toList text).and
      ((field "identity".toList text).and
        ((field "local".toList bool).and
          ((field "capabilities".toList text.list).and
            (field "max_context".toList u32) rfl) rfl) rfl) rfl) rfl).via
    (fun s => (s.session, s.model, s.identity, s.isLocal, s.capabilities, s.maxContext))
    (fun (session, model, identity, isLocal, capabilities, maxContext) =>
      ⟨session, model, identity, isLocal, capabilities, maxContext⟩)
    (fun _ => rfl)

def tokenProb (floats : Floats D F) : Fields D (TokenProb F) :=
  ((field "tok".toList text).and (field "logprob".toList (f32 floats)) rfl).via
    (fun t => (t.tok, t.logprob)) (fun (tok, logprob) => ⟨tok, logprob⟩) (fun _ => rfl)

def mediaOut : Fields D MediaOut :=
  ((field "id".toList text).and
    ((field "kind".toList mediaKind).and
      ((optionalU32 "w".toList).and
        ((optionalU32 "h".toList).and
          ((optionalText "fmt".toList).and
            ((optionalU32 "rate".toList).and
              (field "len".toList u64) rfl) rfl) rfl) rfl) rfl) rfl).via
    (fun m => (m.id, m.kind, m.w, m.h, m.fmt, m.rate, m.len))
    (fun (id, kind, w, h, fmt, rate, len) => ⟨id, kind, w, h, fmt, rate, len⟩) (fun _ => rfl)

def errorBody : Fields D ErrorBody :=
  ((field "code".toList text).and (field "message".toList text) rfl).via
    (fun e => (e.code, e.message)) (fun (code, message) => ⟨code, message⟩) (fun _ => rfl)

/-- `device_memory` is written as null when it is unknown. -/
def backendInfo : Fields D BackendInfo :=
  ((field "name".toList text).and
    ((field "version".toList text).and
      ((field "formats".toList text.list).and
        ((fieldOr "quantizations".toList text.list []).and
          ((fieldOr "devices".toList text.list []).and
            ((fieldOr "device_memory".toList (u64.option u64_solid) none).and
              ((field "capabilities".toList text.list).and
                (fieldOr "local".toList bool true) rfl) rfl) rfl) rfl) rfl) rfl) rfl).via
    (fun b => (b.name, b.version, b.formats, b.quantizations, b.devices, b.deviceMemory,
      b.capabilities, b.isLocal))
    (fun (name, version, formats, quantizations, devices, deviceMemory, capabilities, isLocal) =>
      ⟨name, version, formats, quantizations, devices, deviceMemory, capabilities, isLocal⟩)
    (fun _ => rfl)

def rawAttachment : Fields D RawAttachment :=
  ((field "id".toList text).and
    ((field "kind".toList text).and
      ((optionalU32 "w".toList).and
        ((optionalU32 "h".toList).and
          ((optionalText "fmt".toList).and
            ((optionalU32 "rate".toList).and
              (field "data".toList bytes) rfl) rfl) rfl) rfl) rfl) rfl).via
    (fun r => (r.id, r.kind, r.w, r.h, r.fmt, r.rate, r.data))
    (fun (id, kind, w, h, fmt, rate, data) => ⟨id, kind, w, h, fmt, rate, data⟩) (fun _ => rfl)

def optionalParams (floats : Floats D F) : Fields D (Option (Params F)) :=
  optional "params".toList (record (params floats)) (record_solid _)

def optionalTools (foreign : Foreign D F J) : Fields D (Option (List (ToolSchema J))) :=
  optional "tools".toList (record (toolSchema foreign)).list (list_solid _)

def optionalLogprobs (floats : Floats D F) : Fields D (Option (List (TokenProb F))) :=
  optional "logprobs".toList (record (tokenProb floats)).list (list_solid _)

def vectorsField (floats : Floats D F) : Fields D (List (List F)) :=
  field "vectors".toList (f32 floats).list.list

/-! ### Client and daemon -/

def op : Text := "op".toList

section Requests

variable (foreign : Foreign D F J)

def requestHello (_ : Foreign D F J) : Text × Variant D (Request F J) :=
  ("hello".toList, ⟨UInt32, fieldOr "proto".toList u32 0, .hello⟩)

def requestAttach (_ : Foreign D F J) : Text × Variant D (Request F J) :=
  ("attach".toList, ⟨Text × AttachKind × AttachMeta × UInt64,
    (field "id".toList text).and
      ((field "kind".toList attachKind).and
        ((fieldOr "meta".toList (record attachMeta) .default).and
          (field "len".toList u64) rfl) rfl) rfl,
    fun (id, kind, attachMeta, len) => .attach id kind attachMeta len⟩)

def requestGenerate : Text × Variant D (Request F J) :=
  ("generate".toList,
    ⟨List Message × Bool × Option (Params F) × Option Text × Option (List (ToolSchema J)),
    (field "messages".toList (record message).list).and
      ((fieldOr "stream".toList bool true).and
        ((optionalParams foreign.floats).and
          ((optionalText "grammar".toList).and (optionalTools foreign) rfl) rfl) rfl) rfl,
    fun (messages, stream, params, grammar, tools) =>
      .generate messages stream params grammar tools⟩)

def requestToolResult (_ : Foreign D F J) : Text × Variant D (Request F J) :=
  ("tool_result".toList, ⟨Text × Text,
    (field "id".toList text).and (field "content".toList text) rfl,
    fun (id, content) => .toolResult id content⟩)

def requestEmbed (_ : Foreign D F J) : Text × Variant D (Request F J) :=
  ("embed".toList, ⟨List Text, field "inputs".toList text.list, .embed⟩)

def requestTokenize (_ : Foreign D F J) : Text × Variant D (Request F J) :=
  ("tokenize".toList, ⟨Text, field "text".toList text, .tokenize⟩)

def requestCancel (_ : Foreign D F J) : Text × Variant D (Request F J) :=
  ("cancel".toList, ⟨Unit, unit, fun _ => .cancel⟩)

def requestToolResults (_ : Foreign D F J) : Text × Variant D (Request F J) :=
  ("tool_results".toList, ⟨List ToolResultItem,
    field "results".toList (record toolResultItem).list, .toolResults⟩)

def requestGenerateMedia : Text × Variant D (Request F J) :=
  ("generate_media".toList, ⟨MediaKind × Text × Option (Params F) × UInt32,
    (field "kind".toList mediaKind).and
      ((field "prompt".toList text).and
        ((optionalParams foreign.floats).and (fieldOr "count".toList u32 1) rfl) rfl) rfl,
    fun (kind, prompt, params, count) => .generateMedia kind prompt params count⟩)

def requestVariants : List (Text × Variant D (Request F J)) :=
  [requestHello foreign, requestAttach foreign, requestGenerate foreign,
    requestToolResult foreign, requestEmbed foreign, requestTokenize foreign,
    requestCancel foreign, requestToolResults foreign, requestGenerateMedia foreign]

def encRequest : Request F J → Value D
  | .hello proto => encTagged op (requestHello foreign) proto
  | .attach id kind attachMeta len =>
    encTagged op (requestAttach foreign) (id, kind, attachMeta, len)
  | .generate messages stream params grammar tools =>
    encTagged op (requestGenerate foreign) (messages, stream, params, grammar, tools)
  | .toolResult id content => encTagged op (requestToolResult foreign) (id, content)
  | .embed inputs => encTagged op (requestEmbed foreign) inputs
  | .tokenize text => encTagged op (requestTokenize foreign) text
  | .cancel => encTagged op (requestCancel foreign) ()
  | .toolResults results => encTagged op (requestToolResults foreign) results
  | .generateMedia kind prompt params count =>
    encTagged op (requestGenerateMedia foreign) (kind, prompt, params, count)

def decRequest : Value D → Option (Request F J) := decTagged op (requestVariants foreign)

theorem decRequest_encRequest (request : Request F J) :
    decRequest foreign (encRequest foreign request) = some request := by
  have hwell : wellTagged op (requestVariants foreign) = true := rfl
  cases request with
  | hello proto => exact decTagged_encTagged hwell 0 rfl proto
  | attach id kind attachMeta len =>
    exact decTagged_encTagged hwell 1 rfl (id, kind, attachMeta, len)
  | generate messages stream params grammar tools =>
    exact decTagged_encTagged hwell 2 rfl (messages, stream, params, grammar, tools)
  | toolResult id content => exact decTagged_encTagged hwell 3 rfl (id, content)
  | embed inputs => exact decTagged_encTagged hwell 4 rfl inputs
  | tokenize text => exact decTagged_encTagged hwell 5 rfl text
  | cancel => exact decTagged_encTagged hwell 6 rfl ()
  | toolResults results => exact decTagged_encTagged hwell 7 rfl results
  | generateMedia kind prompt params count =>
    exact decTagged_encTagged hwell 8 rfl (kind, prompt, params, count)

end Requests

section Events

variable (floats : Floats D F)

def eventHello (_ : Floats D F) : Variant D (Event F) :=
  ⟨Bool × UInt32 × SessionInfo,
    (field "ok".toList bool).and
      ((field "proto".toList u32).and (field "session".toList (record sessionInfo)) rfl) rfl,
    fun (ok, proto, session) => .hello ok proto session⟩

def eventToken : Variant D (Event F) :=
  ⟨Text × Option (List (TokenProb F)),
    (field "tok".toList text).and (optionalLogprobs floats) rfl,
    fun (tok, logprobs) => .token tok logprobs⟩

def eventToolCall (_ : Floats D F) : Variant D (Event F) :=
  ⟨ToolCall, field "tool_call".toList (record toolCall), .toolCall⟩

def eventToolCalls (_ : Floats D F) : Variant D (Event F) :=
  ⟨List ToolCall, field "tool_calls".toList (record toolCall).list, .toolCalls⟩

def eventMedia (_ : Floats D F) : Variant D (Event F) :=
  ⟨MediaOut, field "media".toList (record mediaOut), .media⟩

def eventVectors : Variant D (Event F) := ⟨List (List F), vectorsField floats, .vectors⟩

def eventTokens (_ : Floats D F) : Variant D (Event F) :=
  ⟨List UInt32, field "tokens".toList u32.list, .tokens⟩

def eventNotice (_ : Floats D F) : Variant D (Event F) :=
  ⟨Text × Text, (field "event".toList text).and (fieldOr "detail".toList text []) rfl,
    fun (event, detail) => .notice event detail⟩

def eventDone (_ : Floats D F) : Variant D (Event F) :=
  ⟨Bool × Usage × Option Text,
    (field "done".toList bool).and
      ((field "usage".toList (record usage)).and (optionalText "finish_reason".toList) rfl) rfl,
    fun (done, usage, finishReason) => .done done usage finishReason⟩

def eventError (_ : Floats D F) : Variant D (Event F) :=
  ⟨ErrorBody, field "error".toList (record errorBody), .error⟩

/-- The order in which they are tried, which is that of the source. -/
def eventVariants : List (Variant D (Event F)) :=
  [eventHello floats, eventToken floats, eventToolCall floats, eventToolCalls floats,
    eventMedia floats, eventVectors floats, eventTokens floats, eventNotice floats,
    eventDone floats, eventError floats]

def encEvent : Event F → Value D
  | .hello ok proto session => encUntagged (eventHello floats) (ok, proto, session)
  | .token tok logprobs => encUntagged (eventToken floats) (tok, logprobs)
  | .toolCall call => encUntagged (eventToolCall floats) call
  | .toolCalls calls => encUntagged (eventToolCalls floats) calls
  | .media media => encUntagged (eventMedia floats) media
  | .vectors vectors => encUntagged (eventVectors floats) vectors
  | .tokens tokens => encUntagged (eventTokens floats) tokens
  | .notice event detail => encUntagged (eventNotice floats) (event, detail)
  | .done done usage finishReason => encUntagged (eventDone floats) (done, usage, finishReason)
  | .error error => encUntagged (eventError floats) error

def decEvent : Value D → Option (Event F) := decUntagged (eventVariants floats)

theorem decEvent_encEvent (event : Event F) :
    decEvent floats (encEvent floats event) = some event := by
  have hwell : wellOrdered (eventVariants floats) = true := rfl
  cases event with
  | hello ok proto session => exact decUntagged_encUntagged hwell 0 rfl (ok, proto, session)
  | token tok logprobs => exact decUntagged_encUntagged hwell 1 rfl (tok, logprobs)
  | toolCall call => exact decUntagged_encUntagged hwell 2 rfl call
  | toolCalls calls => exact decUntagged_encUntagged hwell 3 rfl calls
  | media media => exact decUntagged_encUntagged hwell 4 rfl media
  | vectors vectors => exact decUntagged_encUntagged hwell 5 rfl vectors
  | tokens tokens => exact decUntagged_encUntagged hwell 6 rfl tokens
  | notice event detail => exact decUntagged_encUntagged hwell 7 rfl (event, detail)
  | done done usage finishReason =>
    exact decUntagged_encUntagged hwell 8 rfl (done, usage, finishReason)
  | error error => exact decUntagged_encUntagged hwell 9 rfl error

end Events

/-! ### Daemon and backend -/

section BackendRequests

variable (foreign : Foreign D F J)

def reqIdField : Fields D UInt64 := field "req_id".toList u64

def modelIdField : Fields D Text := field "model_id".toList text

def sessionIdField : Fields D Text := field "session_id".toList text

def paramsField (floats : Floats D F) : Fields D (Params F) :=
  fieldOr "params".toList (record (params floats)) .default

def backendHello (_ : Foreign D F J) : Text × Variant D (BackendRequest F J) :=
  ("hello".toList, ⟨UInt32, field "proto".toList u32, .hello⟩)

def backendLoad (_ : Foreign D F J) : Text × Variant D (BackendRequest F J) :=
  ("load".toList, ⟨Text × Text × Text × UInt32,
    modelIdField.and
      ((field "path".toList text).and
        ((field "digest".toList text).and (fieldOr "n_ctx".toList u32 0) rfl) rfl) rfl,
    fun (modelId, path, digest, nCtx) => .load modelId path digest nCtx⟩)

def backendUnload (_ : Foreign D F J) : Text × Variant D (BackendRequest F J) :=
  ("unload".toList, ⟨Text, modelIdField, .unload⟩)

def backendGenerate : Text × Variant D (BackendRequest F J) :=
  ("generate".toList,
    ⟨UInt64 × Text × Text × List Message × Params F × Option Text × Option (List (ToolSchema J)) ×
      Bool × List RawAttachment,
    reqIdField.and
      (modelIdField.and
        (sessionIdField.and
          ((field "messages".toList (record message).list).and
            ((paramsField foreign.floats).and
              ((optionalText "grammar".toList).and
                ((optionalTools foreign).and
                  ((fieldOr "parallel_tools".toList bool false).and
                    (listUnlessEmpty "attachments".toList (record rawAttachment))
                    rfl) rfl) rfl) rfl) rfl) rfl) rfl) rfl,
    fun (reqId, modelId, sessionId, messages, params, grammar, tools, parallelTools, attachments) =>
      .generate reqId modelId sessionId messages params grammar tools parallelTools attachments⟩)

def backendEmbed (_ : Foreign D F J) : Text × Variant D (BackendRequest F J) :=
  ("embed".toList, ⟨UInt64 × Text × List Text,
    reqIdField.and (modelIdField.and (field "inputs".toList text.list) rfl) rfl,
    fun (reqId, modelId, inputs) => .embed reqId modelId inputs⟩)

def backendGenerateMedia : Text × Variant D (BackendRequest F J) :=
  ("generate_media".toList, ⟨UInt64 × Text × Text × MediaKind × Text × Params F × UInt32,
    reqIdField.and
      (modelIdField.and
        (sessionIdField.and
          ((field "kind".toList mediaKind).and
            ((field "prompt".toList text).and
              ((paramsField foreign.floats).and
                (field "count".toList u32) rfl) rfl) rfl) rfl) rfl) rfl,
    fun (reqId, modelId, sessionId, kind, prompt, params, count) =>
      .generateMedia reqId modelId sessionId kind prompt params count⟩)

def backendTokenize (_ : Foreign D F J) : Text × Variant D (BackendRequest F J) :=
  ("tokenize".toList, ⟨UInt64 × Text × Text,
    reqIdField.and (modelIdField.and (field "text".toList text) rfl) rfl,
    fun (reqId, modelId, text) => .tokenize reqId modelId text⟩)

def backendCancel (_ : Foreign D F J) : Text × Variant D (BackendRequest F J) :=
  ("cancel".toList, ⟨UInt64, reqIdField, .cancel⟩)

def backendPause (_ : Foreign D F J) : Text × Variant D (BackendRequest F J) :=
  ("pause".toList, ⟨UInt64, reqIdField, .pause⟩)

def backendResume (_ : Foreign D F J) : Text × Variant D (BackendRequest F J) :=
  ("resume".toList, ⟨UInt64, reqIdField, .resume⟩)

def backendDropCache (_ : Foreign D F J) : Text × Variant D (BackendRequest F J) :=
  ("drop_cache".toList, ⟨Text, sessionIdField, .dropCache⟩)

def backendShutdown (_ : Foreign D F J) : Text × Variant D (BackendRequest F J) :=
  ("shutdown".toList, ⟨Unit, unit, fun _ => .shutdown⟩)

def backendRequestVariants : List (Text × Variant D (BackendRequest F J)) :=
  [backendHello foreign, backendLoad foreign, backendUnload foreign, backendGenerate foreign,
    backendEmbed foreign, backendGenerateMedia foreign, backendTokenize foreign,
    backendCancel foreign, backendPause foreign, backendResume foreign, backendDropCache foreign,
    backendShutdown foreign]

def encBackendRequest : BackendRequest F J → Value D
  | .hello proto => encTagged op (backendHello foreign) proto
  | .load modelId path digest nCtx =>
    encTagged op (backendLoad foreign) (modelId, path, digest, nCtx)
  | .unload modelId => encTagged op (backendUnload foreign) modelId
  | .generate reqId modelId sessionId messages params grammar tools parallelTools attachments =>
    encTagged op (backendGenerate foreign)
      (reqId, modelId, sessionId, messages, params, grammar, tools, parallelTools, attachments)
  | .embed reqId modelId inputs => encTagged op (backendEmbed foreign) (reqId, modelId, inputs)
  | .generateMedia reqId modelId sessionId kind prompt params count =>
    encTagged op (backendGenerateMedia foreign)
      (reqId, modelId, sessionId, kind, prompt, params, count)
  | .tokenize reqId modelId text => encTagged op (backendTokenize foreign) (reqId, modelId, text)
  | .cancel reqId => encTagged op (backendCancel foreign) reqId
  | .pause reqId => encTagged op (backendPause foreign) reqId
  | .resume reqId => encTagged op (backendResume foreign) reqId
  | .dropCache sessionId => encTagged op (backendDropCache foreign) sessionId
  | .shutdown => encTagged op (backendShutdown foreign) ()

def decBackendRequest : Value D → Option (BackendRequest F J) :=
  decTagged op (backendRequestVariants foreign)

theorem decBackendRequest_encBackendRequest (request : BackendRequest F J) :
    decBackendRequest foreign (encBackendRequest foreign request) = some request := by
  have hwell : wellTagged op (backendRequestVariants foreign) = true := rfl
  cases request with
  | hello proto => exact decTagged_encTagged hwell 0 rfl proto
  | load modelId path digest nCtx =>
    exact decTagged_encTagged hwell 1 rfl (modelId, path, digest, nCtx)
  | unload modelId => exact decTagged_encTagged hwell 2 rfl modelId
  | generate reqId modelId sessionId messages params grammar tools parallelTools attachments =>
    exact decTagged_encTagged hwell 3 rfl
      (reqId, modelId, sessionId, messages, params, grammar, tools, parallelTools, attachments)
  | embed reqId modelId inputs => exact decTagged_encTagged hwell 4 rfl (reqId, modelId, inputs)
  | generateMedia reqId modelId sessionId kind prompt params count =>
    exact decTagged_encTagged hwell 5 rfl
      (reqId, modelId, sessionId, kind, prompt, params, count)
  | tokenize reqId modelId text => exact decTagged_encTagged hwell 6 rfl (reqId, modelId, text)
  | cancel reqId => exact decTagged_encTagged hwell 7 rfl reqId
  | pause reqId => exact decTagged_encTagged hwell 8 rfl reqId
  | resume reqId => exact decTagged_encTagged hwell 9 rfl reqId
  | dropCache sessionId => exact decTagged_encTagged hwell 10 rfl sessionId
  | shutdown => exact decTagged_encTagged hwell 11 rfl ()

end BackendRequests

def ev : Text := "ev".toList

section BackendEvents

variable (floats : Floats D F)

def fromHello (_ : Floats D F) : Text × Variant D (BackendEvent F) :=
  ("hello".toList, ⟨UInt32 × BackendInfo,
    (field "proto".toList u32).and (field "info".toList (record backendInfo)) rfl,
    fun (proto, info) => .hello proto info⟩)

def fromLoaded (_ : Floats D F) : Text × Variant D (BackendEvent F) :=
  ("loaded".toList, ⟨Text × UInt64 × UInt32,
    modelIdField.and
      ((field "kv_bytes_per_token".toList u64).and (field "n_ctx".toList u32) rfl) rfl,
    fun (modelId, kvBytesPerToken, nCtx) => .loaded modelId kvBytesPerToken nCtx⟩)

def fromUnloaded (_ : Floats D F) : Text × Variant D (BackendEvent F) :=
  ("unloaded".toList, ⟨Text, modelIdField, .unloaded⟩)

def fromToken : Text × Variant D (BackendEvent F) :=
  ("token".toList, ⟨UInt64 × Text × Option (List (TokenProb F)),
    reqIdField.and ((field "tok".toList text).and (optionalLogprobs floats) rfl) rfl,
    fun (reqId, tok, logprobs) => .token reqId tok logprobs⟩)

def fromToolCall (_ : Floats D F) : Text × Variant D (BackendEvent F) :=
  ("tool_call".toList, ⟨UInt64 × ToolCall,
    reqIdField.and (field "tool_call".toList (record toolCall)) rfl,
    fun (reqId, call) => .toolCall reqId call⟩)

def fromToolCalls (_ : Floats D F) : Text × Variant D (BackendEvent F) :=
  ("tool_calls".toList, ⟨UInt64 × List ToolCall,
    reqIdField.and (field "tool_calls".toList (record toolCall).list) rfl,
    fun (reqId, calls) => .toolCalls reqId calls⟩)

def fromMedia (_ : Floats D F) : Text × Variant D (BackendEvent F) :=
  ("media".toList,
    ⟨UInt64 × MediaKind × Option UInt32 × Option UInt32 × Option Text × Option UInt32 × List UInt8,
    reqIdField.and
      ((field "kind".toList mediaKind).and
        ((optionalU32 "w".toList).and
          ((optionalU32 "h".toList).and
            ((optionalText "fmt".toList).and
              ((optionalU32 "rate".toList).and
                (field "data".toList bytes) rfl) rfl) rfl) rfl) rfl) rfl,
    fun (reqId, kind, w, h, fmt, rate, data) => .media reqId kind w h fmt rate data⟩)

def fromVectors : Text × Variant D (BackendEvent F) :=
  ("vectors".toList, ⟨UInt64 × List (List F), reqIdField.and (vectorsField floats) rfl,
    fun (reqId, vectors) => .vectors reqId vectors⟩)

def fromTokens (_ : Floats D F) : Text × Variant D (BackendEvent F) :=
  ("tokens".toList, ⟨UInt64 × List UInt32,
    reqIdField.and (field "tokens".toList u32.list) rfl,
    fun (reqId, tokens) => .tokens reqId tokens⟩)

def fromDone (_ : Floats D F) : Text × Variant D (BackendEvent F) :=
  ("done".toList, ⟨UInt64 × Usage × Option Text,
    reqIdField.and
      ((field "usage".toList (record usage)).and (optionalText "finish_reason".toList) rfl) rfl,
    fun (reqId, usage, finishReason) => .done reqId usage finishReason⟩)

def fromError (_ : Floats D F) : Text × Variant D (BackendEvent F) :=
  ("error".toList, ⟨Option UInt64 × Text × Text,
    (optional "req_id".toList u64 u64_solid).and
      ((field "code".toList text).and (field "message".toList text) rfl) rfl,
    fun (reqId, code, message) => .error reqId code message⟩)

def backendEventVariants : List (Text × Variant D (BackendEvent F)) :=
  [fromHello floats, fromLoaded floats, fromUnloaded floats, fromToken floats,
    fromToolCall floats, fromToolCalls floats, fromMedia floats, fromVectors floats,
    fromTokens floats, fromDone floats, fromError floats]

def encBackendEvent : BackendEvent F → Value D
  | .hello proto info => encTagged ev (fromHello floats) (proto, info)
  | .loaded modelId kvBytesPerToken nCtx =>
    encTagged ev (fromLoaded floats) (modelId, kvBytesPerToken, nCtx)
  | .unloaded modelId => encTagged ev (fromUnloaded floats) modelId
  | .token reqId tok logprobs => encTagged ev (fromToken floats) (reqId, tok, logprobs)
  | .toolCall reqId call => encTagged ev (fromToolCall floats) (reqId, call)
  | .toolCalls reqId calls => encTagged ev (fromToolCalls floats) (reqId, calls)
  | .media reqId kind w h fmt rate data =>
    encTagged ev (fromMedia floats) (reqId, kind, w, h, fmt, rate, data)
  | .vectors reqId vectors => encTagged ev (fromVectors floats) (reqId, vectors)
  | .tokens reqId tokens => encTagged ev (fromTokens floats) (reqId, tokens)
  | .done reqId usage finishReason => encTagged ev (fromDone floats) (reqId, usage, finishReason)
  | .error reqId code message => encTagged ev (fromError floats) (reqId, code, message)

def decBackendEvent : Value D → Option (BackendEvent F) :=
  decTagged ev (backendEventVariants floats)

theorem decBackendEvent_encBackendEvent (event : BackendEvent F) :
    decBackendEvent floats (encBackendEvent floats event) = some event := by
  have hwell : wellTagged ev (backendEventVariants floats) = true := rfl
  cases event with
  | hello proto info => exact decTagged_encTagged hwell 0 rfl (proto, info)
  | loaded modelId kvBytesPerToken nCtx =>
    exact decTagged_encTagged hwell 1 rfl (modelId, kvBytesPerToken, nCtx)
  | unloaded modelId => exact decTagged_encTagged hwell 2 rfl modelId
  | token reqId tok logprobs => exact decTagged_encTagged hwell 3 rfl (reqId, tok, logprobs)
  | toolCall reqId call => exact decTagged_encTagged hwell 4 rfl (reqId, call)
  | toolCalls reqId calls => exact decTagged_encTagged hwell 5 rfl (reqId, calls)
  | media reqId kind w h fmt rate data =>
    exact decTagged_encTagged hwell 6 rfl (reqId, kind, w, h, fmt, rate, data)
  | vectors reqId vectors => exact decTagged_encTagged hwell 7 rfl (reqId, vectors)
  | tokens reqId tokens => exact decTagged_encTagged hwell 8 rfl (reqId, tokens)
  | done reqId usage finishReason =>
    exact decTagged_encTagged hwell 9 rfl (reqId, usage, finishReason)
  | error reqId code message => exact decTagged_encTagged hwell 10 rfl (reqId, code, message)

end BackendEvents

/-! ### All four languages -/

/-- Every message of the four languages is read back as it was written. -/
theorem messages_survive_the_wire (foreign : Foreign D F J) :
    (∀ request : Request F J, decRequest foreign (encRequest foreign request) = some request) ∧
    (∀ event : Event F, decEvent foreign.floats (encEvent foreign.floats event) = some event) ∧
    (∀ request : BackendRequest F J,
      decBackendRequest foreign (encBackendRequest foreign request) = some request) ∧
    ∀ event : BackendEvent F,
      decBackendEvent foreign.floats (encBackendEvent foreign.floats event) = some event := by
  refine ⟨?_, ?_, ?_, ?_⟩
  · exact decRequest_encRequest foreign
  · exact decEvent_encEvent foreign.floats
  · exact decBackendRequest_encBackendRequest foreign
  · exact decBackendEvent_encBackendEvent foreign.floats

/-- Whole numbers for floats and no JSON but null, true and false. -/
def plainForeign : Foreign Int Int (Option Bool) where
  floats := ⟨id, id, fun _ => rfl⟩
  json := bool.option fun _ => nofun
  jsonNull := none

example : encEvent plainForeign.floats (.notice "paused".toList []) =
    .map [(.text "event".toList, .text "paused".toList), (.text "detail".toList, .text [])] := rfl

end AiDaemon.Wire
