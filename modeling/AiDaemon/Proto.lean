import AiDaemon.Cbor
import AiDaemon.Provenance

/-!
# Messages (`frame.rs`, `backend.rs`)

The requests a client sends and the events it is sent, and the requests and
events between the daemon and a backend.  Two types are parameters: `F` is `f32`
without its NaNs and `J` is `serde_json::Value`.
-/

namespace AiDaemon.Proto

open Cbor

abbrev Message := Provenance.Message

/-! ### Parts -/

structure Params (F : Type) where
  temperature : Option F
  topP : Option F
  seed : Option UInt64
  maxTokens : Option UInt32
  stop : Option (List Text)
  topK : Option UInt32
  minP : Option F
  repeatPenalty : Option F
  logitBias : BTreeMap F
  logprobs : Option UInt32

/-- `Params::default`. -/
def Params.default {F : Type} : Params F where
  temperature := none
  topP := none
  seed := none
  maxTokens := none
  stop := none
  topK := none
  minP := none
  repeatPenalty := none
  logitBias := .empty
  logprobs := none

structure ToolSchema (J : Type) where
  name : Text
  description : Text
  jsonSchema : J

inductive AttachKind where
  | image
  | audio
deriving DecidableEq, Repr

/-- The lower-case name it is written as. -/
def AttachKind.name : AttachKind → Text
  | image => "image".toList
  | audio => "audio".toList

structure AttachMeta where
  w : Option UInt32
  h : Option UInt32
  fmt : Option Text
  rate : Option UInt32
  encoded : Option Text
deriving DecidableEq, Repr

/-- `AttachMeta::default`. -/
def AttachMeta.default : AttachMeta := ⟨none, none, none, none, none⟩

structure ToolResultItem where
  id : Text
  content : Text
deriving DecidableEq, Repr

inductive MediaKind where
  | image
  | audio
deriving DecidableEq, Repr

/-- `MediaKind::as_str`, which is also how it is written. -/
def MediaKind.asStr : MediaKind → Text
  | image => "image".toList
  | audio => "audio".toList

structure ToolCall where
  id : Text
  name : Text
  arguments : Text
deriving DecidableEq, Repr

structure Usage where
  promptTokens : UInt64
  completionTokens : UInt64
  attachmentTokens : UInt64
  mediaBytes : UInt64
deriving DecidableEq, Repr

/-- `Usage::default`. -/
def Usage.default : Usage := ⟨0, 0, 0, 0⟩

structure SessionInfo where
  session : Text
  model : Text
  identity : Text
  isLocal : Bool
  capabilities : List Text
  maxContext : UInt32
deriving DecidableEq, Repr

structure TokenProb (F : Type) where
  tok : Text
  logprob : F

structure MediaOut where
  id : Text
  kind : MediaKind
  w : Option UInt32
  h : Option UInt32
  fmt : Option Text
  rate : Option UInt32
  len : UInt64
deriving DecidableEq, Repr

structure ErrorBody where
  code : Text
  message : Text
deriving DecidableEq, Repr

structure BackendInfo where
  name : Text
  version : Text
  formats : List Text
  quantizations : List Text
  devices : List Text
  deviceMemory : Option UInt64
  capabilities : List Text
  isLocal : Bool
deriving DecidableEq, Repr

structure RawAttachment where
  id : Text
  kind : Text
  w : Option UInt32
  h : Option UInt32
  fmt : Option Text
  rate : Option UInt32
  data : List UInt8
deriving DecidableEq, Repr

/-! ### Client and daemon -/

inductive Request (F J : Type) where
  | hello (proto : UInt32)
  | attach (id : Text) (kind : AttachKind) (attachMeta : AttachMeta) (len : UInt64)
  | generate (messages : List Message) (stream : Bool) (params : Option (Params F))
      (grammar : Option Text) (tools : Option (List (ToolSchema J)))
  | toolResult (id content : Text)
  | embed (inputs : List Text)
  | tokenize (text : Text)
  | cancel
  | toolResults (results : List ToolResultItem)
  | generateMedia (kind : MediaKind) (prompt : Text) (params : Option (Params F)) (count : UInt32)

inductive Event (F : Type) where
  | hello (ok : Bool) (proto : UInt32) (session : SessionInfo)
  | token (tok : Text) (logprobs : Option (List (TokenProb F)))
  | toolCall (toolCall : ToolCall)
  | toolCalls (toolCalls : List ToolCall)
  | media (media : MediaOut)
  | vectors (vectors : List (List F))
  | tokens (tokens : List UInt32)
  | notice (event detail : Text)
  | done (done : Bool) (usage : Usage) (finishReason : Option Text)
  | error (error : ErrorBody)

/-! ### Daemon and backend -/

inductive BackendRequest (F J : Type) where
  | hello (proto : UInt32)
  | load (modelId path digest : Text) (nCtx : UInt32)
  | unload (modelId : Text)
  | generate (reqId : UInt64) (modelId sessionId : Text) (messages : List Message)
      (params : Params F) (grammar : Option Text) (tools : Option (List (ToolSchema J)))
      (parallelTools : Bool) (attachments : List RawAttachment)
  | embed (reqId : UInt64) (modelId : Text) (inputs : List Text)
  | generateMedia (reqId : UInt64) (modelId sessionId : Text) (kind : MediaKind) (prompt : Text)
      (params : Params F) (count : UInt32)
  | tokenize (reqId : UInt64) (modelId text : Text)
  | cancel (reqId : UInt64)
  | pause (reqId : UInt64)
  | resume (reqId : UInt64)
  | dropCache (sessionId : Text)
  | shutdown

inductive BackendEvent (F : Type) where
  | hello (proto : UInt32) (info : BackendInfo)
  | loaded (modelId : Text) (kvBytesPerToken : UInt64) (nCtx : UInt32)
  | unloaded (modelId : Text)
  | token (reqId : UInt64) (tok : Text) (logprobs : Option (List (TokenProb F)))
  | toolCall (reqId : UInt64) (toolCall : ToolCall)
  | toolCalls (reqId : UInt64) (toolCalls : List ToolCall)
  | media (reqId : UInt64) (kind : MediaKind) (w h : Option UInt32) (fmt : Option Text)
      (rate : Option UInt32) (data : List UInt8)
  | vectors (reqId : UInt64) (vectors : List (List F))
  | tokens (reqId : UInt64) (tokens : List UInt32)
  | done (reqId : UInt64) (usage : Usage) (finishReason : Option Text)
  | error (reqId : Option UInt64) (code message : Text)

end AiDaemon.Proto
