import AiDaemon.Shim

/-!
# Chat completions and embeddings (`ai-daemon-shim`: `relay_sse`, `relay_json`, `embeddings`)

The older of the two OpenAI shapes.  A stream is a sequence of chunks of one
shape and a marker at its end, an answer one message with its tool calls.  Both
loops know the event that carries one tool call; an event that carries several
falls to the arm that ignores what it does not know.
-/

namespace AiDaemon.Shim

open Proto Relay

variable {F D : Type}

/-! ### Streaming -/

/-- What `relay_sse` sends after the head. -/
inductive ChatData where
  | content (tok : Text)
  | toolCall (index : Nat) (call : ToolCall)
  | finish (finishReason : Text) (usage : Usage)
  | error (code message : Text)
  | done
deriving DecidableEq

def chatUsage (usage : Usage) : Json.Value D :=
  object [("prompt_tokens", number usage.promptTokens),
    ("completion_tokens", number usage.completionTokens),
    ("total_tokens", number (totalTokens usage))]

def chatCall (call : ToolCall) : List (String × Json.Value D) :=
  [("id", .str call.id), ("type", string "function"),
    ("function", object [("name", .str call.name), ("arguments", .str call.arguments)])]

def chatChunk (id model : Text) (delta finishReason : Json.Value D)
    (more : List (String × Json.Value D)) : Json.Value D :=
  object ([("id", .str id), ("object", string "chat.completion.chunk"), ("model", .str model),
    ("choices", .arr [object [("index", number 0), ("delta", delta),
      ("finish_reason", finishReason)]])] ++ more)

/-- What stands after `data: `, which is `[DONE]` for the marker. -/
def ChatData.json (id model : Text) : ChatData → Option (Json.Value D)
  | .content tok => some (chatChunk id model (object [("content", .str tok)]) .null [])
  | .toolCall index call =>
    some (chatChunk id model
      (object [("tool_calls", .arr [object (("index", number (.ofNat index)) :: chatCall call)])])
      .null [])
  | .finish finishReason usage =>
    some (chatChunk id model (object []) (.str finishReason) [("usage", chatUsage usage)])
  | .error code message => some (errorBody code message)
  | .done => none

def sseStep : Event F → List (Sent ChatData) × Next Unit Empty
  | .token tok _ => ([.event (.content tok)], .go ())
  | .toolCall call => ([.event (.toolCall 0 call)], .go ())
  | .notice event detail => ([.comment event detail], .go ())
  | .done _ usage finishReason =>
    ([.event (.finish (finishReason.getD "stop".toList) usage), .event .done], .break ())
  | .error error => ([.event (.error error.code error.message), .event .done], .break ())
  | .hello _ _ _ | .toolCalls _ | .media _ | .vectors _ | .tokens _ => ([], .go ())

def sseLoop : Loop Unit (Event F) (Sent ChatData) Empty Text where
  enter _ := ([], ())
  step _ event := sseStep event

def relaySse (session : Session F) : Outcome (Sent ChatData) :=
  match sseLoop.run () session.events session.ending with
  | (sent, .failed e) => ⟨.head :: sent, .error e⟩
  | (sent, .broke _) => ⟨.head :: sent, .ok ()⟩

/-! ### In one piece -/

/-- The answer. The content is null where there are tool calls. -/
structure ChatCompletion where
  content : Option Text
  toolCalls : List ToolCall
  finishReason : Text
  usage : Usage
deriving DecidableEq

def ChatCompletion.json (id model : Text) (c : ChatCompletion) : Json.Value D :=
  let message : List (String × Json.Value D) :=
    [("role", string "assistant"), ("content", (c.content.map Json.Value.str).getD .null)] ++
      if c.toolCalls = [] then []
      else [("tool_calls", .arr (c.toolCalls.map fun call => object (chatCall call)))]
  object [("id", .str id), ("object", string "chat.completion"), ("model", .str model),
    ("choices", .arr [object [("index", number 0), ("message", object message),
      ("finish_reason", .str c.finishReason)]]),
    ("usage", chatUsage c.usage)]

structure ChatState where
  content : Text
  toolCalls : List ToolCall

def completion (acc : ChatState) (usage : Usage) (finishReason : Option Text) : ChatCompletion where
  content := if acc.toolCalls = [] then some acc.content else none
  toolCalls := acc.toolCalls
  finishReason := finishReason.getD "stop".toList
  usage

def chatStep (s : Waiting ChatState) :
    Event F → List (Said ChatCompletion) × Next (Waiting ChatState) Unit
  | .token tok _ => ([], .go { s with acc := { s.acc with content := s.acc.content ++ tok } })
  | .toolCall call =>
    ([], .go { s with acc := { s.acc with toolCalls := s.acc.toolCalls ++ [call] } })
  | .done _ usage finishReason =>
    if s.abandoned then ([], .return ())
    else ([.respond 200 (.ok (completion s.acc usage finishReason))], .return ())
  | .error error =>
    ([.respond (statusOf error.code) (.openAi error.code error.message)], .return ())
  | .hello _ _ _ | .toolCalls _ | .media _ | .vectors _ | .tokens _ | .notice _ _ => ([], .go s)

def chatLoop (hungUp : Nat → Bool) :
    Loop (Waiting ChatState) (Event F) (Said ChatCompletion) Unit Text where
  enter := Waiting.enter hungUp
  step := chatStep

def relayJson (hungUp : Nat → Bool) (session : Session F) : Outcome (Said ChatCompletion) :=
  match (chatLoop hungUp).run ⟨⟨[], []⟩, false, 0⟩ session.events session.ending with
  | (said, .failed e) => ⟨said, .error e⟩
  | (said, .returned _) => ⟨said, .ok ()⟩
  | (said, .broke _) =>
    ⟨said ++ [.respond 400 (.openAi "api_error".toList
      "the session ended without a reply".toList)], .ok ()⟩

/-! ### Embeddings -/

structure Embeddings (F : Type) where
  data : List (Nat × List F)
  promptTokens : UInt64

/-- `float` is how a vector's numbers are written. -/
def Embeddings.json (float : F → Json.Value D) (model : Text) (e : Embeddings F) : Json.Value D :=
  object [("object", string "list"), ("model", .str model),
    ("data", .arr (e.data.map fun entry => object [("object", string "embedding"),
      ("index", number (.ofNat entry.1)), ("embedding", .arr (entry.2.map float))])),
    ("usage", object [("prompt_tokens", number e.promptTokens),
      ("total_tokens", number e.promptTokens)])]

/-- `format!("{}: {}", error.code, error.message)`. -/
def errorText (error : ErrorBody) : Text := error.code ++ ": ".toList ++ error.message

def embeddingsStep (e : Embeddings F) : Event F → List Empty × Next (Embeddings F) Text
  | .vectors vectors =>
    ([], .go { e with data := e.data ++ vectors.zipIdx.map fun entry => (entry.2, entry.1) })
  | .done _ usage _ => ([], .break { e with promptTokens := usage.promptTokens })
  | .error error => ([], .return (errorText error))
  | .hello _ _ _ | .token _ _ | .toolCall _ | .toolCalls _ | .media _ | .tokens _ | .notice _ _ =>
    ([], .go e)

def embeddingsLoop : Loop (Embeddings F) (Event F) Empty Text Text where
  enter e := ([], e)
  step := embeddingsStep

def embeddings (session : Session F) : Except Text (Embeddings F) :=
  match (embeddingsLoop.run ⟨[], 0⟩ session.events session.ending).2 with
  | .failed e => .error e
  | .returned e => .error e
  | .broke e => .ok e

/-- The end of `serve`, for the routes that hand it their result. -/
def answer {B : Type} (anthropic : Bool) (result : Except Text B) : Outcome (Said B) :=
  match result with
  | .ok body => ⟨[.respond 200 (.ok body)], .ok ()⟩
  | .error e =>
    let kind := "invalid_request_error".toList
    ⟨[.respond 400 (if anthropic then .anthropic kind e else .openAi kind e)], .ok ()⟩

def serveEmbeddings (session : Session F) : Outcome (Said (Embeddings F)) :=
  answer false (embeddings session)

end AiDaemon.Shim
