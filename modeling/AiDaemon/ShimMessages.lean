import AiDaemon.ShimChat

/-!
# Messages (`ai-daemon-shim`: `relay_anthropic_json`, `relay_anthropic_sse`, `count_tokens`)

An answer is a list of blocks, the text before the tool calls.  A stream sends
the same blocks one by one as named events: each is started, filled and stopped
under its index.  Text arrives in many pieces and stays open between them, a
tool call arrives whole.
-/

namespace AiDaemon.Shim

open Proto Relay

variable {F D : Type}

/-- `anthropic_stop_reason`. -/
def anthropicStopReason (finish : Option Text) (toolUsed : Bool) : Text :=
  if toolUsed then "tool_use".toList
  else if finish = some "length".toList then "max_tokens".toList
  else if finish = some "stop_sequence".toList then "stop_sequence".toList
  else "end_turn".toList

/-! ### In one piece -/

inductive Block (D : Type) where
  | text (text : Text)
  | toolUse (id name : Text) (input : Json.Value D)

/-- `tool_use_block`. Arguments that are not JSON become an empty object. -/
def toolUseBlock (floats : Json.Floats D) (call : ToolCall) : Block D :=
  .toolUse call.id call.name ((Json.fromStr floats call.arguments).getD (object []))

def Block.json : Block D → Json.Value D
  | .text t => object [("type", string "text"), ("text", .str t)]
  | .toolUse id name input =>
    object [("type", string "tool_use"), ("id", .str id), ("name", .str name), ("input", input)]

structure MessagesReply (D : Type) where
  content : List (Block D)
  stopReason : Text
  usage : Usage

def MessagesReply.json (id model : Text) (r : MessagesReply D) : Json.Value D :=
  object [("id", .str id), ("type", string "message"), ("role", string "assistant"),
    ("model", .str model), ("content", .arr (r.content.map Block.json)),
    ("stop_reason", .str r.stopReason), ("stop_sequence", .null),
    ("usage", object [("input_tokens", number r.usage.promptTokens),
      ("output_tokens", number r.usage.completionTokens)])]

structure MessagesState (D : Type) where
  text : Text
  blocks : List (Block D)
  usage : Usage
  finish : Option Text
  toolUsed : Bool

def MessagesState.new : MessagesState D := ⟨[], [], Usage.default, none, false⟩

def messagesErrorKind (code : Text) : Text :=
  if code = "policy-denied".toList then "permission_error".toList
  else if code = "rate-limited".toList then "rate_limit_error".toList
  else "invalid_request_error".toList

def messagesStep (floats : Json.Floats D) (s : Waiting (MessagesState D)) :
    Event F → List (Said (MessagesReply D)) × Next (Waiting (MessagesState D)) Unit
  | .token tok _ => ([], .go { s with acc := { s.acc with text := s.acc.text ++ tok } })
  | .toolCall call =>
    ([], .go { s with acc := { s.acc with
      toolUsed := true
      blocks := s.acc.blocks ++ [toolUseBlock floats call] } })
  | .toolCalls calls =>
    ([], .go { s with acc := { s.acc with
      toolUsed := true
      blocks := s.acc.blocks ++ calls.map (toolUseBlock floats) } })
  | .done _ usage finish => ([], .break { s with acc := { s.acc with usage, finish } })
  | .error error =>
    if s.abandoned then ([], .return ())
    else ([.respond (statusOf error.code)
      (.anthropic (messagesErrorKind error.code) error.message)], .return ())
  | .hello _ _ _ | .media _ | .vectors _ | .tokens _ | .notice _ _ => ([], .go s)

def messagesLoop (floats : Json.Floats D) (hungUp : Nat → Bool) :
    Loop (Waiting (MessagesState D)) (Event F) (Said (MessagesReply D)) Unit Text where
  enter := Waiting.enter hungUp
  step := messagesStep floats

/-- Text first, then the tool calls. -/
def messagesReply (acc : MessagesState D) : MessagesReply D where
  content := (if acc.text = [] then [] else [.text acc.text]) ++ acc.blocks
  stopReason := anthropicStopReason acc.finish acc.toolUsed
  usage := acc.usage

def relayAnthropicJson (floats : Json.Floats D) (hungUp : Nat → Bool) (session : Session F) :
    Outcome (Said (MessagesReply D)) :=
  match (messagesLoop floats hungUp).run ⟨.new, false, 0⟩ session.events session.ending with
  | (said, .failed e) => ⟨said, .error e⟩
  | (said, .returned _) => ⟨said, .ok ()⟩
  | (said, .broke s) =>
    if s.abandoned then ⟨said, .ok ()⟩
    else ⟨said ++ [.respond 200 (.ok (messagesReply s.acc))], .ok ()⟩

/-! ### Streaming -/

/-- The two kinds of block, with what a start says of one. -/
inductive BlockStart where
  | text
  | toolUse (id name : Text)
deriving DecidableEq

inductive BlockDelta where
  | text (text : Text)
  | inputJson (partialJson : Text)
deriving DecidableEq

/-- The named events of a stream. -/
inductive MessagesEvent where
  | messageStart
  | blockStart (index : Nat) (block : BlockStart)
  | blockDelta (index : Nat) (delta : BlockDelta)
  | blockStop (index : Nat)
  | messageDelta (stopReason : Text) (outputTokens : UInt64)
  | error (message : Text)
  | messageStop
deriving DecidableEq

def BlockStart.json : BlockStart → Json.Value D
  | .text => object [("type", string "text"), ("text", string "")]
  | .toolUse id name =>
    object [("type", string "tool_use"), ("id", .str id), ("name", .str name), ("input", object [])]

def BlockDelta.json : BlockDelta → Json.Value D
  | .text t => object [("type", string "text_delta"), ("text", .str t)]
  | .inputJson partialJson =>
    object [("type", string "input_json_delta"), ("partial_json", .str partialJson)]

/-- What stands after `event: `, which is also the type in the data. -/
def MessagesEvent.name : MessagesEvent → String
  | .messageStart => "message_start"
  | .blockStart _ _ => "content_block_start"
  | .blockDelta _ _ => "content_block_delta"
  | .blockStop _ => "content_block_stop"
  | .messageDelta _ _ => "message_delta"
  | .error _ => "error"
  | .messageStop => "message_stop"

def MessagesEvent.members (id model : Text) : MessagesEvent → List (String × Json.Value D)
  | .messageStart =>
    [("message", object [("id", .str id), ("type", string "message"), ("role", string "assistant"),
      ("model", .str model), ("content", .arr []), ("stop_reason", .null), ("stop_sequence", .null),
      ("usage", object [("input_tokens", number 0), ("output_tokens", number 0)])])]
  | .blockStart index block => [("index", number (.ofNat index)), ("content_block", block.json)]
  | .blockDelta index delta => [("index", number (.ofNat index)), ("delta", delta.json)]
  | .blockStop index => [("index", number (.ofNat index))]
  | .messageDelta stopReason outputTokens =>
    [("delta", object [("stop_reason", .str stopReason), ("stop_sequence", .null)]),
      ("usage", object [("output_tokens", number outputTokens)])]
  | .error message =>
    [("error", object [("type", string "api_error"), ("message", .str message)])]
  | .messageStop => []

/-- What stands after `data: `. -/
def MessagesEvent.json (id model : Text) (event : MessagesEvent) : Json.Value D :=
  object (("type", string event.name) :: event.members id model)

structure StreamState where
  index : Nat
  textOpen : Bool
  toolUsed : Bool
  usage : Usage
  finish : Option Text

def StreamState.new : StreamState := ⟨0, false, false, Usage.default, none⟩

/-- `close_text_block`: what it sends, and the state it leaves. -/
def closeTextBlock (s : StreamState) : List MessagesEvent × StreamState :=
  if s.textOpen then ([.blockStop s.index], { s with textOpen := false, index := s.index + 1 })
  else ([], s)

/-- `stream_tool_use`: what it sends, and the next index. -/
def streamToolUse (index : Nat) (call : ToolCall) : List MessagesEvent × Nat :=
  ([.blockStart index (.toolUse call.id call.name), .blockDelta index (.inputJson call.arguments),
    .blockStop index], index + 1)

def streamToolUses (index : Nat) : List ToolCall → List MessagesEvent × Nat
  | [] => ([], index)
  | call :: calls =>
    let (sent, index) := streamToolUse index call
    let (more, index) := streamToolUses index calls
    (sent ++ more, index)

def streamStep (s : StreamState) : Event F → List (Sent MessagesEvent) × Next StreamState Unit
  | .token tok _ =>
    let opening : List MessagesEvent := if s.textOpen then [] else [.blockStart s.index .text]
    let sent := opening ++ [.blockDelta s.index (.text tok)]
    (sent.map .event, .go { s with textOpen := true })
  | .toolCall call =>
    let (closing, s) := closeTextBlock s
    let (sent, index) := streamToolUse s.index call
    ((closing ++ sent).map .event, .go { s with index, toolUsed := true })
  | .toolCalls calls =>
    let (closing, s) := closeTextBlock s
    let (sent, index) := streamToolUses s.index calls
    ((closing ++ sent).map .event, .go { s with index, toolUsed := true })
  | .notice event detail => ([.comment event detail], .go s)
  | .done _ usage finish => ([], .break { s with usage, finish })
  | .error error =>
    let sent := (closeTextBlock s).1 ++ [.error (errorText error), .messageStop]
    (sent.map .event, .return ())
  | .hello _ _ _ | .media _ | .vectors _ | .tokens _ => ([], .go s)

def streamLoop : Loop StreamState (Event F) (Sent MessagesEvent) Unit Text where
  enter s := ([], s)
  step := streamStep

/-- After the loop: `close_text_block` and the two last events. -/
def streamEnd (s : StreamState) : List MessagesEvent :=
  (closeTextBlock s).1 ++
    [.messageDelta (anthropicStopReason s.finish s.toolUsed) s.usage.completionTokens, .messageStop]

def relayAnthropicSse (session : Session F) : Outcome (Sent MessagesEvent) :=
  match streamLoop.run .new session.events session.ending with
  | (sent, .failed e) => ⟨.head :: .event .messageStart :: sent, .error e⟩
  | (sent, .returned _) => ⟨.head :: .event .messageStart :: sent, .ok ()⟩
  | (sent, .broke s) =>
    ⟨.head :: .event .messageStart :: (sent ++ (streamEnd s).map .event), .ok ()⟩

/-! ### Counting tokens -/

def countTokensStep (count : Nat) : Event F → List Empty × Next Nat Text
  | .tokens tokens => ([], .go tokens.length)
  | .done _ _ _ => ([], .break count)
  | .error error => ([], .return (errorText error))
  | .hello _ _ _ | .token _ _ | .toolCall _ | .toolCalls _ | .media _ | .vectors _ | .notice _ _ =>
    ([], .go count)

def countTokensLoop : Loop Nat (Event F) Empty Text Text where
  enter count := ([], count)
  step := countTokensStep

def countTokens (session : Session F) : Except Text Nat :=
  match (countTokensLoop.run 0 session.events session.ending).2 with
  | .failed e => .error e
  | .returned e => .error e
  | .broke count => .ok count

def countJson (count : Nat) : Json.Value D := object [("input_tokens", number (.ofNat count))]

def serveCountTokens (session : Session F) : Outcome (Said Nat) := answer true (countTokens session)

end AiDaemon.Shim
