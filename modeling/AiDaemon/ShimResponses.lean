import AiDaemon.ShimChat

/-!
# Responses (`ai-daemon-shim`: `relay_responses_json`, `relay_responses_sse`)

The newer of the two OpenAI shapes: a reply is a list of output items, the text
as one message and then the tool calls.  A stream numbers all of its events.  It
announces the message at the first token and the calls after the last event, and
its last event carries the whole list again.
-/

namespace AiDaemon.Shim

open Proto Relay

variable {F D : Type}

/-! ### In one piece -/

/-- An item of the output, when it is complete. -/
inductive Item where
  | message (text : Text)
  | call (call : ToolCall)
deriving DecidableEq

/-- `responses_call_item`. -/
def responsesCallItem (call : ToolCall) : Json.Value D :=
  object [("type", string "function_call"), ("id", .str ("fc_".toList ++ call.id)),
    ("call_id", .str call.id), ("name", .str call.name), ("arguments", .str call.arguments),
    ("status", string "completed")]

def outputText (text : Text) : Json.Value D :=
  object [("type", string "output_text"), ("text", .str text), ("annotations", .arr [])]

def messageItem (msgId : Text) (status : String) (content : List (Json.Value D)) : Json.Value D :=
  object [("type", string "message"), ("id", .str msgId), ("status", string status),
    ("role", string "assistant"), ("content", .arr content)]

def Item.json (msgId : Text) : Item → Json.Value D
  | .message text => messageItem msgId "completed" [outputText text]
  | .call c => responsesCallItem c

/-- `responses_envelope`. -/
def responsesEnvelope (id model msgId : Text) (status : String) (output : List Item)
    (usage : Usage) : Json.Value D :=
  object [("id", .str id), ("object", string "response"), ("status", string status),
    ("model", .str model), ("output", .arr (output.map (Item.json msgId))),
    ("parallel_tool_calls", .bool true),
    ("usage", object [("input_tokens", number usage.promptTokens),
      ("output_tokens", number usage.completionTokens),
      ("total_tokens", number (totalTokens usage))])]

/-- A completed response. -/
structure ResponsesReply where
  output : List Item
  usage : Usage
deriving DecidableEq

def ResponsesReply.json (id model msgId : Text) (r : ResponsesReply) : Json.Value D :=
  responsesEnvelope id model msgId "completed" r.output r.usage

structure ResponsesState where
  text : Text
  calls : List ToolCall
  usage : Usage

def ResponsesState.new : ResponsesState := ⟨[], [], Usage.default⟩

def responsesStep (s : Waiting ResponsesState) :
    Event F → List (Said ResponsesReply) × Next (Waiting ResponsesState) Unit
  | .token tok _ => ([], .go { s with acc := { s.acc with text := s.acc.text ++ tok } })
  | .toolCall call => ([], .go { s with acc := { s.acc with calls := s.acc.calls ++ [call] } })
  | .toolCalls calls => ([], .go { s with acc := { s.acc with calls := s.acc.calls ++ calls } })
  | .done _ usage _ => ([], .break { s with acc := { s.acc with usage } })
  | .error error =>
    if s.abandoned then ([], .return ())
    else ([.respond (statusOf error.code) (.openAi error.code error.message)], .return ())
  | .hello _ _ _ | .media _ | .vectors _ | .tokens _ | .notice _ _ => ([], .go s)

def responsesLoop (hungUp : Nat → Bool) :
    Loop (Waiting ResponsesState) (Event F) (Said ResponsesReply) Unit Text where
  enter := Waiting.enter hungUp
  step := responsesStep

/-- The items of a reply: the text if there is any, and the calls. -/
def outputOf (text : Text) (calls : List ToolCall) : List Item :=
  (if text = [] then [] else [.message text]) ++ calls.map .call

def relayResponsesJson (hungUp : Nat → Bool) (session : Session F) :
    Outcome (Said ResponsesReply) :=
  match (responsesLoop hungUp).run ⟨.new, false, 0⟩ session.events session.ending with
  | (said, .failed e) => ⟨said, .error e⟩
  | (said, .returned _) => ⟨said, .ok ()⟩
  | (said, .broke s) =>
    if s.abandoned then ⟨said, .ok ()⟩
    else ⟨said ++ [.respond 200 (.ok ⟨outputOf s.acc.text s.acc.calls, s.acc.usage⟩)], .ok ()⟩

/-! ### Streaming -/

/-- An item when it is announced. The message has no content yet. -/
inductive ItemAdded where
  | message
  | call (call : ToolCall)
deriving DecidableEq

inductive ResponsesData where
  | created
  | itemAdded (index : Nat) (item : ItemAdded)
  | partAdded (index : Nat)
  | textDelta (index : Nat) (delta : Text)
  | textDone (index : Nat) (text : Text)
  | partDone (index : Nat) (text : Text)
  | itemDone (index : Nat) (item : Item)
  | argumentsDone (index : Nat) (call : ToolCall)
  | completed (response : ResponsesReply)
  | failed (code message : Text)
deriving DecidableEq

/-- An event with its sequence number. -/
structure Numbered where
  seq : Nat
  data : ResponsesData
deriving DecidableEq

def ItemAdded.json (msgId : Text) : ItemAdded → Json.Value D
  | .message => messageItem msgId "in_progress" []
  | .call c => responsesCallItem c

/-- What stands after `event: `, which is also the type in the data. -/
def ResponsesData.name : ResponsesData → String
  | .created => "response.created"
  | .itemAdded _ _ => "response.output_item.added"
  | .partAdded _ => "response.content_part.added"
  | .textDelta _ _ => "response.output_text.delta"
  | .textDone _ _ => "response.output_text.done"
  | .partDone _ _ => "response.content_part.done"
  | .itemDone _ _ => "response.output_item.done"
  | .argumentsDone _ _ => "response.function_call_arguments.done"
  | .completed _ => "response.completed"
  | .failed _ _ => "response.failed"

/-- The part of the message that an event is about. -/
def partMembers (msgId : Text) (index : Nat) : List (String × Json.Value D) :=
  [("item_id", .str msgId), ("output_index", number (.ofNat index)), ("content_index", number 0)]

def ResponsesData.members (id model msgId : Text) : ResponsesData → List (String × Json.Value D)
  | .created => [("response", responsesEnvelope id model msgId "in_progress" [] Usage.default)]
  | .itemAdded index item =>
    [("output_index", number (.ofNat index)), ("item", item.json msgId)]
  | .partAdded index => partMembers msgId index ++ [("part", outputText [])]
  | .textDelta index delta => partMembers msgId index ++ [("delta", .str delta)]
  | .textDone index text => partMembers msgId index ++ [("text", .str text)]
  | .partDone index text => partMembers msgId index ++ [("part", outputText text)]
  | .itemDone index item =>
    [("output_index", number (.ofNat index)), ("item", item.json msgId)]
  | .argumentsDone index call =>
    [("item_id", .str ("fc_".toList ++ call.id)), ("output_index", number (.ofNat index)),
      ("arguments", .str call.arguments)]
  | .completed response => [("response", response.json id model msgId)]
  | .failed code message =>
    [("response", object [("id", .str id), ("object", string "response"),
      ("status", string "failed"), ("model", .str model),
      ("error", object [("code", .str code), ("message", .str message)])])]

/-- What stands after `data: `. -/
def Numbered.json (id model msgId : Text) (n : Numbered) : Json.Value D :=
  object (("type", string n.data.name) :: n.data.members id model msgId ++
    [("sequence_number", number (.ofNat n.seq))])

/-- `send`, for several in a row. -/
def sendAll (seq : Nat) (datas : List ResponsesData) : List (Sent Numbered) :=
  (datas.zipIdx seq).map fun entry => .event ⟨entry.2, entry.1⟩

structure ResponsesStream where
  seq : Nat
  text : Text
  calls : List ToolCall
  usage : Usage
  textOpen : Bool
  index : Nat

/-- After `response.created`. -/
def ResponsesStream.new : ResponsesStream := ⟨1, [], [], Usage.default, false, 0⟩

def responsesStreamStep (s : ResponsesStream) :
    Event F → List (Sent Numbered) × Next ResponsesStream Unit
  | .token tok _ =>
    let opening : List ResponsesData :=
      if s.textOpen then [] else [.itemAdded s.index .message, .partAdded s.index]
    let datas := opening ++ [.textDelta s.index tok]
    (sendAll s.seq datas,
      .go { s with seq := s.seq + datas.length, text := s.text ++ tok, textOpen := true })
  | .toolCall call => ([], .go { s with calls := s.calls ++ [call] })
  | .toolCalls calls => ([], .go { s with calls := s.calls ++ calls })
  | .done _ usage _ => ([], .break { s with usage })
  | .error error => (sendAll s.seq [.failed error.code error.message], .return ())
  | .hello _ _ _ | .media _ | .vectors _ | .tokens _ | .notice _ _ => ([], .go s)

def responsesStreamLoop : Loop ResponsesStream (Event F) (Sent Numbered) Unit Text where
  enter s := ([], s)
  step := responsesStreamStep

/-- The end of the message, if it was announced. -/
def closeMessage (s : ResponsesStream) : List ResponsesData × Nat :=
  if s.textOpen then
    ([.textDone s.index s.text, .partDone s.index s.text, .itemDone s.index (.message s.text)],
      s.index + 1)
  else ([], s.index)

def streamCalls (index : Nat) : List ToolCall → List ResponsesData
  | [] => []
  | call :: calls =>
    [.itemAdded index (.call call), .argumentsDone index call, .itemDone index (.call call)] ++
      streamCalls (index + 1) calls

/-- After the loop. -/
def responsesEnd (s : ResponsesStream) : List ResponsesData :=
  let (closing, index) := closeMessage s
  closing ++ streamCalls index s.calls ++ [.completed ⟨outputOf s.text s.calls, s.usage⟩]

def relayResponsesSse (session : Session F) : Outcome (Sent Numbered) :=
  let created := sendAll 0 [.created]
  match responsesStreamLoop.run .new session.events session.ending with
  | (sent, .failed e) => ⟨.head :: created ++ sent, .error e⟩
  | (sent, .returned _) => ⟨.head :: created ++ sent, .ok ()⟩
  | (sent, .broke s) =>
    ⟨.head :: created ++ sent ++ sendAll s.seq (responsesEnd s), .ok ()⟩

end AiDaemon.Shim
