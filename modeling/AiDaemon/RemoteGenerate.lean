import AiDaemon.Json
import AiDaemon.Proto
import AiDaemon.Relay

/-!
# Generating on another machine (`ai-daemon-backend-remote`: `generate`)

The remote backend hands a request to an endpoint that speaks the OpenAI
protocol, by way of `curl`, and reads its answer line by line.  A line is a
chunk of the reply in JSON.  Text goes on to the daemon at once, tool calls are
collected and go out together after the transfer.

The model starts where the transfer has started.  What happens around it is a
parameter: the flag of a cancel, as it is found each time it is looked at, and
how `curl` ended.
-/

namespace AiDaemon.Remote

open Proto Relay Json

variable {F D J : Type}

/-! ### A line of the reply -/

/-- What stands after `data: `. -/
def payloadOf (line : Text) : Option Text := ("data: ".toList.isPrefixOf? line).map Text.trim

/-- The first choice of a chunk. -/
def choiceOf (chunk : Value D) : Option (Value D) :=
  (chunk.get "choices".toList).bind (Value.item 0)

def deltaOf (choice : Value D) : Option (Value D) := choice.get "delta".toList

/-- The tool calls of a delta. -/
def toolCallsOf (choice : Value D) : Option (List (Value D)) :=
  ((deltaOf choice).bind (Value.get "tool_calls".toList)).bind Value.asArray

def contentOf (choice : Value D) : Option Text :=
  ((deltaOf choice).bind (Value.get "content".toList)).bind Value.asStr

def idOf (call : Value D) : Option Text := (call.get "id".toList).bind Value.asStr

def nameOf (call : Value D) : Option Text :=
  ((call.get "function".toList).bind (Value.get "name".toList)).bind Value.asStr

def argumentsOf (call : Value D) : Option Text :=
  ((call.get "function".toList).bind (Value.get "arguments".toList)).bind Value.asStr

/-- One alternative for a token. `single` is `as_f64` and the cast to `f32`. -/
def tokenProb (single : Number D → F) (alternative : Value D) : Option (TokenProb F) :=
  match (alternative.get "token".toList).bind Value.asStr,
    alternative.get "logprob".toList with
  | some tok, some (.num n) => some ⟨tok, single n⟩
  | _, _ => none

def logprobsOf (single : Number D → F) (choice : Value D) : Option (List (TokenProb F)) :=
  let entries := ((choice.get "logprobs".toList).bind (Value.get "content".toList)).bind
    Value.asArray
  let top := ((entries.bind List.head?).bind (Value.get "top_logprobs".toList)).bind Value.asArray
  top.map (List.filterMap (tokenProb single))

/-! ### The loop -/

/-- How `curl` ended, and what it wrote to its standard error. -/
structure Transfer where
  success : Bool
  stderr : Text

/-- A request under way. A transfer that a cancel has taken out of the map is
    none. -/
structure Generation (D F J : Type) where
  floats : Floats D
  single : Number D → F
  reqId : UInt64
  tools : List (ToolSchema J)
  parallelTools : Bool
  baseUrl : Text
  cancelled : Nat → Bool
  transfer : Option Transfer

structure Generating where
  emitted : UInt64
  promptTokens : UInt64
  finishReason : Option Text
  collected : List ToolCall
  /-- How often the flag has been looked at. -/
  looked : Nat
  /-- The loop was left before the end of the lines. -/
  stopped : Bool

def Generating.new : Generating := ⟨0, 0, none, [], 0, false⟩

/-- What the loop makes of one element of `tool_calls`, when it has collected
    `n`. -/
def toolCallOf (reqId : UInt64) (n : Nat) (call : Value D) : ToolCall where
  id := (idOf call).getD ("call-".toList ++ Text.ofNat reqId.toNat ++ '-' :: Text.ofNat n)
  name := (nameOf call).getD []
  arguments := (argumentsOf call).getD "{}".toList

def collect (reqId : UInt64) (collected : List ToolCall) (calls : List (Value D)) :
    List ToolCall :=
  calls.foldl (fun collected call => collected ++ [toolCallOf reqId collected.length call])
    collected

variable (g : Generation D F J)

/-- The usage and the finish reason that a chunk brings. -/
def noteUsage (s : Generating) (chunk : Value D) : Generating :=
  match chunk.get "usage".toList with
  | some usage =>
    { s with
      promptTokens := ((usage.get "prompt_tokens".toList).bind Value.asU64).getD s.promptTokens }
  | none => s

def noteFinish (s : Generating) (choice : Value D) : Generating :=
  match (choice.get "finish_reason".toList).bind Value.asStr with
  | some reason => { s with finishReason := some reason }
  | none => s

def choiceStep (s : Generating) (choice : Value D) : List (BackendEvent F) × Generating :=
  match toolCallsOf choice with
  | some calls => ([], { s with collected := collect g.reqId s.collected calls })
  | none =>
    match contentOf choice with
    | none | some [] => ([], s)
    | some tok =>
      let sent := if g.tools.isEmpty then [.token g.reqId tok (logprobsOf g.single choice)] else []
      (sent, { s with emitted := s.emitted + 1 })

def chunkStep (s : Generating) (chunk : Value D) : List (BackendEvent F) × Generating :=
  let s := noteUsage s chunk
  match choiceOf chunk with
  | none => ([], s)
  | some choice => choiceStep g (noteFinish s choice) choice

def lineStep (s : Generating) (line : Text) : List (BackendEvent F) × Next Generating Empty :=
  let looked := s.looked + 1
  if g.cancelled s.looked then
    ([], .break { s with finishReason := some "cancelled".toList, looked, stopped := true })
  else
    let s := { s with looked }
    match payloadOf line with
    | none => ([], .go s)
    | some payload =>
      if payload = "[DONE]".toList then ([], .break { s with stopped := true })
      else if payload = [] then ([], .go s)
      else
        match fromStr g.floats payload with
        | none => ([], .go s)
        | some chunk =>
          let (sent, s) := chunkStep g s chunk
          (sent, .go s)

def generateLoop : Loop Generating Text (BackendEvent F) Empty Text where
  enter s := ([], s)
  step := lineStep g

/-! ### After the loop -/

/-- At the end of the lines the flag is looked at once more. -/
def atEnd (s : Generating) : Generating :=
  if s.stopped then s
  else if g.cancelled s.looked then
    { s with finishReason := some "cancelled".toList, looked := s.looked + 1 }
  else { s with looked := s.looked + 1 }

/-- The complaint of a transfer that failed. -/
def complaintOf (stderr : Text) : Text :=
  let complaint := Text.trim stderr
  if complaint = [] then
    "the transfer to ".toList ++ g.baseUrl ++ " failed and said nothing".toList
  else (Text.lines complaint).getLast?.getD complaint

def failure (s : Generating) : Option Text :=
  g.transfer.bind fun transfer =>
    if transfer.success = false ∧ g.cancelled s.looked = false then
      some (complaintOf g transfer.stderr)
    else none

/-- The event for the calls that were collected. -/
def callEvents : List ToolCall → List (BackendEvent F)
  | [] => []
  | call :: calls =>
    if calls ≠ [] ∧ g.parallelTools = true then [.toolCalls g.reqId (call :: calls)]
    else [.toolCall g.reqId call]

def lastEvents (s : Generating) : List (BackendEvent F) :=
  let finishReason := if s.collected = [] then s.finishReason else some "tool_call".toList
  callEvents g s.collected ++
    [.done g.reqId ⟨s.promptTokens, s.emitted, 0, 0⟩ (some (finishReason.getD "stop".toList))]

/-- What is sent to the daemon, and whether it went well. -/
def generate (lines : List Text) (ending : Ending Text) :
    List (BackendEvent F) × Except Text Unit :=
  match (generateLoop g).run .new lines ending with
  | (sent, .failed e) => (sent, .error e)
  | (sent, .broke s) =>
    let s := atEnd g s
    match failure g s with
    | some complaint => (sent, .error complaint)
    | none => (sent ++ lastEvents g s, .ok ())

end AiDaemon.Remote
