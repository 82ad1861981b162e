import AiDaemon.Ledger
import AiDaemon.RemoteGenerate

/-!
# The llama.cpp backend (`ai-daemon-backend-llamacpp`)

One thread reads the daemon's requests and handles them in turn.  A `Generate`, an
`Embed` and a `Tokenize` each get a thread of their own, which talks to a
`llama-server` and writes to the daemon.  A generation is reached through three
tables: its pause flag, its cancel flag and the socket it reads from.

A thread takes small steps here: one read off its socket, one look at a flag, one
event sent, one entry taken out of a table.  Between any two of them the other threads
may do anything.  What the operating system and `llama-server` answer is part of a
step.  Both flags are seen as they are at the time of the look.
-/

namespace AiDaemon.LlamaCpp

open Json Ledger Proto
open Remote (payloadOf choiceOf contentOf logprobsOf)

variable {F D J : Type}

/-! ### A line of the reply -/

/-- What the reader makes of a line. -/
inductive Line (D : Type) where
  | skipped
  | done
  | chunk (chunk : Value D)

def lineOf (floats : Floats D) (line : Text) : Line D :=
  match payloadOf line with
  | none => .skipped
  | some payload =>
    if payload = "[DONE]".toList then .done
    else if payload = [] then .skipped
    else
      match fromStr floats payload with
      | none => .skipped
      | some chunk => .chunk chunk

structure Generating where
  completion : Text
  emitted : UInt64
  promptTokens : UInt64
  finishReason : Option Text
deriving DecidableEq

def Generating.new : Generating := ⟨[], 0, 0, none⟩

def Generating.cancelled (s : Generating) : Generating :=
  { s with finishReason := some "cancelled".toList }

/-- The usage and the finish reason of a chunk. -/
def Generating.note (s : Generating) (chunk : Value D) : Generating where
  completion := s.completion
  emitted := s.emitted
  promptTokens :=
    match chunk.get "usage".toList with
    | some usage => ((usage.get "prompt_tokens".toList).bind Value.asU64).getD s.promptTokens
    | none => s.promptTokens
  finishReason :=
    match choiceOf chunk with
    | some choice =>
      ((choice.get "finish_reason".toList).bind Value.asStr).or s.finishReason
    | none => s.finishReason

/-- The text of a chunk, when it has some. -/
def tokenOf (chunk : Value D) : Option Text :=
  ((choiceOf chunk).bind contentOf).filter fun tok => tok ≠ []

def Generating.chunk (s : Generating) (chunk : Value D) : Generating :=
  match tokenOf chunk with
  | some tok =>
    { s.note chunk with completion := s.completion ++ tok, emitted := s.emitted + 1 }
  | none => s.note chunk

/-! ### Tool calls -/

/-- `fnv`: FNV-1a over the bytes. -/
def fnv (text : Text) : UInt64 :=
  (text.flatMap String.utf8EncodeChar).foldl
    (fun hash byte => (hash ^^^ byte.toUInt64) * 0x00000100000001b3) 0xcbf29ce484222325

def parseToolCall (floats : Floats D) (text : Text) : Option ToolCall := do
  let value : Value D ← fromStr floats text.trim
  let name ← (value.get "name".toList).bind Value.asStr
  let arguments := (value.get "arguments".toList).getD (.obj [])
  return ⟨"call-".toList ++ Nat.toDigits 16 (fnv text).toNat, name, write floats arguments⟩

/-- `split_inclusive` at a space. -/
def splitInclusive : Text → List Text
  | [] => []
  | c :: cs =>
    if c = ' ' then [c] :: splitInclusive cs
    else
      match splitInclusive cs with
      | [] => [[c]]
      | piece :: pieces => (c :: piece) :: pieces

/-! ### The threads -/

/-- What the process finds around it. `describe` is what the JSON reader says against a
    text. -/
structure Around (F D : Type) where
  floats : Floats D
  single : Number D → F
  describe : Text → Text
  available : Bool
  devices : List Text
  version : Text

inductive Job where
  | generate (hasTools : Bool)
  | embed
  | tokenize
deriving DecidableEq

structure Task where
  reqId : UInt64
  modelId : Text
  job : Job
deriving DecidableEq

def Task.hasTools (task : Task) : Bool := task.job = .generate true

/-- Where a thread stands. The last three have said all they will say. -/
inductive Place (F D : Type) where
  | starting
  /-- Connected; the socket is not in its table yet. -/
  | connected
  | requesting
  | headers (statusOk : Bool)
  | refused
  | reading (s : Generating)
  /-- With a chunk that has not been passed on, before a look at the pause flag. -/
  | holding (s : Generating) (chunk : Value D)
  /-- The pause flag was set; before a look at the cancel flag. -/
  | paused (s : Generating) (chunk : Value D)
  /-- Out of the pause; before the look at the cancel flag that decides. -/
  | deciding (s : Generating) (chunk : Value D)
  | passing (s : Generating) (chunk : Value D)
  | closing (queue : List (BackendEvent F))
  | unpaused
  | uncancelled
  | gone

/-- What the world answers to one operation. -/
inductive Answer where
  | ok
  | failed (error : Text)
  | line (line : Text)
  | eof
  | response (text : Text)
deriving DecidableEq

/-- What a step does to the tables. -/
inductive Touch where
  | nothing
  | register
  | forgetPaused
  | forgetCancelled
  | forgetStream
deriving DecidableEq

section

variable (around : Around F D) (task : Task)

/-- How a thread reports an error of its job. -/
def errorEvent (message : Text) : BackendEvent F :=
  .error (some task.reqId) "backend-failed".toList message

/-- After the loop. -/
def lastEvents (s : Generating) : List (BackendEvent F) :=
  let call := if task.hasTools then parseToolCall around.floats s.completion else none
  let told :=
    match call with
    | some call => [.toolCall task.reqId call]
    | none =>
      if task.hasTools then (splitInclusive s.completion).map (.token task.reqId · none) else []
  let finishReason := if call.isSome then some "tool_call".toList else s.finishReason
  told ++ [.done task.reqId ⟨s.promptTokens, s.emitted, 0, 0⟩
    (some (finishReason.getD "stop".toList))]

/-- The events of a chunk. -/
def chunkEvents (chunk : Value D) : List (BackendEvent F) :=
  match tokenOf chunk with
  | some tok =>
    if task.hasTools then []
    else [.token task.reqId tok ((choiceOf chunk).bind (logprobsOf around.single))]
  | none => []

/-- The body of a one-shot reply, behind `split_once`. -/
def splitHead : Text → Option (Text × Text)
  | [] => none
  | c :: cs =>
    match "\r\n\r\n".toList.isPrefixOf? (c :: cs) with
    | some body => some ([], body)
    | none => (splitHead cs).map fun cut => (c :: cut.1, cut.2)

/-- `http`, behind the transfer. -/
def httpReply (response : Text) : Except Text Text :=
  match splitHead response with
  | none => .error "malformed HTTP reply from llama-server".toList
  | some (head, payload) =>
    let status := head.lines.headD []
    if " 200 ".toList <:+: status then .ok payload
    else .error ("llama-server said: ".toList ++ status)

/-- An array of numbers, cast one by one. -/
def vectorOf (entry : Value D) : List F :=
  match (entry.get "embedding".toList).bind Value.asArray with
  | some values => values.filterMap fun value =>
      match value with
      | .num n => some (around.single n)
      | _ => none
  | none => []

/-- `embed`, with what is sent after it. -/
def embedEvents (response : Except Text Text) : List (BackendEvent F) :=
  match response.bind httpReply with
  | .error e => [errorEvent task e]
  | .ok text =>
    match fromStr around.floats text with
    | none => [errorEvent task ("embedding reply: ".toList ++ around.describe text)]
    | some json =>
      match (json.get "data".toList).bind Value.asArray with
      | none => [errorEvent task "no embeddings in the reply".toList]
      | some data =>
        [.vectors task.reqId (data.map (vectorOf around)),
          .done task.reqId .default (some "stop".toList)]

/-- `tokenize`, with what is sent after it. -/
def tokenizeEvents (response : Except Text Text) : List (BackendEvent F) :=
  match response.bind httpReply with
  | .error e => [errorEvent task e]
  | .ok text =>
    match fromStr around.floats text with
    | none => [errorEvent task ("tokenize reply: ".toList ++ around.describe text)]
    | some json =>
      let tokens := (((json.get "tokens".toList).bind Value.asArray).getD []).filterMap
        fun value => value.asU64.map UInt64.toUInt32
      [.tokens task.reqId tokens,
        .done task.reqId { Usage.default with promptTokens := UInt64.ofNat tokens.length }
          (some "stop".toList)]

/-- The first steps of a thread: the port of its model, and the connection to it. -/
def start (port : Option UInt16) (answer : Answer) : Option (Place F D) :=
  match port, task.job, answer with
  | none, _, .ok => some (.closing [errorEvent task (task.modelId ++ " is not loaded".toList)])
  | some _, .generate _, .ok => some .connected
  | some port, .generate _, .failed e =>
    some (.closing [errorEvent task ("connecting to llama-server on ".toList ++
      Text.ofNat port.toNat ++ ": ".toList ++ e)])
  | some _, .embed, .response text => some (.closing (embedEvents around task (.ok text)))
  | some _, .embed, .failed e => some (.closing (embedEvents around task (.error e)))
  | some _, .tokenize, .response text => some (.closing (tokenizeEvents around task (.ok text)))
  | some _, .tokenize, .failed e => some (.closing (tokenizeEvents around task (.error e)))
  | _, _, _ => none

def headerLine (statusOk : Bool) (line : Text) : Place F D :=
  let statusOk :=
    if "HTTP/".toList.isPrefixOf line then decide (" 200 ".toList <:+: line) else statusOk
  if line = "\r\n".toList ∨ line = "\n".toList then
    if statusOk then .reading .new else .refused
  else .headers statusOk

def readLine (s : Generating) (line : Text) : Place F D :=
  match lineOf around.floats line with
  | .skipped => .reading s
  | .done => .closing (lastEvents around task s)
  | .chunk chunk => .holding s chunk

/-- One step of a thread whose flags are `paused` and `cancelled`: where it goes, what it
    sends, and what it does to the tables. -/
def advance (port : Option UInt16) (paused cancelled : Bool) :
    Place F D → Answer → Option (Place F D × List (BackendEvent F) × Touch)
  | .starting, answer =>
    (start around task port answer).map fun place => (place, [], .nothing)
  | .connected, .ok => some (.requesting, [], .register)
  | .connected, .failed _ => some (.requesting, [], .nothing)
  | .requesting, .ok => some (.headers false, [], .nothing)
  | .requesting, .failed e =>
    some (.closing [errorEvent task ("writing to llama-server: ".toList ++ e)], [], .nothing)
  | .headers statusOk, .line line => some (headerLine statusOk line, [], .nothing)
  | .headers _, .eof =>
    some (.closing [errorEvent task "llama-server closed before answering".toList], [], .nothing)
  | .headers _, .failed e => some (.closing [errorEvent task e], [], .nothing)
  | .refused, .response rest =>
    some (.closing [errorEvent task ("llama-server refused the request: ".toList ++ rest.trim)],
      [], .nothing)
  | .reading s, .line line => some (readLine around task s line, [], .nothing)
  | .reading s, .eof =>
    some (.closing (lastEvents around task (if cancelled then s.cancelled else s)), [], .nothing)
  | .reading s, .failed e =>
    some (.closing (if cancelled then lastEvents around task s.cancelled else [errorEvent task e]),
      [], .nothing)
  | .holding s chunk, .ok =>
    some (if paused then .paused s chunk else .deciding s chunk, [], .nothing)
  | .paused s chunk, .ok =>
    some (if cancelled then .deciding s chunk else .holding s chunk, [], .nothing)
  | .deciding s chunk, .ok =>
    some (if cancelled then .closing (lastEvents around task s.cancelled) else .passing s chunk, [],
      .nothing)
  | .passing s chunk, .ok =>
    some (.reading (s.chunk chunk), chunkEvents around task chunk, .nothing)
  | .closing (event :: queue), .ok => some (.closing queue, [event], .nothing)
  | .closing [], .ok =>
    match task.job with
    | .generate _ => some (.unpaused, [], .forgetPaused)
    | .embed | .tokenize => some (.gone, [], .nothing)
  | .unpaused, .ok => some (.uncancelled, [], .forgetCancelled)
  | .uncancelled, .ok => some (.gone, [], .forgetStream)
  | _, _ => none

end

/-! ### The process -/

structure Loaded where
  port : UInt16
  nCtx : UInt32
  kvBytesPerToken : UInt64

def kvDefault : UInt64 := 131072

/-- `kv_estimate`, from the body of `/props` where there is one. -/
def kvEstimate (floats : Floats D) (props : Option Text) : UInt64 :=
  let model := ((props.bind (fromStr floats)).bind
    (Value.get "default_generation_settings".toList)).bind (Value.get "model".toList)
  let number name := (model.bind (Value.get name)).bind Value.asU64
  match number "n_layer".toList, number "n_head_kv".toList, number "n_embd".toList with
  | some layers, some heads, some embd =>
    if heads > 0 then max (layers * heads * (embd / max heads 1) * 2 * 2) 1024 else kvDefault
  | _, _, _ => kvDefault

structure Thread (F D : Type) where
  task : Task
  place : Place F D
  paused : Bool
  cancelled : Bool
  shut : Bool

/-- The process. An entry of a table is the thread whose flag or socket it holds. -/
structure Process (F D : Type) where
  models : Table Text Loaded
  paused : Table UInt64 Nat
  cancelled : Table UInt64 Nat
  streams : Table UInt64 Nat
  threads : List (Thread F D)
  /-- Between the two halves of a `Cancel`. -/
  cancelling : Option UInt64
  stopped : Bool
  /-- The numbers that have come with a request. -/
  received : List UInt64
  out : List (BackendEvent F)

def Process.new : Process F D := ⟨∅, ∅, ∅, ∅, [], none, false, [], []⟩

/-- How a model comes up: the port of its server and what that says of itself. -/
abbrev LoadAnswer := Except Text (UInt16 × Option Text)

inductive Act (F J : Type) where
  /-- The main thread handles a request; the answer is for a `Load`. -/
  | request (request : BackendRequest F J) (load : LoadAnswer)
  /-- The second half of a `Cancel`. -/
  | shut
  /-- The daemon has gone, or does not make sense. -/
  | hangUp
  | thread (i : Nat) (answer : Answer)

namespace Process

variable (st : Process F D)

def send (events : List (BackendEvent F)) : Process F D := { st with out := st.out ++ events }

def stop : Process F D := { st with stopped := true, models := ∅ }

/-- Change the thread a table has under a number. -/
def change (table : Table UInt64 Nat) (reqId : UInt64) (f : Thread F D → Thread F D) :
    Process F D :=
  match table.lookup reqId with
  | some i => { st with threads := st.threads.modify i f }
  | none => st

def spawn (task : Task) : Process F D :=
  { st with threads := st.threads ++ [⟨task, .starting, false, false, false⟩] }

def receive (reqId : UInt64) : Process F D := { st with received := reqId :: st.received }

variable (around : Around F D)

def quantizations : List Text :=
  ["q2_k", "q3_k_m", "q4_0", "q4_k_s", "q4_k_m", "q5_k_m", "q6_k", "q8_0", "f16", "bf16",
    "f32"].map String.toList

def info : BackendInfo where
  name := "llamacpp".toList
  version := around.version
  formats := if around.available then ["gguf".toList] else []
  quantizations := quantizations
  devices := around.devices
  deviceMemory := none
  capabilities :=
    if around.available then
      ["generate", "embed", "logprobs", "grammar", "tools"].map String.toList
    else []
  isLocal := true

def backendProto : UInt32 := 2

def load (modelId : Text) (nCtx : UInt32) (answer : LoadAnswer) : Process F D :=
  match st.models.lookup modelId with
  | some loaded => st.send [.loaded modelId loaded.kvBytesPerToken loaded.nCtx]
  | none =>
    match answer with
    | .error e => st.send [.error none "backend-failed".toList e]
    | .ok (port, props) =>
      let nCtx := if nCtx = 0 then 4096 else nCtx
      let kv := kvEstimate around.floats props
      { st with models := st.models.insert modelId ⟨port, nCtx, kv⟩ }.send [.loaded modelId kv nCtx]

/-- `handle`. -/
def handle (answer : LoadAnswer) : BackendRequest F J → Process F D
  | .hello proto =>
    if proto ≠ backendProto then
      (st.send [.error none "protocol".toList
        ("llamacpp speaks protocol ".toList ++ Text.ofNat backendProto.toNat)]).stop
    else st.send [.hello backendProto (info around)]
  | .load modelId _ _ nCtx => st.load around modelId nCtx answer
  | .unload modelId => { st with models := st.models.erase modelId }.send [.unloaded modelId]
  | .generate reqId modelId _ _ _ _ tools _ attachments =>
    if attachments.isEmpty then
      { (st.receive reqId).spawn ⟨reqId, modelId, .generate (tools.any fun t => !t.isEmpty)⟩ with
        paused := st.paused.insert reqId st.threads.length
        cancelled := st.cancelled.insert reqId st.threads.length }
    else
      (st.receive reqId).send [.error (some reqId) "attachment-unsupported".toList
        "this backend does not declare vision or audio-in".toList]
  | .embed reqId modelId _ => (st.receive reqId).spawn ⟨reqId, modelId, .embed⟩
  | .tokenize reqId modelId _ => (st.receive reqId).spawn ⟨reqId, modelId, .tokenize⟩
  | .cancel reqId =>
    { st.change st.cancelled reqId fun t => { t with cancelled := true } with
      cancelling := some reqId }
  | .pause reqId => st.change st.paused reqId fun t => { t with paused := true }
  | .resume reqId => st.change st.paused reqId fun t => { t with paused := false }
  | .dropCache _ => st
  | .generateMedia reqId _ _ kind _ _ _ =>
    (st.receive reqId).send [.error (some reqId) "attachment-unsupported".toList
      ("llamacpp does not generate ".toList ++ kind.asStr)]
  | .shutdown => st.stop

/-- The number that a request brings. The daemon counts them up. -/
def numberOf : BackendRequest F J → Option UInt64
  | .generate reqId .. | .embed reqId .. | .tokenize reqId .. | .generateMedia reqId .. =>
    some reqId
  | _ => none

def touch (i : Nat) (reqId : UInt64) : Touch → Process F D
  | .nothing => st
  | .register => { st with streams := st.streams.insert reqId i }
  | .forgetPaused => { st with paused := st.paused.erase reqId }
  | .forgetCancelled => { st with cancelled := st.cancelled.erase reqId }
  | .forgetStream => { st with streams := st.streams.erase reqId }

/-- A step of the thread `i`. -/
def advance (i : Nat) (answer : Answer) : Option (Process F D) :=
  st.threads[i]?.bind fun t =>
    (LlamaCpp.advance around t.task ((st.models.lookup t.task.modelId).map Loaded.port) t.paused
      t.cancelled t.place answer).map fun (place, events, touched) =>
        ({ st with threads := st.threads.set i { t with place } }.send events).touch i
          t.task.reqId touched

end Process

def step (around : Around F D) (st : Process F D) : Act F J → Option (Process F D)
  | .request request answer =>
    if st.stopped ∨ st.cancelling.isSome ∨ ∃ reqId ∈ Process.numberOf request, reqId ∈ st.received
    then none
    else some (st.handle around answer request)
  | .shut =>
    st.cancelling.map fun reqId =>
      { st.change st.streams reqId fun t => { t with shut := true } with cancelling := none }
  | .hangUp => if st.stopped ∨ st.cancelling.isSome then none else some st.stop
  | .thread i answer => st.advance around i answer

end AiDaemon.LlamaCpp
