import AiDaemon.ShimBodies
import AiDaemon.ToolCallsKept

/-!
# The model a reply names (`main.rs`: `model_for`, `chat`, `messages`, `responses`, `embeddings`)

A client's name is translated before a session is opened.  Two of the four
routes keep what the client sent for the reply; chat completions and embeddings
reply under the translated name.
-/

namespace AiDaemon.Shim

open Proto Relay

variable {F D : Type}

/-! ### The table -/

/-- `ShimModel`. -/
structure ShimModel where
  «from» : Text
  «to» : Text
deriving DecidableEq

/-- `model_for`: the first exact match, then the first catch-all. -/
def modelFor (models : List ShimModel) (asked : Text) : Text :=
  match models.find? fun entry => entry.«from» = asked with
  | some entry => entry.«to»
  | none =>
    match models.find? fun entry => entry.«from» = "*".toList with
    | some entry => entry.«to»
    | none => asked

/-! ### The routes -/

/-- What is around a request: the daemon's answer to `open_session` with what is
    read off the session behind the greeting, when the client hangs up, and how
    things are written. -/
structure Surroundings (F D : Type) where
  openSession : Text → Except Text (Session F)
  hungUp : Nat → Bool
  id : Text
  msgId : Text
  floats : Json.Floats D
  float : F → Json.Value D
  single : Json.Number D → F
  debug : Text → Text

/-- The names a route opened sessions on, and the JSON documents it wrote. -/
structure Served (D : Type) where
  opened : List Text
  reply : List (Json.Value D)

/-- The data of the events of a stream. -/
def Outcome.documents {E : Type} (json : E → Option (Json.Value D)) (outcome : Outcome (Sent E)) :
    List (Json.Value D) :=
  (eventsOf outcome.sent).filterMap json

def Said.body {B : Type} : Said B → Option (Body B)
  | .cancel => none
  | .respond _ body => some body

/-- The bodies of the answers. -/
def Outcome.bodies {B : Type} (json : B → Json.Value D) (outcome : Outcome (Said B)) :
    List (Json.Value D) :=
  (outcome.sent.filterMap Said.body).map (Body.json json)

variable (around : Surroundings F D) (models : List ShimModel)

/-- `chat`. -/
def serveChat (body : Json.Value D) : Served D :=
  let model := modelFor models (modelOf body)
  { opened := [model]
    reply :=
      match around.openSession model with
      | .error e => [errorBody "permission_error".toList e]
      | .ok session =>
        match chatBody around.single body with
        | .error e => [errorBody "invalid_request_error".toList e]
        | .ok _ =>
          if streamOf body then (relaySse session).documents (ChatData.json around.id model)
          else
            (relayJson around.hungUp session).bodies (ChatCompletion.json around.id model) }

/-- `messages`. -/
def serveMessages (body : Json.Value D) : Served D :=
  let model := modelFor models (modelOf body)
  { opened := [model]
    reply :=
      match around.openSession model with
      | .error e => [anthropicError "permission_error".toList e]
      | .ok session =>
        match parseMessagesBody around.floats around.debug around.single body with
        | .error e => [anthropicError "invalid_request_error".toList e]
        | .ok turn =>
          if turn.stream then
            (relayAnthropicSse session).documents fun event =>
              some (event.json around.id turn.model)
          else
            (relayAnthropicJson around.floats around.hungUp session).bodies
              (MessagesReply.json around.id turn.model) }

/-- `responses`, which reads the body first. -/
def serveResponses (body : Json.Value D) : Served D :=
  match parseResponsesBody around.single body with
  | .error e => ⟨[], [errorBody "invalid_request_error".toList e]⟩
  | .ok turn =>
    { opened := [modelFor models turn.model]
      reply :=
        match around.openSession (modelFor models turn.model) with
        | .error e => [errorBody "permission_error".toList e]
        | .ok session =>
          if turn.stream then
            (relayResponsesSse session).documents fun event =>
              some (event.json around.id turn.model around.msgId)
          else
            (relayResponsesJson around.hungUp session).bodies
              (ResponsesReply.json around.id turn.model around.msgId) }

/-- The input is a string or a list. -/
def hasInput (body : Json.Value D) : Bool :=
  match body.get "input".toList with
  | some (.str _) | some (.arr _) => true
  | _ => false

/-- `embeddings`. -/
def serveEmbed (body : Json.Value D) : Served D :=
  let model := modelFor models ((strAt "model" body).getD "embed".toList)
  if hasInput body then
    { opened := [model]
      reply :=
        match around.openSession model with
        | .error e => [errorBody "invalid_request_error".toList e]
        | .ok session => (serveEmbeddings session).bodies (Embeddings.json around.float model) }
  else
    ⟨[], [errorBody "invalid_request_error".toList
      "input must be a string or an array of strings".toList]⟩

inductive ModelRoute where
  | chat
  | messages
  | responses
  | embeddings
deriving DecidableEq

def ModelRoute.serve (body : Json.Value D) : ModelRoute → Served D
  | chat => serveChat around models body
  | messages => serveMessages around models body
  | responses => serveResponses around models body
  | embeddings => serveEmbed around models body

/-! ### The name in a document -/

def memberAt (key : String) (v : Json.Value D) : Option (Json.Value D) := v.get key.toList

/-- The `model` of a document, of its message and of its response. -/
def modelFields (document : Json.Value D) : List (Json.Value D) :=
  (memberAt "model" document).toList ++
    ((memberAt "message" document).bind (memberAt "model")).toList ++
    ((memberAt "response" document).bind (memberAt "model")).toList

/-- Every name in the reply is this one. -/
def Echoes (asked : Text) (reply : List (Json.Value D)) : Prop :=
  ∀ document ∈ reply, ∀ model ∈ modelFields document, model = .str asked

theorem memberAt_object (key : String) (members : List (String × Json.Value D)) :
    memberAt key (object members) =
      (members.reverse.find? fun member => member.1 = key).map Prod.snd := by
  rw [memberAt, object, Json.Value.get, Json.lookup_collectMembers, Json.lookup, ← List.map_reverse,
    List.find?_map, Option.map_map]
  have hkey : ((fun member : Text × Json.Value D => decide (member.1 = key.toList)) ∘
      fun member : String × Json.Value D => (member.1.toList, member.2)) =
      fun member => decide (member.1 = key) := by
    funext member
    simp [String.toList_inj]
  rw [hkey]
  rfl

theorem modelFields_errorBody (kind message : Text) :
    modelFields (errorBody kind message : Json.Value D) = [] := by
  simp [modelFields, errorBody, memberAt_object]

theorem modelFields_anthropicError (kind message : Text) :
    modelFields (anthropicError kind message : Json.Value D) = [] := by
  simp [modelFields, anthropicError, memberAt_object]

theorem modelFields_chatChunk (id model : Text) (delta finishReason : Json.Value D) :
    modelFields (chatChunk id model delta finishReason []) = [.str model] := by
  simp [modelFields, chatChunk, memberAt_object]

/-- Documents that name one model or none. -/
def Names (model : Text) (reply : List (Json.Value D)) : Prop :=
  ∀ document ∈ reply, modelFields document = [.str model] ∨ modelFields document = []

theorem echoes_iff {model asked : Text} {reply : List (Json.Value D)} (h : Names model reply) :
    Echoes asked reply ↔ model = asked ∨ ∀ document ∈ reply, modelFields document = [] := by
  constructor
  · intro hechoes
    by_cases hsame : model = asked
    · exact Or.inl hsame
    · right
      intro document hdocument
      rcases h document hdocument with hfields | hfields
      · have hmodel := hechoes document hdocument (.str model)
          (by rw [hfields]; exact List.mem_singleton_self _)
        exact absurd (Json.Value.str.inj hmodel) hsame
      · exact hfields
  · rintro (rfl | hnone) document hdocument v hv
    · rcases h document hdocument with hfields | hfields
      · rw [hfields] at hv
        exact List.mem_singleton.mp hv
      · rw [hfields] at hv
        cases hv
    · rw [hnone document hdocument] at hv
      cases hv

/-- A refusal names nothing. -/
theorem names_refusal {document : Json.Value D} (h : modelFields document = []) (model : Text) :
    Names model [document] ∧ ∀ other ∈ [document], modelFields other = [] := by
  have hnone : ∀ other ∈ [document], modelFields other = [] := by
    intro other hother
    rw [List.mem_singleton.mp hother]
    exact h
  exact ⟨fun other hother => Or.inr (hnone other hother), hnone⟩

/-- A refusal names no model, and no model is named where this is so. -/
theorem names_refusal_iff {document : Json.Value D} (h : modelFields document = []) (model : Text)
    {p : Prop} (hp : p) :
    Names model [document] ∧ ((∀ other ∈ [document], modelFields other = []) ↔ p) := by
  obtain ⟨hnames, hnone⟩ := names_refusal h model
  exact ⟨hnames, iff_of_true hnone hp⟩

/-! ### Chat completions -/

/-- The data is a chunk. -/
def ChatData.isChunk : ChatData → Bool
  | .content _ | .toolCall _ _ | .finish _ _ => true
  | .error _ _ | .done => false

theorem modelFields_chatData {id model : Text} {data : ChatData} {document : Json.Value D}
    (h : data.json id model = some document) :
    modelFields document = if data.isChunk then [.str model] else [] := by
  cases data with
  | content tok =>
    cases h
    exact modelFields_chatChunk _ _ _ _
  | toolCall index call =>
    cases h
    exact modelFields_chatChunk _ _ _ _
  | finish finishReason usage =>
    cases h
    simp [modelFields, chatChunk, memberAt_object, ChatData.isChunk]
  | error code message =>
    cases h
    exact modelFields_errorBody _ _
  | done => cases h

/-- The events a stream gets to see. -/
def upToEnd : List (Event F) → List (Event F)
  | [] => []
  | event :: events => event :: if ends event then [] else upToEnd events

/-- The event is sent on as a chunk. -/
def makesChunk : Event F → Bool
  | .token _ _ | .toolCall _ | .done _ _ _ => true
  | _ => false

theorem eventsOf_sse (events : List (Event F)) (ending : Ending Text) :
    eventsOf (sseLoop.run () events ending).1 =
      (upToEnd events).flatMap fun event => eventsOf (sseStep event).1 := by
  induction events with
  | nil =>
    cases ending with
    | closed => rfl
    | failed e => rfl
  | cons event events ih =>
    rw [upToEnd, List.flatMap_cons]
    cases hends : ends event with
    | true =>
      rw [if_pos rfl, List.flatMap_nil, List.append_nil]
      cases event with
      | done | error => rfl
      | hello | token | toolCall | toolCalls | media | vectors | tokens | notice => cases hends
    | false =>
      have hstep : sseStep event = ((sseStep event).1, .go ()) :=
        Prod.ext rfl (sseStep_quiet hends)
      simp only [sseLoop] at ih
      simp only [Loop.run, sseLoop]
      rw [hstep, if_neg Bool.false_ne_true]
      simp only [List.nil_append, eventsOf_append, ih]

theorem sseStep_isChunk (event : Event F) :
    (∀ data ∈ eventsOf (sseStep event).1, data.isChunk = false) ↔ makesChunk event = false := by
  cases event with
  | token | toolCall | done | error | notice | hello | toolCalls | media | vectors | tokens =>
    simp [sseStep, eventsOf, Sent.asEvent, ChatData.isChunk, makesChunk]

theorem names_stream (id model : Text) (session : Session F) :
    Names model ((relaySse session).documents (ChatData.json (D := D) id model)) := by
  intro document hdocument
  obtain ⟨data, -, hjson⟩ := List.mem_filterMap.mp hdocument
  rw [modelFields_chatData hjson]
  cases data.isChunk with
  | true => exact Or.inl rfl
  | false => exact Or.inr rfl

/-- A stream names no model where no event makes a chunk. -/
theorem chat_stream_nameless (id model : Text) (session : Session F) :
    (∀ document ∈ (relaySse session).documents (ChatData.json (D := D) id model),
        modelFields document = []) ↔
      ∀ event ∈ upToEnd session.events, makesChunk event = false := by
  have hsent : eventsOf (relaySse session).sent =
      (upToEnd session.events).flatMap fun event => eventsOf (sseStep event).1 := by
    rw [← eventsOf_sse session.events session.ending, relaySse]
    split
    · rename_i h
      rw [h, eventsOf_head]
    · rename_i h
      rw [h, eventsOf_head]
  have hdata : (∀ document ∈ (relaySse session).documents (ChatData.json (D := D) id model),
      modelFields document = []) ↔ ∀ data ∈ eventsOf (relaySse session).sent,
        data.isChunk = false := by
    constructor
    · intro h data hdata
      cases hchunk : data.isChunk with
      | false => rfl
      | true =>
        have hjson : ∃ document, data.json (D := D) id model = some document := by
          cases data with
          | content | toolCall | finish => exact ⟨_, rfl⟩
          | error | done => cases hchunk
        obtain ⟨document, hjson⟩ := hjson
        have hnone := h document (List.mem_filterMap.mpr ⟨data, hdata, hjson⟩)
        rw [modelFields_chatData hjson, hchunk] at hnone
        cases hnone
    · intro h document hdocument
      obtain ⟨data, hdata, hjson⟩ := List.mem_filterMap.mp hdocument
      rw [modelFields_chatData hjson, h data hdata]
      rfl
  rw [hdata, hsent]
  simp only [List.forall_mem_flatMap, sseStep_isChunk]

/-- `done` is read, and until then the client was never found gone. -/
def reachesDone (hungUp : Nat → Bool) : Nat → List (Event F) → Bool
  | _, [] => false
  | reads, event :: events =>
    !hungUp reads &&
      match event with
      | .done _ _ _ => true
      | .error _ => false
      | _ => reachesDone hungUp (reads + 1) events

def Said.isOk {B : Type} : Said B → Bool
  | .respond _ (.ok _) => true
  | _ => false

/-- A relay that has given its client up answers nothing. -/
theorem chat_abandoned (hungUp : Nat → Bool) (acc : ChatState) (reads : Nat)
    (events : List (Event F)) (ending : Ending Text) :
    ((chatLoop hungUp).run ⟨acc, true, reads⟩ events ending).1.any Said.isOk = false := by
  induction events generalizing acc reads with
  | nil =>
    cases ending with
    | closed => rfl
    | failed e => rfl
  | cons event events ih =>
    cases event with
    | token | toolCall | hello | toolCalls | media | vectors | tokens | notice =>
      simp only [Loop.run, chatLoop, chatStep, Waiting.enter] at ih ⊢
      exact ih _ _
    | done => rfl
    | error => rfl

/-- A relay whose client is found gone cancels and goes on without it. -/
theorem chat_hangs_up {hungUp : Nat → Bool} {reads : Nat} (h : hungUp reads = true)
    (acc : ChatState) (events : List (Event F)) (ending : Ending Text) :
    ((chatLoop hungUp).run ⟨acc, false, reads⟩ events ending).1 =
      .cancel :: ((chatLoop hungUp).run ⟨acc, true, reads⟩ events ending).1 := by
  cases events with
  | nil =>
    cases ending with
    | closed => simp [Loop.run, chatLoop, Waiting.enter, h]
    | failed e => simp [Loop.run, chatLoop, Waiting.enter, h]
  | cons event events =>
    cases hstep : chatStep ⟨acc, true, reads + 1⟩ event with
    | mk out next =>
      cases next with
      | go s => simp [Loop.run, chatLoop, Waiting.enter, h, hstep]
      | «break» s => simp [Loop.run, chatLoop, Waiting.enter, h, hstep]
      | «return» r => simp [Loop.run, chatLoop, Waiting.enter, h, hstep]

theorem chat_goes_on {hungUp : Nat → Bool} {reads : Nat} (h : hungUp reads = false)
    {event : Event F} (hends : ends event = false) (acc : ChatState) (events : List (Event F))
    (ending : Ending Text) :
    ∃ acc', (chatLoop hungUp).run ⟨acc, false, reads⟩ (event :: events) ending =
      (chatLoop hungUp).run ⟨acc', false, reads + 1⟩ events ending := by
  have henter : (Waiting.enter hungUp ⟨acc, false, reads⟩ :
      List (Said ChatCompletion) × Waiting ChatState) = ([], ⟨acc, false, reads + 1⟩) := by
    simp [Waiting.enter, h]
  cases event with
  | done | error => cases hends
  | token tok logprobs =>
    exact ⟨⟨acc.content ++ tok, acc.toolCalls⟩, by
      simp only [Loop.run, chatLoop, henter, chatStep, List.nil_append]⟩
  | toolCall call =>
    exact ⟨⟨acc.content, acc.toolCalls ++ [call]⟩, by
      simp only [Loop.run, chatLoop, henter, chatStep, List.nil_append]⟩
  | hello | toolCalls | media | vectors | tokens | notice =>
    exact ⟨acc, by simp only [Loop.run, chatLoop, henter, chatStep, List.nil_append]⟩

theorem chat_isOk (hungUp : Nat → Bool) (acc : ChatState) (reads : Nat)
    (events : List (Event F)) (ending : Ending Text) :
    ((chatLoop hungUp).run ⟨acc, false, reads⟩ events ending).1.any Said.isOk =
      reachesDone hungUp reads events := by
  induction events generalizing acc reads with
  | nil =>
    cases hhung : hungUp reads with
    | true =>
      rw [chat_hangs_up hhung, List.any_cons, chat_abandoned]
      rfl
    | false =>
      cases ending with
      | closed => simp [Loop.run, chatLoop, Waiting.enter, hhung, reachesDone]
      | failed e => simp [Loop.run, chatLoop, Waiting.enter, hhung, reachesDone]
  | cons event events ih =>
    cases hhung : hungUp reads with
    | true =>
      rw [chat_hangs_up hhung, List.any_cons, chat_abandoned, reachesDone.eq_def]
      simp [hhung, Said.isOk]
    | false =>
      cases hends : ends event with
      | true =>
        cases event with
        | done | error => simp [Loop.run, chatLoop, Waiting.enter, chatStep, reachesDone, hhung,
            Said.isOk]
        | hello | token | toolCall | toolCalls | media | vectors | tokens | notice => cases hends
      | false =>
        obtain ⟨acc', hrun⟩ := chat_goes_on hhung hends acc events ending
        rw [hrun, ih acc' (reads + 1)]
        cases event with
        | done | error => cases hends
        | hello | token | toolCall | toolCalls | media | vectors | tokens | notice =>
          simp [reachesDone, hhung]

/-- The body of an answer names the model, the body of an error does not. -/
theorem modelFields_body {B : Type} {json : B → Json.Value D} {model : Text}
    (h : ∀ b, modelFields (json b) = [.str model]) (body : Body B) :
    modelFields (body.json json) = match body with | .ok _ => [.str model] | _ => [] := by
  cases body with
  | ok b => exact h b
  | openAi kind message => exact modelFields_errorBody kind message
  | anthropic kind message => exact modelFields_anthropicError kind message

theorem names_bodies {B : Type} {json : B → Json.Value D} {model : Text}
    (h : ∀ b, modelFields (json b) = [.str model]) (outcome : Outcome (Said B)) :
    Names model (outcome.bodies json) := by
  intro document hdocument
  obtain ⟨body, -, rfl⟩ := List.mem_map.mp hdocument
  rw [modelFields_body h]
  cases body with
  | ok b => exact Or.inl rfl
  | openAi | anthropic => exact Or.inr rfl

theorem bodies_nameless {B : Type} {json : B → Json.Value D} {model : Text}
    (h : ∀ b, modelFields (json b) = [.str model]) (outcome : Outcome (Said B)) :
    (∀ document ∈ outcome.bodies json, modelFields document = []) ↔
      outcome.sent.any Said.isOk = false := by
  rw [List.any_eq_false, Outcome.bodies]
  simp only [List.forall_mem_map, List.mem_filterMap, modelFields_body h]
  constructor
  · intro hnone said hsaid hok
    cases said with
    | cancel => cases hok
    | respond status body =>
      cases body with
      | ok b => cases hnone (.ok b) ⟨_, hsaid, rfl⟩
      | openAi | anthropic => cases hok
  · rintro hnone body ⟨said, hsaid, hbody⟩
    cases said with
    | cancel => cases hbody
    | respond status body' =>
      cases hbody
      cases body with
      | ok b => exact absurd rfl (hnone _ hsaid)
      | openAi | anthropic => rfl

theorem modelFields_completion (id model : Text) (c : ChatCompletion) :
    modelFields (c.json id model : Json.Value D) = [.str model] := by
  simp [modelFields, ChatCompletion.json, memberAt_object]

theorem relayJson_isOk (hungUp : Nat → Bool) (session : Session F) :
    (relayJson hungUp session).sent.any Said.isOk = reachesDone hungUp 0 session.events := by
  rw [← chat_isOk hungUp ⟨[], []⟩ 0 session.events session.ending, relayJson]
  split
  · rename_i h
    rw [h]
  · rename_i h
    rw [h]
  · rename_i h
    rw [h, List.any_append]
    exact Bool.or_false _

/-! ### Embeddings -/

/-- `done` is read, or the session is closed before it and without an error. -/
def listsVectors : List (Event F) → Ending Text → Bool
  | [], .closed => true
  | [], .failed _ => false
  | .done _ _ _ :: _, _ => true
  | .error _ :: _, _ => false
  | _ :: events, ending => listsVectors events ending

theorem embeddings_isOk (e : Embeddings F) (events : List (Event F)) (ending : Ending Text) :
    (∃ e', (embeddingsLoop.run e events ending).2 = .broke e') ↔
      listsVectors events ending = true := by
  induction events generalizing e with
  | nil =>
    cases ending with
    | closed => exact iff_of_true ⟨e, rfl⟩ rfl
    | failed message => exact iff_of_false (by rintro ⟨e', h⟩; cases h) (by simp [listsVectors])
  | cons event events ih =>
    cases event with
    | done => exact iff_of_true ⟨_, rfl⟩ rfl
    | error => exact iff_of_false (by rintro ⟨e', h⟩; cases h) (by simp [listsVectors])
    | hello | token | toolCall | toolCalls | media | vectors | tokens | notice => exact ih _

theorem modelFields_embeddings (float : F → Json.Value D) (model : Text) (e : Embeddings F) :
    modelFields (e.json float model) = [.str model] := by
  simp [modelFields, Embeddings.json, memberAt_object]

theorem serveEmbeddings_isOk (session : Session F) :
    (serveEmbeddings session).sent.any Said.isOk =
      listsVectors session.events session.ending := by
  rw [Bool.eq_iff_iff, ← embeddings_isOk ⟨[], 0⟩, serveEmbeddings, embeddings]
  cases (embeddingsLoop.run ⟨[], 0⟩ session.events session.ending).2 with
  | failed e => exact iff_of_false (by simp [answer, Said.isOk]) (by rintro ⟨e', h⟩; cases h)
  | returned e => exact iff_of_false (by simp [answer, Said.isOk]) (by rintro ⟨e', h⟩; cases h)
  | broke e => exact iff_of_true rfl ⟨e, rfl⟩

/-! ### Messages and Responses -/

theorem modelFields_messagesReply (id model : Text) (r : MessagesReply D) :
    modelFields (r.json id model) = [.str model] := by
  simp [modelFields, MessagesReply.json, memberAt_object]

theorem names_messagesEvent (id model : Text) (event : MessagesEvent) :
    modelFields (event.json id model : Json.Value D) = [.str model] ∨
      modelFields (event.json id model : Json.Value D) = [] := by
  cases event with
  | messageStart =>
    left
    simp [modelFields, MessagesEvent.json, MessagesEvent.members, memberAt_object]
  | blockStart | blockDelta | blockStop | messageDelta | error | messageStop =>
    right
    simp [modelFields, MessagesEvent.json, MessagesEvent.members, memberAt_object]

theorem modelFields_responsesReply (id model msgId : Text) (r : ResponsesReply) :
    modelFields (r.json id model msgId : Json.Value D) = [.str model] := by
  simp [modelFields, ResponsesReply.json, responsesEnvelope, memberAt_object]

theorem names_numbered (id model msgId : Text) (n : Numbered) :
    modelFields (n.json id model msgId : Json.Value D) = [.str model] ∨
      modelFields (n.json id model msgId : Json.Value D) = [] := by
  obtain ⟨seq, data⟩ := n
  cases data with
  | created =>
    left
    simp [modelFields, Numbered.json, ResponsesData.members, responsesEnvelope, memberAt_object]
  | completed response =>
    left
    simp [modelFields, Numbered.json, ResponsesData.members, ResponsesReply.json,
      responsesEnvelope, memberAt_object]
  | failed code message =>
    left
    simp [modelFields, Numbered.json, ResponsesData.members, memberAt_object]
  | itemAdded | partAdded | textDelta | textDone | partDone | itemDone | argumentsDone =>
    right
    simp [modelFields, Numbered.json, ResponsesData.members, partMembers, memberAt_object]

theorem names_events {E : Type} {json : E → Json.Value D} {model : Text}
    (h : ∀ e, modelFields (json e) = [.str model] ∨ modelFields (json e) = [])
    (outcome : Outcome (Sent E)) : Names model (outcome.documents fun e => some (json e)) := by
  intro document hdocument
  obtain ⟨e, -, he⟩ := List.mem_filterMap.mp hdocument
  cases he
  exact h e

theorem model_of_parseMessagesBody {floats : Json.Floats D} {debug : Text → Text}
    {single : Json.Number D → F} {body : Json.Value D} {turn : BodyTurn F D}
    (h : parseMessagesBody floats debug single body = .ok turn) : turn.model = modelOf body := by
  unfold parseMessagesBody at h
  split at h
  · cases h
  · obtain ⟨entries, -, hturn⟩ := Fallible.bind_eq_ok.mp h
    cases hturn
    rfl

theorem model_of_parseResponsesBody {single : Json.Number D → F} {body : Json.Value D}
    {turn : BodyTurn F D} (h : parseResponsesBody single body = .ok turn) :
    turn.model = modelOf body := by
  unfold parseResponsesBody at h
  obtain ⟨input, -, hturn⟩ := Fallible.bind_eq_ok.mp h
  dsimp only at hturn
  split at hturn
  · cases hturn
  · cases hturn
    rfl

/-! ### All four routes -/

/-- The route comes to no document that names a model: the session is not opened,
    the body is refused, or the session ends before there is anything to name it
    on. -/
def Nameless (asked : Text) (body : Json.Value D) : ModelRoute → Prop
  | .chat =>
    match around.openSession (modelFor models asked), chatBody around.single body with
    | .ok session, .ok _ =>
      if streamOf body then ∀ event ∈ upToEnd session.events, makesChunk event = false
      else reachesDone around.hungUp 0 session.events = false
    | _, _ => True
  | .embeddings =>
    match around.openSession (modelFor models asked) with
    | .ok session => hasInput body = false ∨ listsVectors session.events session.ending = false
    | .error _ => True
  | .messages | .responses => False

/-- The two routes that keep the client's name. -/
def ModelRoute.keeps : ModelRoute → Bool
  | .messages | .responses => true
  | .chat | .embeddings => false

theorem chat_names {asked : Text} {body : Json.Value D} (h : modelOf body = asked) :
    Names (modelFor models asked) (serveChat around models body).reply ∧
      ((∀ document ∈ (serveChat around models body).reply, modelFields document = []) ↔
        Nameless around models asked body .chat) := by
  simp only [serveChat, Nameless, h]
  cases around.openSession (modelFor models asked) with
  | error e => exact names_refusal_iff (modelFields_errorBody _ e) _ trivial
  | ok session =>
    cases chatBody around.single body with
    | error e => exact names_refusal_iff (modelFields_errorBody _ e) _ trivial
    | ok prompt =>
      dsimp only
      split
      · exact ⟨names_stream _ _ _, chat_stream_nameless _ _ _⟩
      · refine ⟨names_bodies (modelFields_completion _ _) _, ?_⟩
        rw [bodies_nameless (modelFields_completion _ _), relayJson_isOk]

theorem embed_names {asked : Text} {body : Json.Value D} (h : strAt "model" body = some asked) :
    Names (modelFor models asked) (serveEmbed around models body).reply ∧
      ((∀ document ∈ (serveEmbed around models body).reply, modelFields document = []) ↔
        Nameless around models asked body .embeddings) := by
  simp only [serveEmbed, Nameless, h, Option.getD_some]
  cases hinput : hasInput body with
  | false =>
    rw [if_neg Bool.false_ne_true]
    refine names_refusal_iff (modelFields_errorBody _ _) _ ?_
    cases around.openSession (modelFor models asked) with
    | error e => trivial
    | ok session => exact Or.inl rfl
  | true =>
    rw [if_pos rfl]
    cases around.openSession (modelFor models asked) with
    | error e => exact names_refusal_iff (modelFields_errorBody _ e) _ trivial
    | ok session =>
      refine ⟨names_bodies (modelFields_embeddings _ _) _, ?_⟩
      dsimp only
      rw [bodies_nameless (modelFields_embeddings _ _), serveEmbeddings_isOk]
      simp

theorem messages_names {asked : Text} {body : Json.Value D} (h : modelOf body = asked) :
    Names asked (serveMessages around models body).reply := by
  simp only [serveMessages]
  cases around.openSession (modelFor models (modelOf body)) with
  | error e => exact (names_refusal (modelFields_anthropicError _ e) asked).1
  | ok session =>
    cases hparse : parseMessagesBody around.floats around.debug around.single body with
    | error e => exact (names_refusal (modelFields_anthropicError _ e) asked).1
    | ok turn =>
      have hmodel : turn.model = asked := (model_of_parseMessagesBody hparse).trans h
      dsimp only
      rw [hmodel]
      split
      · exact names_events (names_messagesEvent _ _) _
      · exact names_bodies (modelFields_messagesReply _ _) _

theorem responses_names {asked : Text} {body : Json.Value D} (h : modelOf body = asked) :
    Names asked (serveResponses around models body).reply := by
  simp only [serveResponses]
  cases hparse : parseResponsesBody around.single body with
  | error e => exact (names_refusal (modelFields_errorBody _ e) asked).1
  | ok turn =>
    have hmodel : turn.model = asked := (model_of_parseResponsesBody hparse).trans h
    dsimp only
    rw [hmodel]
    cases around.openSession (modelFor models asked) with
    | error e => exact (names_refusal (modelFields_errorBody _ e) asked).1
    | ok session =>
      dsimp only
      split
      · exact names_events (names_numbered _ _ _) _
      · exact names_bodies (modelFields_responsesReply _ _ _) _

/-- Whatever the route, a session is asked for under the translated name. -/
theorem opened_translated {asked : Text} {body : Json.Value D} (h : strAt "model" body = some asked)
    (route : ModelRoute) :
    ∀ model ∈ (route.serve around models body).opened, model = modelFor models asked := by
  have hmodel : modelOf body = asked := by rw [modelOf, h, Option.getD_some]
  intro model hopened
  cases route with
  | chat => rw [List.mem_singleton.mp hopened, hmodel]
  | messages => rw [List.mem_singleton.mp hopened, hmodel]
  | responses =>
    simp only [ModelRoute.serve, serveResponses] at hopened
    split at hopened
    · cases hopened
    · rename_i turn hparse
      rw [List.mem_singleton.mp hopened, model_of_parseResponsesBody hparse, hmodel]
  | embeddings =>
    simp only [ModelRoute.serve, serveEmbed, h, Option.getD_some] at hopened
    split at hopened
    · exact List.mem_singleton.mp hopened
    · cases hopened

/-- **When replies name the model the client asked for.** -/
theorem reply_echoes_iff {asked : Text} {body : Json.Value D} (h : strAt "model" body = some asked)
    (route : ModelRoute) :
    (∀ model ∈ (route.serve around models body).opened, model = modelFor models asked) ∧
      (Echoes asked (route.serve around models body).reply ↔
        route.keeps = true ∨ modelFor models asked = asked ∨
          Nameless around models asked body route) := by
  have hmodel : modelOf body = asked := by rw [modelOf, h, Option.getD_some]
  refine ⟨opened_translated around models h route, ?_⟩
  cases route with
  | messages =>
    have hechoes := (echoes_iff (messages_names around models hmodel)).mpr (Or.inl rfl)
    exact iff_of_true hechoes (Or.inl rfl)
  | responses =>
    have hechoes := (echoes_iff (responses_names around models hmodel)).mpr (Or.inl rfl)
    exact iff_of_true hechoes (Or.inl rfl)
  | chat =>
    obtain ⟨hnames, hnameless⟩ := chat_names around models hmodel
    rw [ModelRoute.serve, echoes_iff hnames, hnameless]
    simp [ModelRoute.keeps]
  | embeddings =>
    obtain ⟨hnames, hnameless⟩ := embed_names around models h
    rw [ModelRoute.serve, echoes_iff hnames, hnameless]
    simp [ModelRoute.keeps]

/-- One vendor's name for a model of this machine. -/
def renamed : List ShimModel := [⟨"gpt-4o".toList, "local-8b".toList⟩]

/-- Every session ends at once. -/
def finishing : Surroundings Unit Unit where
  openSession _ := .ok ⟨[.done true Usage.default none], .closed⟩
  hungUp := staying
  id := "1".toList
  msgId := "1".toList
  floats := ⟨fun _ => none, fun _ => []⟩
  float _ := .null
  single _ := ()
  debug text := text

def renamedBody : Json.Value Unit :=
  .obj [("input".toList, string "Hello."), ("messages".toList, .arr []),
    ("model".toList, string "gpt-4o")]

theorem reply_echoes_renamed :
    (∀ model ∈ (ModelRoute.serve finishing renamed renamedBody .messages).opened,
        model = modelFor renamed "gpt-4o".toList) ∧
      (Echoes "gpt-4o".toList (ModelRoute.serve finishing renamed renamedBody .messages).reply ↔
        ModelRoute.keeps .messages = true ∨ modelFor renamed "gpt-4o".toList = "gpt-4o".toList ∨
          Nameless finishing renamed "gpt-4o".toList renamedBody .messages) :=
  reply_echoes_iff finishing renamed rfl .messages

/-- Chat completions and embeddings reply under the name they opened. -/
theorem renamed_returned :
    ¬ Echoes "gpt-4o".toList (serveChat finishing renamed renamedBody).reply ∧
      ¬ Echoes "gpt-4o".toList (serveEmbed finishing renamed renamedBody).reply := by
  have hne : "local-8b".toList ≠ "gpt-4o".toList := by decide
  constructor
  · intro h
    exact hne (Json.Value.str.inj (h _ List.mem_cons_self _ List.mem_cons_self))
  · intro h
    exact hne (Json.Value.str.inj (h _ List.mem_cons_self _ List.mem_cons_self))

end AiDaemon.Shim
