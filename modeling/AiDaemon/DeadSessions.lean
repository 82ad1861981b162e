import AiDaemon.ToolCallsKept

/-!
# Sessions that die

A session can end without a word: its socket closes between two events, or a
read fails, as where it closes inside one.  The reply should then be an error.
Most loops take the end of their stream for the end of the turn and go on to
complete the reply; `relay_json` alone takes it for an error.  A failed read
leaves every relay without a reply, and only `embeddings` and `count_tokens`
hand it to the end of `serve`, which answers it (`dead_session_reported_iff`).
-/

namespace AiDaemon.Shim

open Proto Relay

variable {F D : Type}

/-! ### What an error is -/

/-- The routes that open a session. -/
inductive Route where
  | prompt (api : Api) (streaming : Bool)
  | embeddings
  | countTokens
deriving DecidableEq

/-- An error in the one format or in the other. -/
def Body.isError {B : Type} (anthropic : Bool) : Body B → Bool
  | .ok _ => false
  | .openAi _ _ => !anthropic
  | .anthropic _ _ => anthropic

/-- The reply has an error status and an error for its body. -/
def AnswersError {B : Type} (anthropic : Bool) (said : List (Said B)) : Prop :=
  ∃ status body, said = [.respond status body] ∧ 400 ≤ status ∧ body.isError anthropic = true

def ChatData.isError : ChatData → Bool
  | .error _ _ => true
  | _ => false

/-- The chunk that finishes a completion. -/
def ChatData.completes : ChatData → Bool
  | .finish _ _ => true
  | _ => false

def MessagesEvent.isError : MessagesEvent → Bool
  | .error _ => true
  | _ => false

def MessagesEvent.completes : MessagesEvent → Bool
  | .messageDelta _ _ => true
  | _ => false

def ResponsesData.isError : ResponsesData → Bool
  | .failed _ _ => true
  | _ => false

def ResponsesData.completes : ResponsesData → Bool
  | .completed _ => true
  | _ => false

/-- The stream has an error in it, and nothing that completes the reply. -/
def StreamsError {E : Type} (isError completes : E → Bool) (events : List E) : Prop :=
  (∃ event ∈ events, isError event = true) ∧ ∀ event ∈ events, completes event = false

/-- The reply of a route reports an error, to a client that stays. -/
def ReportsError (floats : Json.Floats D) (session : Session F) : Route → Prop
  | .prompt .chat false => AnswersError false (relayJson staying session).sent
  | .prompt .chat true =>
    StreamsError ChatData.isError ChatData.completes (eventsOf (relaySse session).sent)
  | .prompt .messages false =>
    AnswersError true (relayAnthropicJson floats staying session).sent
  | .prompt .messages true =>
    StreamsError MessagesEvent.isError MessagesEvent.completes
      (eventsOf (relayAnthropicSse session).sent)
  | .prompt .responses false => AnswersError false (relayResponsesJson staying session).sent
  | .prompt .responses true =>
    StreamsError ResponsesData.isError ResponsesData.completes
      ((eventsOf (relayResponsesSse session).sent).map Numbered.data)
  | .embeddings => AnswersError false (serveEmbeddings session).sent
  | .countTokens => AnswersError true (serveCountTokens session).sent

/-- When the end of a session is reported. -/
def ReportedWhen : Ending Text → Route → Prop
  | .closed, .prompt .chat false => True
  | .failed _, .embeddings | .failed _, .countTokens => True
  | _, _ => False

/-! ### In one piece -/

theorem not_answersError_ok {B : Type} (anthropic : Bool) (status : Nat) (body : B) :
    ¬ AnswersError anthropic [.respond status (.ok body)] := by
  rintro ⟨status', body', hsaid, -, herror⟩
  cases hsaid
  cases herror

theorem not_answersError_nil {B : Type} (anthropic : Bool) :
    ¬ AnswersError anthropic ([] : List (Said B)) := by
  rintro ⟨status, body, hsaid, -, -⟩
  cases hsaid

/-- A loop that gathers says nothing when the session dies. -/
theorem Gathers.dies {S B ρ : Type} {loop : Loop (Waiting S) (Event F) (Said B) ρ Text}
    {gather : List (Event F) → S} (hgathers : Gathers loop gather)
    (henter : loop.enter = Waiting.enter staying) {s : Waiting S} (hacc : s.acc = gather [])
    (hstays : s.abandoned = false) (talk : Talk F) (ending : Ending Text) :
    ∃ s', loop.run s talk.events ending = ([], ending.exit s') ∧ s'.abandoned = false := by
  obtain ⟨s', hrun, -, hstill⟩ := hgathers.run_talk henter hacc hstays talk [] ending
  rw [List.append_nil] at hrun
  refine ⟨⟨s'.acc, s'.abandoned, s'.reads + 1⟩, ?_, hstill⟩
  rw [hrun]
  cases ending <;> simp [Loop.run, henter, Ending.exit]

theorem chat_dies (talk : Talk F) (ending : Ending Text) :
    AnswersError false (relayJson staying (talk.dies ending)).sent ↔ ending = .closed := by
  obtain ⟨s, hrun, -⟩ := chat_gathers.dies rfl (s := ⟨⟨[], []⟩, false, 0⟩)
    (rfl : _ = gatheredChat []) rfl talk ending
  rw [relayJson, Talk.dies, hrun]
  cases ending with
  | closed => exact iff_of_true ⟨400, _, rfl, le_rfl, rfl⟩ rfl
  | failed e => exact iff_of_false (not_answersError_nil false) (by simp)

theorem messages_dies (floats : Json.Floats D) (talk : Talk F) (ending : Ending Text) :
    ¬ AnswersError true (relayAnthropicJson floats staying (talk.dies ending)).sent := by
  obtain ⟨s, hrun, hstays⟩ := (messages_gathers floats).dies rfl (s := ⟨.new, false, 0⟩)
    (rfl : _ = gathered floats []) rfl talk ending
  rw [relayAnthropicJson, Talk.dies, hrun]
  cases ending with
  | closed =>
    simp only [Ending.exit, hstays]
    exact not_answersError_ok true 200 _
  | failed e => exact not_answersError_nil true

theorem responses_dies (talk : Talk F) (ending : Ending Text) :
    ¬ AnswersError false (relayResponsesJson staying (talk.dies ending)).sent := by
  obtain ⟨s, hrun, hstays⟩ := responses_gathers.dies rfl (s := ⟨.new, false, 0⟩)
    (rfl : _ = gatheredResponse []) rfl talk ending
  rw [relayResponsesJson, Talk.dies, hrun]
  cases ending with
  | closed =>
    simp only [Ending.exit, hstays]
    exact not_answersError_ok false 200 _
  | failed e => exact not_answersError_nil false

/-! ### As a stream -/

theorem not_streamsError {E : Type} {isError completes : E → Bool} {events : List E}
    (h : ∀ event ∈ events, isError event = false) : ¬ StreamsError isError completes events := by
  rintro ⟨⟨event, hevent, herror⟩, -⟩
  rw [h event hevent] at herror
  cases herror

theorem not_streamsError_of_completes {E : Type} {isError completes : E → Bool} {events : List E}
    {event : E} (hevent : event ∈ events) (hcompletes : completes event = true) :
    ¬ StreamsError isError completes events := by
  rintro ⟨-, hnone⟩
  rw [hnone event hevent] at hcompletes
  cases hcompletes

theorem sseStep_isError {event : Event F} (h : ends event = false) :
    ∀ data ∈ eventsOf (sseStep event).1, data.isError = false := by
  cases event with
  | done | error => cases h
  | hello | token | toolCall | toolCalls | media | vectors | tokens | notice =>
    simp [sseStep, eventsOf, Sent.asEvent, ChatData.isError]

/-- The chat stream just stops. -/
theorem chat_stream_dies (talk : Talk F) (ending : Ending Text) :
    ¬ StreamsError ChatData.isError ChatData.completes
      (eventsOf (relaySse (talk.dies ending)).sent) := by
  have hrun := Loop.run_of_goes (sse_goes talk.quiet) ending
  have hsent : eventsOf (relaySse (talk.dies ending)).sent =
      eventsOf ((talk.events.flatMap fun event => (sseStep event).1) ++ []) := by
    rw [relaySse, Talk.dies, hrun]
    cases ending <;> rfl
  rw [List.append_nil] at hsent
  rw [hsent, eventsOf, List.filterMap_flatMap]
  apply not_streamsError
  intro data hdata
  obtain ⟨event, hevent, hsends⟩ := List.mem_flatMap.mp hdata
  exact sseStep_isError (talk.quiet event hevent) data hsends

/-- The Messages stream is completed, or stays as it stood. -/
theorem messages_stream_dies (talk : Talk F) (ending : Ending Text) :
    ¬ StreamsError MessagesEvent.isError MessagesEvent.completes
      (eventsOf (relayAnthropicSse (talk.dies ending)).sent) := by
  obtain ⟨out, s, hgoes, marks, hout, -⟩ := stream_goes talk.quiet
  have hreply := eventsOf_relayAnthropicSse hgoes [] ending
  rw [List.append_nil] at hreply
  rw [Talk.dies, hreply]
  cases ending with
  | closed =>
    have hlast : MessagesEvent.messageDelta (anthropicStopReason s.finish s.toolUsed)
        s.usage.completionTokens ∈ streamEnd s := by
      simp [streamEnd]
    exact not_streamsError_of_completes
      (List.mem_cons_of_mem _ (List.mem_append_right _ hlast)) rfl
  | failed e =>
    apply not_streamsError
    intro event hevent
    rcases List.mem_cons.mp hevent with rfl | hevent
    · rfl
    · rw [hout] at hevent
      obtain ⟨mark, -, rfl⟩ := List.mem_map.mp (List.append_nil (marks.map blockEvent) ▸ hevent)
      cases mark <;> rfl

theorem Streamed.isError {textOpen : Bool} {datas : List ResponsesData}
    (h : Streamed textOpen datas) : ∀ data ∈ datas, data.isError = false := by
  intro data hdata
  cases h with
  | silent => exact absurd hdata List.not_mem_nil
  | message hdeltas =>
    rcases List.mem_cons.mp hdata with rfl | hdata
    · rfl
    · have hfills := hdeltas data hdata
      cases data <;> first | rfl | cases hfills

/-- So is the Responses stream. -/
theorem responses_stream_dies (talk : Talk F) (ending : Ending Text) :
    ¬ StreamsError ResponsesData.isError ResponsesData.completes
      ((eventsOf (relayResponsesSse (talk.dies ending)).sent).map Numbered.data) := by
  obtain ⟨out, s, hgoes, hinv⟩ := responsesStream_goes talk.quiet
  obtain ⟨datas, hsent, hseq, hstreamed⟩ := hinv.sent
  have hrun := Loop.run_of_goes hgoes ending
  cases ending with
  | closed =>
    have hreply : (eventsOf (relayResponsesSse (talk.dies .closed)).sent).map Numbered.data =
        .created :: (datas ++ responsesEnd s) := by
      rw [relayResponsesSse, Talk.dies, hrun]
      simp only [Ending.exit, responsesStreamLoop, List.append_nil, eventsOf_append, eventsOf_head,
        eventsOf_sendAll, hsent, List.map_append, numberFrom_data]
      rfl
    have hlast : ResponsesData.completed ⟨outputOf s.text s.calls, s.usage⟩ ∈ responsesEnd s := by
      simp [responsesEnd]
    rw [hreply]
    exact not_streamsError_of_completes
      (List.mem_cons_of_mem _ (List.mem_append_right _ hlast)) rfl
  | failed e =>
    have hreply : (eventsOf (relayResponsesSse (talk.dies (.failed e))).sent).map Numbered.data =
        .created :: datas := by
      rw [relayResponsesSse, Talk.dies, hrun]
      simp only [Ending.exit, responsesStreamLoop, List.append_nil, eventsOf_append, eventsOf_head,
        eventsOf_sendAll, hsent, List.map_append, numberFrom_data]
      rfl
    rw [hreply]
    apply not_streamsError
    intro data hdata
    rcases List.mem_cons.mp hdata with rfl | hdata
    · rfl
    · exact hstreamed.isError data hdata

/-! ### For a result -/

theorem answersError_answer {B : Type} (anthropic : Bool) (result : Except Text B) :
    AnswersError anthropic (answer anthropic result).sent ↔ ∃ e, result = .error e := by
  cases result with
  | ok body => exact iff_of_false (not_answersError_ok anthropic 200 body) (by simp)
  | error e =>
    refine iff_of_true ⟨400, _, rfl, le_rfl, ?_⟩ ⟨e, rfl⟩
    cases anthropic <;> rfl

theorem embeddings_dies (talk : Talk F) (ending : Ending Text) :
    AnswersError false (serveEmbeddings (talk.dies ending)).sent ↔ ∃ e, ending = .failed e := by
  have hgo : ∃ out e, embeddingsLoop.goes ⟨[], 0⟩ talk.events = some (out, e) := by
    apply embeddingsLoop.goes_of_forall
    intro e event hevent
    have hquiet := talk.quiet event hevent
    cases event with
    | done | error => cases hquiet
    | hello | token | toolCall | toolCalls | media | vectors | tokens | notice => exact ⟨_, _, rfl⟩
  obtain ⟨out, e, hgoes⟩ := hgo
  rw [serveEmbeddings, answersError_answer, embeddings, Talk.dies, Loop.run_of_goes hgoes]
  cases ending with
  | closed => simp [Ending.exit]
  | failed e => simp [Ending.exit]

theorem countTokens_dies (talk : Talk F) (ending : Ending Text) :
    AnswersError true (serveCountTokens (talk.dies ending)).sent ↔ ∃ e, ending = .failed e := by
  have hgo : ∃ out count, countTokensLoop.goes 0 talk.events = some (out, count) := by
    apply countTokensLoop.goes_of_forall
    intro count event hevent
    have hquiet := talk.quiet event hevent
    cases event with
    | done | error => cases hquiet
    | hello | token | toolCall | toolCalls | media | vectors | tokens | notice => exact ⟨_, _, rfl⟩
  obtain ⟨out, count, hgoes⟩ := hgo
  rw [serveCountTokens, answersError_answer, countTokens, Talk.dies, Loop.run_of_goes hgoes]
  cases ending with
  | closed => simp [Ending.exit]
  | failed e => simp [Ending.exit]

/-! ### All routes -/

/-- A daemon that dies after the first word. -/
def cutShort : Talk Unit where
  events := [.token "Once".toList none]
  quiet := by simp [ends]

end AiDaemon.Shim
