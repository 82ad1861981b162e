import AiDaemon.MessagesHeard
import AiDaemon.ResponsesOutput

/-!
# The tool calls of a reply

A session has two events for tool calls, one call or a list of them.  Messages
and Responses take both, in one piece and as a stream.  The two relays of chat
completions know only the first, and the stream sends every call under the
index 0.  So they keep the calls of a turn where no list has a call in it, and
the stream where there is one call at most (`tool_calls_kept_iff`).
-/

namespace AiDaemon.Shim

open Proto Relay

variable {F D : Type}

/-! ### The calls of a reply -/

/-- A call in a chunk, under its index. -/
def ChatData.call? : ChatData → Option (Nat × ToolCall)
  | .toolCall index call => some (index, call)
  | _ => none

def Item.call? : Item → Option ToolCall
  | .call c => some c
  | .message _ => none

/-- A call that is done, under its index. -/
def ResponsesData.callDone? : ResponsesData → Option (Nat × ToolCall)
  | .itemDone index item => item.call?.map fun call => (index, call)
  | _ => none

/-- A call as a block carries it: the arguments as JSON, or an empty object for
    what is not JSON. -/
def toolUseOf (floats : Json.Floats D) (call : ToolCall) : Text × Text × Json.Value D :=
  (call.id, call.name, (Json.fromStr floats call.arguments).getD (object []))

/-- The calls are those of the events, each under an index of its own. -/
structure Kept (sent : List (Nat × ToolCall)) (events : List (Event F)) : Prop where
  calls : sent.map Prod.snd = callsOf events
  indexes : (sent.map Prod.fst).Nodup

/-- The calls in the reply are those of the turn. -/
def KeepsCalls (floats : Json.Floats D) (turn : Turn F) : Api → Bool → Prop
  | .chat, false => ∃ reply,
    (relayJson staying turn.session).sent = [.respond 200 (.ok reply)] ∧
      reply.toolCalls = callsOf turn.events
  | .chat, true =>
    Kept ((eventsOf (relaySse turn.session).sent).filterMap ChatData.call?) turn.events
  | .messages, false => ∃ reply,
    (relayAnthropicJson floats staying turn.session).sent = [.respond 200 (.ok reply)] ∧
      reply.content.filterMap Block.toolUse? = (callsOf turn.events).map (toolUseOf floats)
  | .messages, true =>
    Kept ((heard (eventsOf (relayAnthropicSse turn.session).sent)).tools.map
      fun t => (t.index, t.call)) turn.events
  | .responses, false => ∃ reply,
    (relayResponsesJson staying turn.session).sent = [.respond 200 (.ok reply)] ∧
      reply.output.filterMap Item.call? = callsOf turn.events
  | .responses, true =>
    let datas := (eventsOf (relayResponsesSse turn.session).sent).map Numbered.data
    Kept (datas.filterMap ResponsesData.callDone?) turn.events ∧
      ∃ reply, datas.filterMap ResponsesData.response = [reply] ∧
        reply.output.filterMap Item.call? = callsOf turn.events

/-- No list of calls has a call in it. -/
def ListsEmpty (events : List (Event F)) : Prop := ∀ calls, .toolCalls calls ∈ events → calls = []

/-- When the calls are kept. -/
def KeepsWhen (events : List (Event F)) : Api → Bool → Prop
  | .chat, false => ListsEmpty events
  | .chat, true => ListsEmpty events ∧ (callsOf events).length ≤ 1
  | .messages, _ | .responses, _ => True

/-! ### Chat completions -/

/-- What the relays of chat completions take for a call. -/
def singleIn : Event F → List ToolCall
  | .toolCall call => [call]
  | _ => []

def singlesOf (events : List (Event F)) : List ToolCall := events.flatMap singleIn

theorem singleIn_sublist (event : Event F) : (singleIn event).Sublist (callsIn event) := by
  cases event with
  | toolCall call => exact List.Sublist.refl _
  | hello | token | toolCalls | media | vectors | tokens | done | error | notice =>
    exact List.nil_sublist _

theorem singlesOf_sublist (events : List (Event F)) :
    (singlesOf events).Sublist (callsOf events) := by
  induction events with
  | nil => exact List.Sublist.slnil
  | cons event events ih => exact (singleIn_sublist event).append ih

theorem singleIn_eq_iff (event : Event F) :
    singleIn event = callsIn event ↔ ∀ calls, event = .toolCalls calls → calls = [] := by
  cases event with
  | toolCalls calls => simp [singleIn, callsIn, eq_comm]
  | hello | token | toolCall | media | vectors | tokens | done | error | notice =>
    simp [singleIn, callsIn]

/-- Nothing is left out where nothing is left out of an event. -/
theorem singlesOf_eq_iff (events : List (Event F)) :
    singlesOf events = callsOf events ↔ ListsEmpty events := by
  have hevents : singlesOf events = callsOf events ↔
      ∀ event ∈ events, singleIn event = callsIn event := by
    induction events with
    | nil => simp [singlesOf, callsOf]
    | cons event events ih =>
      rw [List.forall_mem_cons, ← ih]
      constructor
      · intro h
        have hlengths := congrArg List.length h
        simp only [singlesOf, callsOf, List.flatMap_cons, List.length_append] at hlengths
        have hfirst := (singleIn_sublist event).length_le
        have hrest := (singlesOf_sublist events).length_le
        simp only [singlesOf, callsOf] at hrest
        exact ⟨(singleIn_sublist event).eq_of_length (by omega),
          (singlesOf_sublist events).eq_of_length (by simp only [singlesOf, callsOf]; omega)⟩
      · rintro ⟨hfirst, hrest⟩
        simp only [singlesOf, callsOf] at hrest
        simp only [singlesOf, callsOf, List.flatMap_cons, hfirst, hrest]
  rw [hevents]
  constructor
  · intro h calls hcalls
    exact (singleIn_eq_iff _).mp (h _ hcalls) calls rfl
  · intro h event hevent
    refine (singleIn_eq_iff event).mpr ?_
    rintro calls rfl
    exact h calls hevent

def gatheredChat (events : List (Event F)) : ChatState := ⟨textOf events, singlesOf events⟩

theorem chat_gathers : Gathers (chatLoop (F := F) staying) gatheredChat := by
  intro events event s hquiet hacc
  cases event with
  | done | error => cases hquiet
  | hello | token | toolCall | toolCalls | media | vectors | tokens | notice =>
    refine ⟨_, rfl, ?_, rfl⟩
    simp [hacc, gatheredChat, textOf, tokenOf, singlesOf, singleIn]

/-- The reply to a whole turn. -/
theorem chat_json_done (turn : Turn F) :
    (relayJson staying turn.session).sent =
      [.respond 200 (.ok (completion (gatheredChat turn.events) turn.usage turn.finish))] := by
  obtain ⟨s, hrun, hacc, hstays⟩ := chat_gathers.run_talk rfl
    (s := ⟨⟨[], []⟩, false, 0⟩) (rfl : _ = gatheredChat []) rfl turn.toTalk
    (.done turn.isDone turn.usage turn.finish :: turn.behind.events) turn.behind.ending
  have hlast : (chatLoop staying).run s
      (.done turn.isDone turn.usage turn.finish :: turn.behind.events) turn.behind.ending =
        ([.respond 200 (.ok (completion s.acc turn.usage turn.finish))], .returned ()) := by
    simp [Loop.run, chatLoop, chatStep, hstays]
  rw [relayJson, Turn.session, hrun, hlast]
  simp [hacc]

theorem sseStep_quiet {event : Event F} (h : ends event = false) :
    (sseStep event).2 = .go () := by
  cases event with
  | done | error => cases h
  | hello | token | toolCall | toolCalls | media | vectors | tokens | notice => rfl

/-- What the stream sends for an event depends on nothing else. -/
theorem sse_goes {events : List (Event F)} (h : ∀ event ∈ events, ends event = false) :
    sseLoop.goes () events = some (events.flatMap fun event => (sseStep event).1, ()) := by
  induction events with
  | nil => rfl
  | cons event events ih =>
    have hgoes := ih fun other hother => h other (List.mem_cons_of_mem event hother)
    have hstep : sseStep event = ((sseStep event).1, .go ()) :=
      Prod.ext rfl (sseStep_quiet (h event List.mem_cons_self))
    simp only [sseLoop] at hgoes
    simp only [Loop.goes, sseLoop]
    rw [hstep]
    simp only [hgoes, Option.map_some, List.nil_append, List.flatMap_cons]

theorem sseStep_calls (event : Event F) :
    (eventsOf (sseStep event).1).filterMap ChatData.call? =
      (singleIn event).map fun call => (0, call) := by
  cases event <;> rfl

/-- The calls that the stream sends. -/
theorem chat_stream_calls (turn : Turn F) :
    (eventsOf (relaySse turn.session).sent).filterMap ChatData.call? =
      (singlesOf turn.events).map fun call => (0, call) := by
  have hrun := Loop.run_append (sse_goes turn.quiet)
    (.done turn.isDone turn.usage turn.finish :: turn.behind.events) turn.behind.ending
  have hcalls : (eventsOf (turn.events.flatMap fun event => (sseStep event).1)).filterMap
      ChatData.call? = (singlesOf turn.events).map fun call => (0, call) := by
    simp only [eventsOf, singlesOf, List.filterMap_flatMap, List.map_flatMap]
    exact List.flatMap_congr fun event _ => sseStep_calls event
  have hlast : sseLoop.run () (.done turn.isDone turn.usage turn.finish :: turn.behind.events)
      turn.behind.ending = ([.event (.finish (turn.finish.getD "stop".toList) turn.usage),
        .event .done], .broke ()) := rfl
  rw [relaySse, Turn.session, hrun, hlast]
  rw [eventsOf_head, eventsOf_append, List.filterMap_append, hcalls]
  exact List.append_nil _

theorem chat_stream_kept_iff (turn : Turn F) :
    Kept ((eventsOf (relaySse turn.session).sent).filterMap ChatData.call?) turn.events ↔
      ListsEmpty turn.events ∧ (callsOf turn.events).length ≤ 1 := by
  have hcalls : ((singlesOf turn.events).map fun call => (0, call)).map Prod.snd =
      singlesOf turn.events := by
    rw [List.map_map]
    exact List.map_id _
  have hindexes : ((singlesOf turn.events).map fun call => (0, call)).map Prod.fst =
      List.replicate (singlesOf turn.events).length 0 := by
    rw [List.map_map]
    exact List.map_const'
  rw [chat_stream_calls, ← singlesOf_eq_iff]
  constructor
  · rintro ⟨hsame, hdistinct⟩
    rw [hcalls] at hsame
    rw [hindexes, List.nodup_replicate, hsame] at hdistinct
    exact ⟨hsame, hdistinct⟩
  · rintro ⟨hsame, hone⟩
    refine ⟨hcalls.trans hsame, ?_⟩
    rw [hindexes, List.nodup_replicate, hsame]
    exact hone

theorem chat_kept_iff (turn : Turn F) :
    (∃ reply, (relayJson staying turn.session).sent = [.respond 200 (.ok reply)] ∧
      reply.toolCalls = callsOf turn.events) ↔ ListsEmpty turn.events := by
  rw [chat_json_done, ← singlesOf_eq_iff]
  constructor
  · rintro ⟨reply, hreply, hcalls⟩
    cases hreply
    exact hcalls
  · intro hsame
    exact ⟨_, rfl, hsame⟩

/-! ### Messages -/

theorem messages_kept (floats : Json.Floats D) (turn : Turn F) :
    ∃ reply, (relayAnthropicJson floats staying turn.session).sent = [.respond 200 (.ok reply)] ∧
      reply.content.filterMap Block.toolUse? = (callsOf turn.events).map (toolUseOf floats) := by
  refine ⟨_, messages_json_done floats turn, ?_⟩
  rw [messagesReply_tools, List.filterMap_map, ← List.filterMap_eq_map]
  rfl

theorem messages_stream_kept (turn : Turn F) :
    Kept ((heard (eventsOf (relayAnthropicSse turn.session).sent)).tools.map
      fun t => (t.index, t.call)) turn.events := by
  obtain ⟨out, s, hinv, hheard⟩ := heard_done turn
  rw [hheard]
  constructor
  · rw [List.map_map]
    exact hinv.tools
  · rw [List.map_map, List.nodup_iff_pairwise_ne, List.pairwise_map]
    exact hinv.inOrder.imp fun h => h.ne

/-! ### Responses -/

theorem filterMap_call (calls : List ToolCall) :
    (calls.map Item.call).filterMap Item.call? = calls := by
  rw [List.filterMap_map]
  exact List.filterMap_some

theorem calls_outputOf (text : Text) (calls : List ToolCall) :
    (outputOf text calls).filterMap Item.call? = calls := by
  rw [outputOf, List.filterMap_append, filterMap_call]
  split <;> rfl

theorem calls_announcedOf (textOpen : Bool) (text : Text) (calls : List ToolCall) :
    (announcedOf textOpen text calls).filterMap Item.call? = calls := by
  rw [announcedOf, List.filterMap_append, filterMap_call]
  split <;> rfl

/-- The calls that are done are those of the items, and their indexes go up. -/
theorem Announces.callsDone {n : Nat} {opened : Option Item} {datas : List ResponsesData}
    {items : List Item} (h : Announces n opened datas items) :
    (datas.filterMap ResponsesData.callDone?).map Prod.snd = items.filterMap Item.call? ∧
      ((datas.filterMap ResponsesData.callDone?).map Prod.fst).Sublist
        (List.range' n items.length) := by
  induction h with
  | nil => exact ⟨rfl, .slnil⟩
  | @other n opened data datas items hdata _ ih =>
    have hnone : data.callDone? = none := by
      cases data <;> first | rfl | cases hdata
    rwa [List.filterMap_cons_none hnone]
  | added _ ih => exact ih
  | @done n item datas items _ ih =>
    obtain ⟨hcalls, hindexes⟩ := ih
    cases item with
    | message text => exact ⟨hcalls, hindexes.cons n⟩
    | call call => exact ⟨congrArg (call :: ·) hcalls, hindexes.cons_cons n⟩

theorem responses_kept (turn : Turn F) :
    ∃ reply, (relayResponsesJson staying turn.session).sent = [.respond 200 (.ok reply)] ∧
      reply.output.filterMap Item.call? = callsOf turn.events :=
  ⟨_, responses_json_done turn, calls_outputOf _ _⟩

theorem responses_stream_kept (turn : Turn F) :
    Kept (((eventsOf (relayResponsesSse turn.session).sent).map Numbered.data).filterMap
      ResponsesData.callDone?) turn.events ∧
    ∃ reply, ((eventsOf (relayResponsesSse turn.session).sent).map Numbered.data).filterMap
      ResponsesData.response = [reply] ∧
        reply.output.filterMap Item.call? = callsOf turn.events := by
  obtain ⟨datas, hsent, hannounces, hresponse⟩ := responses_stream_done turn
  obtain ⟨hcalls, hindexes⟩ := hannounces.callsDone
  rw [hsent, numberFrom_data]
  refine ⟨⟨?_, ?_⟩, _, hresponse, calls_outputOf _ _⟩
  · rw [hcalls, calls_announcedOf]
  · exact hindexes.nodup List.nodup_range'

/-! ### All routes -/

/-- **The calls in the reply are those of the turn**: always on Messages and
    Responses, on chat completions exactly when no list of calls has one in it
    and, for a stream, there is one call at most. -/
theorem tool_calls_kept_iff (floats : Json.Floats D) (turn : Turn F) (api : Api)
    (streaming : Bool) :
    KeepsCalls floats turn api streaming ↔ KeepsWhen turn.events api streaming := by
  cases api with
  | chat =>
    cases streaming with
    | false => exact chat_kept_iff turn
    | true => exact chat_stream_kept_iff turn
  | messages =>
    cases streaming with
    | false => exact iff_of_true (messages_kept floats turn) trivial
    | true => exact iff_of_true (messages_stream_kept turn) trivial
  | responses =>
    cases streaming with
    | false => exact iff_of_true (responses_kept turn) trivial
    | true => exact iff_of_true (responses_stream_kept turn) trivial

/-- A turn with a list of two calls. -/
def twoCalls : Turn Unit where
  events := [.toolCalls [⟨"a".toList, "f".toList, "{}".toList⟩,
    ⟨"b".toList, "g".toList, "{}".toList⟩]]
  quiet := by simp [ends]
  isDone := true
  usage := Usage.default
  finish := some "tool_calls".toList
  behind := ⟨[], .closed⟩

/-- The answer to a chat completion has neither of them. -/
theorem chat_loses_calls :
    ¬ ∃ floats : Json.Floats Empty, KeepsCalls floats twoCalls .chat false := by
  rintro ⟨floats, reply, hreply, hcalls⟩
  cases hreply
  cases hcalls

end AiDaemon.Shim
