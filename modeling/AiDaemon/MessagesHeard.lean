import AiDaemon.MessagesStream

/-!
# The two replies of Messages

What a client makes of a stream is a fold over its events: it puts the text
together, opens a tool call at the start of its block and fills in the arguments
under the block's index.  A reply in one piece says the same things outright.
For a whole turn the two agree (`messages_replies_agree`): both loops come down
to the text and the calls of the turn.
-/

namespace AiDaemon.Shim

open Proto Relay

variable {F D : Type}

/-! ### What a client hears -/

structure ToolUse where
  index : Nat
  id : Text
  name : Text
  partialJson : Text

def ToolUse.call (t : ToolUse) : ToolCall := ⟨t.id, t.name, t.partialJson⟩

structure Heard where
  text : Text
  tools : List ToolUse
  stopReason : Option Text
  outputTokens : Option UInt64

def Heard.new : Heard := ⟨[], [], none, none⟩

def fillIn (index : Nat) (partialJson : Text) (t : ToolUse) : ToolUse :=
  if t.index = index then { t with partialJson := t.partialJson ++ partialJson } else t

/-- One event of a stream. -/
def hear (h : Heard) : MessagesEvent → Heard
  | .blockStart index (.toolUse id name) => { h with tools := h.tools ++ [⟨index, id, name, []⟩] }
  | .blockDelta _ (.text text) => { h with text := h.text ++ text }
  | .blockDelta index (.inputJson partialJson) =>
    { h with tools := h.tools.map (fillIn index partialJson) }
  | .messageDelta stopReason outputTokens =>
    { h with stopReason := some stopReason, outputTokens := some outputTokens }
  | .messageStart | .blockStart _ .text | .blockStop _ | .error _ | .messageStop => h

def heard (events : List MessagesEvent) : Heard := events.foldl hear .new

def Block.said : Block D → Text
  | .text t => t
  | .toolUse _ _ _ => []

def Block.toolUse? : Block D → Option (Text × Text × Json.Value D)
  | .text _ => none
  | .toolUse id name input => some (id, name, input)

/-- A stream and a reply say the same. Arguments are compared as JSON, where
    they are JSON. -/
structure Agree (floats : Json.Floats D) (h : Heard) (reply : MessagesReply D) : Prop where
  text : h.text = reply.content.flatMap Block.said
  tools : List.Forall₂ (fun t u => t.id = u.1 ∧ t.name = u.2.1 ∧
    ∀ v, Json.fromStr floats t.partialJson = some v → u.2.2 = v)
    h.tools (reply.content.filterMap Block.toolUse?)
  stopReason : h.stopReason = some reply.stopReason
  outputTokens : h.outputTokens = some reply.usage.completionTokens

/-! ### The stream -/

theorem hear_close (s : StreamState) (h : Heard) : (closeTextBlock s).1.foldl hear h = h := by
  unfold closeTextBlock
  split <;> rfl

/-- The tool calls in the order of their blocks. -/
def InOrder (tools : List ToolUse) : Prop := tools.Pairwise fun t u => t.index < u.index

/-- What a client has of the tools after some more calls. -/
structure Adds (h h' : Heard) (calls : List ToolCall) (index : Nat) : Prop where
  text : h'.text = h.text
  tools : h'.tools.map ToolUse.call = h.tools.map ToolUse.call ++ calls
  below : ∀ t ∈ h'.tools, t.index < index
  inOrder : InOrder h.tools → InOrder h'.tools
  stopReason : h'.stopReason = h.stopReason
  outputTokens : h'.outputTokens = h.outputTokens

theorem map_fillIn_below {tools : List ToolUse} {index : Nat} (h : ∀ t ∈ tools, t.index < index)
    (partialJson : Text) : tools.map (fillIn index partialJson) = tools := by
  rw [List.map_congr_left (g := id), List.map_id]
  intro t ht
  exact if_neg (h t ht).ne

theorem hear_streamToolUse {h : Heard} {index : Nat} (hbelow : ∀ t ∈ h.tools, t.index < index)
    (call : ToolCall) :
    Adds h ((streamToolUse index call).1.foldl hear h) [call] (streamToolUse index call).2 := by
  have htools : ((streamToolUse index call).1.foldl hear h).tools =
      h.tools ++ [⟨index, call.id, call.name, call.arguments⟩] := by
    simp [streamToolUse, hear, map_fillIn_below hbelow, fillIn]
  refine ⟨rfl, ?_, ?_, ?_, rfl, rfl⟩
  · rw [htools, List.map_append]
    rfl
  · intro t ht
    rw [htools] at ht
    rcases List.mem_append.mp ht with ht | ht
    · exact Nat.lt_succ_of_lt (hbelow t ht)
    · rw [List.mem_singleton.mp ht]
      exact Nat.lt_succ_self index
  · intro hordered
    rw [htools]
    refine List.pairwise_append.mpr ⟨hordered, List.pairwise_singleton _ _, ?_⟩
    intro t ht u hu
    rw [List.mem_singleton.mp hu]
    exact hbelow t ht

theorem hear_streamToolUses {h : Heard} {index : Nat} (hbelow : ∀ t ∈ h.tools, t.index < index)
    (calls : List ToolCall) :
    Adds h ((streamToolUses index calls).1.foldl hear h) calls (streamToolUses index calls).2 := by
  induction calls generalizing h index with
  | nil => exact ⟨rfl, (List.append_nil _).symm, hbelow, id, rfl, rfl⟩
  | cons call calls ih =>
    have hone := hear_streamToolUse hbelow call
    have hmore := ih hone.below
    simp only [streamToolUses, List.foldl_append]
    refine ⟨hmore.text.trans hone.text, ?_, hmore.below, hmore.inOrder ∘ hone.inOrder,
      hmore.stopReason.trans hone.stopReason, hmore.outputTokens.trans hone.outputTokens⟩
    rw [hmore.tools, hone.tools, List.append_assoc]
    rfl

/-- What a client has heard of the events so far. -/
structure HeardInv (events : List (Event F)) (out : List (Sent MessagesEvent)) (s : StreamState) :
    Prop where
  text : (heard (eventsOf out)).text = textOf events
  tools : (heard (eventsOf out)).tools.map ToolUse.call = callsOf events
  below : ∀ t ∈ (heard (eventsOf out)).tools, t.index < s.index
  inOrder : InOrder (heard (eventsOf out)).tools
  toolUsed : s.toolUsed = events.any callsTools

theorem HeardInv.calls {events : List (Event F)} {out : List (Sent MessagesEvent)}
    {s s' : StreamState} (h : HeardInv events out s) (event : Event F) (htext : tokenOf event = [])
    (htools : callsTools event = true) (hindex : s'.index =
      (streamToolUses (closeTextBlock s).2.index (callsIn event)).2) (hused : s'.toolUsed = true) :
    HeardInv (events ++ [event]) (out ++ ((closeTextBlock s).1 ++
      (streamToolUses (closeTextBlock s).2.index (callsIn event)).1).map .event) s' := by
  have hbelow : ∀ t ∈ (heard (eventsOf out)).tools, t.index < (closeTextBlock s).2.index := by
    intro t ht
    apply Nat.lt_of_lt_of_le (h.below t ht)
    unfold closeTextBlock
    split
    · exact Nat.le_succ _
    · exact le_rfl
  have hheard : heard (eventsOf (out ++ ((closeTextBlock s).1 ++
      (streamToolUses (closeTextBlock s).2.index (callsIn event)).1).map .event)) =
        (streamToolUses (closeTextBlock s).2.index (callsIn event)).1.foldl hear
          (heard (eventsOf out)) := by
    simp only [heard, eventsOf_append, eventsOf_map, List.foldl_append, hear_close]
  have hadds := hear_streamToolUses hbelow (callsIn event)
  rw [← hheard] at hadds
  refine ⟨?_, ?_, ?_, hadds.inOrder h.inOrder, ?_⟩
  · rw [hadds.text, h.text]
    simp [textOf, htext]
  · rw [hadds.tools, h.tools]
    simp [callsOf]
  · rw [hindex]
    exact hadds.below
  · simp [hused, htools]

theorem HeardInv.silent {events : List (Event F)} {out written : List (Sent MessagesEvent)}
    {s : StreamState} (h : HeardInv events out s) {event : Event F} (htext : tokenOf event = [])
    (hcalls : callsIn event = []) (htools : callsTools event = false)
    (hwritten : eventsOf written = []) : HeardInv (events ++ [event]) (out ++ written) s := by
  have hheard : heard (eventsOf (out ++ written)) = heard (eventsOf out) := by
    rw [eventsOf_append, hwritten, List.append_nil]
  refine ⟨?_, ?_, ?_, ?_, ?_⟩
  · rw [hheard, h.text]
    simp [textOf, htext]
  · rw [hheard, h.tools]
    simp [callsOf, hcalls]
  · rw [hheard]
    exact h.below
  · rw [hheard]
    exact h.inOrder
  · rw [h.toolUsed]
    simp [htools]

theorem streamStep_heard {events : List (Event F)} {out written : List (Sent MessagesEvent)}
    {s s' : StreamState} {event : Event F} (h : HeardInv events out s)
    (hstep : streamStep s event = (written, .go s')) :
    HeardInv (events ++ [event]) (out ++ written) s' := by
  cases event with
  | token tok logprobs =>
    simp only [streamStep, Prod.mk.injEq, Next.go.injEq] at hstep
    obtain ⟨rfl, rfl⟩ := hstep
    have hheard : heard (eventsOf (out ++ ((if s.textOpen = true then []
        else [MessagesEvent.blockStart s.index .text]) ++
          [MessagesEvent.blockDelta s.index (.text tok)]).map .event)) =
        { heard (eventsOf out) with text := (heard (eventsOf out)).text ++ tok } := by
      rw [eventsOf_append, eventsOf_map, heard, List.foldl_append]
      split <;> rfl
    refine ⟨?_, ?_, ?_, ?_, ?_⟩
    · rw [hheard]
      simp [h.text, textOf, tokenOf]
    · rw [hheard]
      simp [h.tools, callsOf, callsIn]
    · rw [hheard]
      exact h.below
    · rw [hheard]
      exact h.inOrder
    · simp [h.toolUsed, callsTools]
  | toolCall call =>
    simp only [streamStep, Prod.mk.injEq, Next.go.injEq] at hstep
    obtain ⟨rfl, rfl⟩ := hstep
    exact h.calls (.toolCall call) rfl rfl rfl rfl
  | toolCalls calls =>
    simp only [streamStep, Prod.mk.injEq, Next.go.injEq] at hstep
    obtain ⟨rfl, rfl⟩ := hstep
    exact h.calls (.toolCalls calls) rfl rfl rfl rfl
  | notice event detail =>
    cases hstep
    exact h.silent rfl rfl rfl rfl
  | hello | media | vectors | tokens =>
    cases hstep
    exact h.silent rfl rfl rfl rfl
  | done | error => cases hstep

theorem streamLoop_heard {events : List (Event F)} {out : List (Sent MessagesEvent)}
    {s : StreamState} (hgoes : streamLoop.goes .new events = some (out, s)) :
    HeardInv events out s := by
  apply Loop.goes_induction (P := HeardInv) ?_ ?_ hgoes
  · exact ⟨rfl, rfl, fun _ ht => absurd ht List.not_mem_nil, .nil, rfl⟩
  · intro as out t event written t' hinv hstep
    have hnext := streamStep_heard hinv hstep
    simpa [streamLoop] using hnext

/-! ### The reply in one piece -/

/-- What the loop has gathered from the events so far. -/
def gathered (floats : Json.Floats D) (events : List (Event F)) : MessagesState D where
  text := textOf events
  blocks := (callsOf events).map (toolUseBlock floats)
  usage := Usage.default
  finish := none
  toolUsed := events.any callsTools

theorem messages_gathers (floats : Json.Floats D) :
    Gathers (messagesLoop (F := F) floats staying) (gathered floats) := by
  intro events event s hquiet hacc
  cases event with
  | done | error => cases hquiet
  | hello | token | toolCall | toolCalls | media | vectors | tokens | notice =>
    refine ⟨_, rfl, ?_, rfl⟩
    simp [hacc, gathered, textOf, tokenOf, callsOf, callsIn, callsTools]

/-- The reply to a whole turn. -/
theorem messages_json_done (floats : Json.Floats D) (turn : Turn F) :
    (relayAnthropicJson floats staying turn.session).sent =
      [.respond 200 (.ok (messagesReply { gathered floats turn.events with
        usage := turn.usage
        finish := turn.finish }))] := by
  obtain ⟨s, hrun, hacc, hstays⟩ := (messages_gathers floats).run_talk rfl
    (s := ⟨.new, false, 0⟩) (rfl : _ = gathered floats []) rfl turn.toTalk
    (.done turn.isDone turn.usage turn.finish :: turn.behind.events) turn.behind.ending
  have hlast : (messagesLoop floats staying).run s
      (.done turn.isDone turn.usage turn.finish :: turn.behind.events) turn.behind.ending =
        ([], .broke ⟨{ s.acc with usage := turn.usage, finish := turn.finish }, s.abandoned,
          s.reads + 1⟩) := by
    simp [Loop.run, messagesLoop, messagesStep]
  rw [relayAnthropicJson, Turn.session, hrun, hlast]
  simp [hstays, hacc]

/-! ### Both -/

theorem forall_tools {tools : List ToolUse} {calls : List ToolCall}
    (h : tools.map ToolUse.call = calls) (floats : Json.Floats D) :
    List.Forall₂ (fun t u => t.id = u.1 ∧ t.name = u.2.1 ∧
      ∀ v, Json.fromStr floats t.partialJson = some v → u.2.2 = v)
      tools ((calls.map (toolUseBlock floats)).filterMap Block.toolUse?) := by
  subst h
  induction tools with
  | nil => exact .nil
  | cons t tools ih =>
    refine .cons ⟨rfl, rfl, ?_⟩ ih
    intro v hv
    simp [ToolUse.call, hv]

theorem messagesReply_text (floats : Json.Floats D) (events : List (Event F)) (usage : Usage)
    (finish : Option Text) :
    (messagesReply { gathered floats events with usage, finish }).content.flatMap Block.said =
      textOf events := by
  have hcalls : ∀ calls : List ToolCall,
      (calls.map (toolUseBlock floats)).flatMap Block.said = [] := by
    intro calls
    simp [toolUseBlock, Block.said]
  simp only [messagesReply, gathered, List.flatMap_append, hcalls, List.append_nil]
  by_cases hempty : textOf events = []
  · simp [hempty]
  · simp [hempty, Block.said]

theorem messagesReply_tools (floats : Json.Floats D) (events : List (Event F)) (usage : Usage)
    (finish : Option Text) :
    (messagesReply { gathered floats events with usage, finish }).content.filterMap
        Block.toolUse? =
      ((callsOf events).map (toolUseBlock floats)).filterMap Block.toolUse? := by
  simp only [messagesReply, gathered, List.filterMap_append]
  by_cases hempty : textOf events = []
  · simp [hempty]
  · simp [hempty, Block.toolUse?]

/-- What a client has heard when the turn is done. -/
theorem heard_done (turn : Turn F) :
    ∃ out s, HeardInv turn.events out s ∧
      heard (eventsOf (relayAnthropicSse turn.session).sent) =
        { heard (eventsOf out) with
          stopReason := some (anthropicStopReason turn.finish s.toolUsed)
          outputTokens := some turn.usage.completionTokens } := by
  obtain ⟨out, s, hgoes, -⟩ := stream_goes turn.quiet
  refine ⟨out, s, streamLoop_heard hgoes, ?_⟩
  rw [Turn.session, messages_stream_done hgoes]
  simp only [heard, streamEnd, List.foldl_cons, List.foldl_append, hear, hear_close,
    List.foldl_nil]

/-- **The two replies of Messages agree.** For every turn of a session, whatever
    comes behind it. -/
theorem messages_replies_agree (floats : Json.Floats D) (turn : Turn F) :
    ∃ reply, (relayAnthropicJson floats staying turn.session).sent = [.respond 200 (.ok reply)] ∧
      Agree floats (heard (eventsOf (relayAnthropicSse turn.session).sent)) reply := by
  refine ⟨_, messages_json_done floats turn, ?_⟩
  obtain ⟨out, s, hinv, hheard⟩ := heard_done turn
  rw [hheard]
  refine ⟨?_, ?_, ?_, rfl⟩
  · rw [messagesReply_text]
    exact hinv.text
  · rw [messagesReply_tools]
    exact forall_tools hinv.tools floats
  · rw [hinv.toolUsed]
    rfl

end AiDaemon.Shim
