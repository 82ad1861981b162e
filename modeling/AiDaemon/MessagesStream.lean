import AiDaemon.NumberedBlocks
import AiDaemon.ShimMessages

/-!
# The stream of a Messages reply

Between `message_start` and the last two events the stream is a sequence of
numbered blocks, each filled with deltas of its own kind, whatever the session
says and however text and calls take turns (`stream_goes`).  It ends well when
the session ends the turn or its socket closes between two events.  When a read
fails, as it does when the socket closes inside an event, the relay returns at
once, and what it has opened stays open (`messages_stream_well_formed_iff`).
-/

namespace AiDaemon.Shim

open NumberedBlocks Proto Relay

variable {F : Type}

/-! ### Blocks -/

/-- A delta is of the kind of its block. -/
def BlockStart.Fits : BlockStart → BlockDelta → Prop
  | .text, .text _ => True
  | .toolUse _ _, .inputJson _ => True
  | _, _ => False

/-- The event that is a mark of a block. -/
def blockEvent : Mark BlockStart BlockDelta → MessagesEvent
  | .start index block => .blockStart index block
  | .delta index delta => .blockDelta index delta
  | .stop index => .blockStop index

/-- How the blocks of a stream may be followed. -/
def MessagesEvent.concludes : MessagesEvent → Bool
  | .messageDelta _ _ | .error _ => true
  | _ => false

/-- One start, blocks numbered from zero, a conclusion and one stop. -/
def WellFormed (events : List MessagesEvent) : Prop :=
  ∃ marks count last, Blocks BlockStart.Fits 0 marks count ∧ last.concludes = true ∧
    events = .messageStart :: (marks.map blockEvent ++ [last, .messageStop])

/-- The kind of block that is open. -/
def StreamState.opened (s : StreamState) : Option BlockStart :=
  if s.textOpen then some .text else none

theorem closeTextBlock_marks {s : StreamState} {marks : List (Mark BlockStart BlockDelta)}
    (h : Streaming BlockStart.Fits marks s.index s.opened) :
    ∃ more, (closeTextBlock s).1 = more.map blockEvent ∧
      Streaming BlockStart.Fits (marks ++ more) (closeTextBlock s).2.index none := by
  unfold closeTextBlock
  unfold StreamState.opened at h
  split
  · rename_i hopen
    rw [if_pos hopen] at h
    exact ⟨[.stop s.index], rfl, h.stop⟩
  · rename_i hclosed
    rw [if_neg hclosed] at h
    exact ⟨[], rfl, by simpa using h⟩

theorem streamToolUse_marks (index : Nat) (call : ToolCall) :
    ∃ marks, (streamToolUse index call).1 = marks.map blockEvent ∧
      Blocks BlockStart.Fits index marks (streamToolUse index call).2 := by
  have hfits : ∀ d ∈ [BlockDelta.inputJson call.arguments],
      BlockStart.Fits (.toolUse call.id call.name) d := by
    intro d hd
    rw [List.mem_singleton.mp hd]
    trivial
  exact ⟨_, rfl, Blocks.one index (List.cons_ne_nil _ []) hfits⟩

theorem streamToolUses_marks (index : Nat) (calls : List ToolCall) :
    ∃ marks, (streamToolUses index calls).1 = marks.map blockEvent ∧
      Blocks BlockStart.Fits index marks (streamToolUses index calls).2 := by
  induction calls generalizing index with
  | nil => exact ⟨[], rfl, .nil index⟩
  | cons call calls ih =>
    obtain ⟨first, hfirst, hblocks⟩ := streamToolUse_marks index call
    obtain ⟨more, hmore, hlater⟩ := ih (streamToolUse index call).2
    refine ⟨first ++ more, ?_, hblocks.append hlater⟩
    rw [List.map_append, ← hfirst, ← hmore]
    rfl

/-! ### The loop -/

/-- What has been sent is marks of blocks, up to where the state stands. -/
def Marked (out : List (Sent MessagesEvent)) (s : StreamState) : Prop :=
  ∃ marks, eventsOf out = marks.map blockEvent ∧
    Streaming BlockStart.Fits marks s.index s.opened

@[simp] theorem eventsOf_map (events : List MessagesEvent) :
    eventsOf (events.map Sent.event) = events := by
  induction events with
  | nil => rfl
  | cons event events ih => simp [ih]

@[simp] theorem closeTextBlock_textOpen (s : StreamState) :
    (closeTextBlock s).2.textOpen = false := by
  unfold closeTextBlock
  split
  · rfl
  · rename_i hclosed
    exact Bool.eq_false_of_not_eq_true hclosed

theorem streamToolUses_one (index : Nat) (call : ToolCall) :
    streamToolUses index [call] = streamToolUse index call := rfl

/-- Tool calls go out in blocks of their own, behind the text that was open. -/
theorem Marked.tools {out : List (Sent MessagesEvent)} {s s' : StreamState} (h : Marked out s)
    (calls : List ToolCall) (hindex : s'.index =
      (streamToolUses (closeTextBlock s).2.index calls).2) (hopen : s'.textOpen = false) :
    Marked (out ++ ((closeTextBlock s).1 ++
      (streamToolUses (closeTextBlock s).2.index calls).1).map .event) s' := by
  obtain ⟨marks, hout, hmarks⟩ := h
  obtain ⟨closing, hclosing, hclosed⟩ := closeTextBlock_marks hmarks
  obtain ⟨more, hmore, hblocks⟩ := streamToolUses_marks (closeTextBlock s).2.index calls
  refine ⟨marks ++ closing ++ more, ?_, ?_⟩
  · rw [eventsOf_append, eventsOf_map, hout, hclosing, hmore]
    simp
  · rw [hindex, StreamState.opened, hopen]
    exact hclosed.append hblocks

theorem streamStep_marks {s s' : StreamState} {event : Event F}
    {out written : List (Sent MessagesEvent)} (h : Marked out s)
    (hstep : streamStep s event = (written, .go s')) : Marked (out ++ written) s' := by
  cases event with
  | token tok logprobs =>
    obtain ⟨marks, hout, hmarks⟩ := h
    simp only [streamStep, Prod.mk.injEq, Next.go.injEq] at hstep
    obtain ⟨rfl, rfl⟩ := hstep
    cases hopen : s.textOpen with
    | true =>
      refine ⟨marks ++ [.delta s.index (.text tok)], ?_, ?_⟩
      · simp [hout, blockEvent]
      · simp only [StreamState.opened, hopen, if_true] at hmarks ⊢
        exact hmarks.delta trivial
    | false =>
      refine ⟨marks ++ [.start s.index .text, .delta s.index (.text tok)], ?_, ?_⟩
      · simp [hout, blockEvent]
      · simp only [StreamState.opened, hopen, Bool.false_eq_true, if_false, if_true] at hmarks ⊢
        exact hmarks.start trivial
  | toolCall call =>
    simp only [streamStep, Prod.mk.injEq, Next.go.injEq] at hstep
    obtain ⟨rfl, rfl⟩ := hstep
    rw [← streamToolUses_one]
    exact h.tools [call] rfl (closeTextBlock_textOpen s)
  | toolCalls calls =>
    simp only [streamStep, Prod.mk.injEq, Next.go.injEq] at hstep
    obtain ⟨rfl, rfl⟩ := hstep
    exact h.tools calls rfl (closeTextBlock_textOpen s)
  | notice event detail =>
    cases hstep
    obtain ⟨marks, hout, hmarks⟩ := h
    exact ⟨marks, by simp [hout], hmarks⟩
  | hello | media | vectors | tokens =>
    cases hstep
    obtain ⟨marks, hout, hmarks⟩ := h
    exact ⟨marks, by simp [hout], hmarks⟩
  | done | error => cases hstep

theorem streamStep_quiet (s : StreamState) {event : Event F} (h : ends event = false) :
    ∃ written s', streamStep s event = (written, .go s') := by
  cases event with
  | done | error => cases h
  | hello | token | toolCall | toolCalls | media | vectors | tokens | notice => exact ⟨_, _, rfl⟩

/-- Until the turn ends, the stream goes past every event. -/
theorem stream_goes {events : List (Event F)} (h : ∀ event ∈ events, ends event = false) :
    ∃ out s, streamLoop.goes .new events = some (out, s) ∧ Marked out s := by
  have hgo : ∃ out s, streamLoop.goes .new events = some (out, s) :=
    streamLoop.goes_of_forall fun s event hevent => streamStep_quiet s (h event hevent)
  obtain ⟨out, s, hgoes⟩ := hgo
  refine ⟨out, s, hgoes, ?_⟩
  apply Loop.goes_induction (P := fun _ out s => Marked out s) ?_ ?_ hgoes
  · exact ⟨[], rfl, Streaming.new⟩
  · intro _ out t event written t' hmarked hstep
    have hnext := streamStep_marks hmarked hstep
    simpa [streamLoop] using hnext

/-! ### The whole stream -/

theorem wellFormed_of_marked {out : List (Sent MessagesEvent)} {s : StreamState}
    (h : Marked out s) {last : MessagesEvent} (hlast : last.concludes = true) :
    WellFormed (.messageStart ::
      (eventsOf out ++ ((closeTextBlock s).1 ++ [last, .messageStop]))) := by
  obtain ⟨marks, hout, hmarks⟩ := h
  obtain ⟨closing, hclosing, hclosed⟩ := closeTextBlock_marks hmarks
  refine ⟨marks ++ closing, _, last, hclosed.blocks, hlast, ?_⟩
  simp [hout, hclosing]

/-- The events of the reply are a start, what the loop sent, and what comes
    after the loop. -/
theorem eventsOf_relayAnthropicSse {before : List (Event F)} {out : List (Sent MessagesEvent)}
    {s : StreamState} (hgoes : streamLoop.goes .new before = some (out, s))
    (rest : List (Event F)) (ending : Ending Text) :
    eventsOf (relayAnthropicSse ⟨before ++ rest, ending⟩).sent =
      .messageStart :: (eventsOf out ++ (eventsOf (streamLoop.run s rest ending).1 ++
        match (streamLoop.run s rest ending).2 with
        | .broke s => streamEnd s
        | .returned _ | .failed _ => [])) := by
  simp only [relayAnthropicSse, Loop.run_append hgoes]
  cases (streamLoop.run s rest ending).2 with
  | broke s' => simp
  | returned r => simp
  | failed e => simp

theorem messages_stream_done {before : List (Event F)} {out : List (Sent MessagesEvent)}
    {s : StreamState} (hgoes : streamLoop.goes .new before = some (out, s)) (isDone : Bool)
    (usage : Usage) (finish : Option Text) (rest : List (Event F)) (ending : Ending Text) :
    eventsOf (relayAnthropicSse ⟨before ++ .done isDone usage finish :: rest, ending⟩).sent =
      .messageStart :: (eventsOf out ++ streamEnd { s with usage, finish }) := by
  rw [eventsOf_relayAnthropicSse hgoes]
  rfl

theorem messages_stream_error {before : List (Event F)} {out : List (Sent MessagesEvent)}
    {s : StreamState} (hgoes : streamLoop.goes .new before = some (out, s)) (error : ErrorBody)
    (rest : List (Event F)) (ending : Ending Text) :
    eventsOf (relayAnthropicSse ⟨before ++ .error error :: rest, ending⟩).sent =
      .messageStart :: (eventsOf out ++
        ((closeTextBlock s).1 ++ [.error (errorText error), .messageStop])) := by
  rw [eventsOf_relayAnthropicSse hgoes]
  simp [Loop.run, streamLoop, streamStep]

/-- The loop alone never sends a stop. -/
theorem not_wellFormed_of_marked {out : List (Sent MessagesEvent)} {s : StreamState}
    (h : Marked out s) : ¬ WellFormed (.messageStart :: eventsOf out) := by
  rintro ⟨marks, count, last, -, -, heq⟩
  obtain ⟨sent, hout, -⟩ := h
  rw [List.cons.injEq, hout] at heq
  have hstop : MessagesEvent.messageStop ∈ sent.map blockEvent := by
    rw [heq.2]
    simp
  obtain ⟨mark, -, hmark⟩ := List.mem_map.mp hstop
  cases mark <;> cases hmark

/-- **The Messages stream is well formed** exactly when the session ends the
    turn, or its socket closes without a failed read. -/
theorem messages_stream_well_formed_iff (session : Session F) :
    WellFormed (eventsOf (relayAnthropicSse session).sent) ↔
      session.events.any ends = true ∨ session.ending = .closed := by
  obtain ⟨events, ending⟩ := session
  rcases first_or_none ends events with hquiet | ⟨before, event, rest, rfl, hquiet, hends⟩
  · obtain ⟨out, s, hgoes, hmarked⟩ := stream_goes hquiet
    have hreply := eventsOf_relayAnthropicSse hgoes [] ending
    rw [List.append_nil] at hreply
    have hany : events.any ends = false := by
      rw [List.any_eq_false]
      intro event hevent
      simp [hquiet event hevent]
    rw [hreply, hany]
    cases ending with
    | closed => exact iff_of_true (wellFormed_of_marked hmarked rfl) (Or.inr rfl)
    | failed e =>
      have hnot := not_wellFormed_of_marked hmarked
      exact iff_of_false (by simpa [Loop.run, streamLoop] using hnot) (by simp)
  · obtain ⟨out, s, hgoes, hmarked⟩ := stream_goes hquiet
    refine iff_of_true ?_ (Or.inl (by simp [hends]))
    cases event with
    | done isDone usage finish =>
      rw [messages_stream_done hgoes]
      have hlast : Marked out { s with usage, finish } := hmarked
      exact wellFormed_of_marked hlast rfl
    | error error =>
      rw [messages_stream_error hgoes]
      exact wellFormed_of_marked hmarked rfl
    | hello | token | toolCall | toolCalls | media | vectors | tokens | notice => cases hends

/-- The daemon dies while it writes its second event. -/
theorem torn_stream_left_open :
    ¬ ∀ session : Session Unit, WellFormed (eventsOf (relayAnthropicSse session).sent) := by
  intro hall
  have hopen : Marked [.event (.blockStart 0 .text), .event (.blockDelta 0 (.text "Once".toList))]
      ⟨0, true, false, Usage.default, none⟩ :=
    ⟨[.start 0 .text, .delta 0 (.text "Once".toList)], rfl, Streaming.new.start trivial⟩
  exact not_wellFormed_of_marked hopen (hall ⟨[.token "Once".toList none],
    .failed ("session socket: ".toList ++ Framing.cutText 3)⟩)

end AiDaemon.Shim
