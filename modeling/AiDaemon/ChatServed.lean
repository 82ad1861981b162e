import AiDaemon.LlamaRuns
import AiDaemon.ToolCallsKept

/-!
# From `llama-server` to the HTTP client

A chat completion goes through four programs' worth of code: the thread of the backend that
reads the lines of `llama-server`, the reader loop of the daemon that routes its events, the
loop of `turn` that sends them on, and the relay of the HTTP bridge.  Each has been looked at
on its own.  Here they stand behind each other.

`chat_served` says what the client gets of the lines, in one piece and as a stream, whatever
the other requests of the backend and of the daemon do meanwhile.
-/

namespace AiDaemon.ChatServed

open LlamaCpp Proto Transition Turn
open Remote (isTokenEvent)
open Routing (RouteInv RouteState pending expected routeStep routed)
open Shim (ChatData eventsOf relayJson relaySse staying)

variable {F D J R J' : Type}

/-! ### Down the channel -/

/-- A receiver that is still held has got what was said about its request, once the reader
    loop has nothing in hand. -/
theorem queue_told {rt : RouteState F} (hinv : RouteInv rt) {n : Nat}
    (hcall : rt.calls n = .returned) (hreader : rt.reader = .reading) :
    rt.queues n = toldTo (rt.reqIds n) rt.looked := by
  have hlt : n < rt.begun := hinv.map.lt_begun (by rw [hcall]; simp)
  have hdelivered := hinv.flow.delivered n hlt (by rw [hcall]; rfl)
  have hopen : rt.finishedAt n = none := by
    rw [Option.eq_none_iff_forall_ne_some]
    intro k hk
    have hfinished := (hinv.flow.stops n k hk).2
    rw [hcall] at hfinished
    cases hfinished
  have hnothing : pending rt n = [] := by rw [pending, hreader]
  rw [hnothing, List.append_nil] at hdelivered
  rw [hdelivered, expected, hopen, Option.getD_none, List.take_length, toldTo]

/-! ### Through the turn -/

/-- How a token of the backend reaches the client. -/
def clientToken : BackendEvent F → Option (Event F)
  | .token _ tok logprobs => some (.token tok logprobs)
  | _ => none

/-- What the worker takes off the channel is this, and the client takes what it is sent. -/
def Arrives (told : List (BackendEvent F)) (arrivals : List (Arrival F)) : Prop :=
  arrivals.map Arrival.outcome = told.map .ok ∧ ∀ x ∈ arrivals, x.delivered = true

theorem Arrives.append {l r : List (BackendEvent F)} {arrivals : List (Arrival F)}
    (h : Arrives (l ++ r) arrivals) :
    ∃ before after, arrivals = before ++ after ∧ Arrives l before ∧ Arrives r after := by
  obtain ⟨houtcome, hdelivered⟩ := h
  rw [List.map_append, List.map_eq_append_iff] at houtcome
  obtain ⟨before, after, rfl, hbefore, hafter⟩ := houtcome
  rw [List.forall_mem_append] at hdelivered
  exact ⟨before, after, rfl, ⟨hbefore, hdelivered.1⟩, hafter, hdelivered.2⟩

theorem Arrives.cons {event : BackendEvent F} {told : List (BackendEvent F)}
    {arrivals : List (Arrival F)} (h : Arrives (event :: told) arrivals) :
    ∃ x rest, arrivals = x :: rest ∧ x.outcome = .ok event ∧ x.delivered = true ∧
      Arrives told rest := by
  obtain ⟨houtcome, hdelivered⟩ := h
  rw [List.map_cons, List.map_eq_cons_iff] at houtcome
  obtain ⟨x, rest, rfl, hx, hrest⟩ := houtcome
  rw [List.forall_mem_cons] at hdelivered
  exact ⟨x, rest, rfl, hx, hdelivered.1, hrest, hdelivered.2⟩

section Turns

variable (w : TurnWorker R J') (promptEstimate : UInt64)

/-- What tokens do to a turn that streams. -/
def afterTokens (turn : TurnState F) (tokens : List (BackendEvent F)) : TurnState F :=
  { turn with
    usage := { turn.usage with
      completionTokens := turn.usage.completionTokens + .ofNat tokens.length }
    sent := turn.sent ++ tokens.filterMap clientToken }

theorem drain_tokens {tokens : List (BackendEvent F)}
    (htokens : ∀ event ∈ tokens, isTokenEvent event = true) (hstream : w.stream = true)
    {before : List (Arrival F)} (hbefore : Arrives tokens before) (after : List (Arrival F))
    (turn : TurnState F) :
    drain (turnArm w promptEstimate) turn (before ++ after) =
      drain (turnArm w promptEstimate) (afterTokens turn tokens) after := by
  induction tokens generalizing before turn with
  | nil =>
    obtain ⟨houtcome, -⟩ := hbefore
    rw [List.map_nil, List.map_eq_nil_iff] at houtcome
    subst houtcome
    simp [afterTokens]
  | cons event tokens ih =>
    obtain ⟨⟨outcome, now, delivered⟩, rest, rfl, rfl, rfl, hrest⟩ := hbefore.cons
    rw [List.forall_mem_cons] at htokens
    cases event with
    | token reqId tok logprobs =>
      rw [List.cons_append, drain]
      simp only [turnArm, hstream, if_true, Bool.not_true, Bool.false_eq_true, if_false]
      rw [ih htokens.2 hrest]
      congr 1
      simp [afterTokens, TurnState.send, clientToken, UInt64.add_assoc, UInt64.add_comm 1,
        UInt64.ofNat_add]
    | hello | loaded | unloaded | toolCall | toolCalls | media | vectors | tokens | done | error =>
      simp [isTokenEvent] at htokens

variable (attachmentTokens : UInt64) (meter : Spend.Meter) (history : List Message)
  (pendingToolCalls : List Text)

/-- The usage that the client is told. -/
def settled (reported : Usage) (count : Nat) : Usage where
  promptTokens := max reported.promptTokens promptEstimate
  completionTokens := max reported.completionTokens (.ofNat count)
  attachmentTokens := attachmentTokens
  mediaBytes := 0

variable {w} {tokens : List (BackendEvent F)} {arrivals : List (Arrival F)}

theorem turn_done (htokens : ∀ event ∈ tokens, isTokenEvent event = true)
    (hstream : w.stream = true) {reqId : UInt64} {reported : Usage} {reason : Text}
    (h : Arrives (tokens ++ [.done reqId reported (some reason)]) arrivals) :
    ∃ turn, turnLoop w promptEstimate attachmentTokens meter history pendingToolCalls arrivals =
        some turn ∧ turn.sent = tokens.filterMap clientToken ++
          [.done true (settled promptEstimate attachmentTokens reported tokens.length)
            (some reason)] := by
  obtain ⟨before, after, rfl, hbefore, hafter⟩ := h.append
  obtain ⟨⟨outcome, now, delivered⟩, rest, rfl, rfl, rfl, -⟩ := hafter.cons
  rw [turnLoop, drain_tokens w promptEstimate htokens hstream hbefore, drain]
  refine ⟨_, rfl, ?_⟩
  simp [turnArm, TurnState.send, afterTokens, settled, Usage.default]

theorem turn_failed (htokens : ∀ event ∈ tokens, isTokenEvent event = true)
    (hstream : w.stream = true) {reqId : Option UInt64} {code message : Text}
    (h : Arrives (tokens ++ [.error reqId code message]) arrivals) :
    ∃ turn, turnLoop w promptEstimate attachmentTokens meter history pendingToolCalls arrivals =
        some turn ∧
      turn.sent = tokens.filterMap clientToken ++ [errorEvent code message] := by
  obtain ⟨before, after, rfl, hbefore, hafter⟩ := h.append
  obtain ⟨⟨outcome, now, delivered⟩, rest, rfl, rfl, rfl, -⟩ := hafter.cons
  rw [turnLoop, drain_tokens w promptEstimate htokens hstream hbefore, drain]
  refine ⟨_, rfl, ?_⟩
  simp [turnArm, TurnState.send, afterTokens]

theorem turn_refused {reqId : UInt64} {call : ToolCall} {rest : List (BackendEvent F)}
    (hrefused : refuses w [call] = true) (h : Arrives (.toolCall reqId call :: rest) arrivals) :
    ∃ turn message,
      turnLoop w promptEstimate attachmentTokens meter history pendingToolCalls arrivals =
        some turn ∧ turn.sent = [errorEvent "backend-failed".toList message] := by
  obtain ⟨⟨outcome, now, delivered⟩, after, rfl, rfl, rfl, -⟩ := h.cons
  rw [turnLoop, drain, turnArm_ends]
  simp only [endsTurn, hrefused, if_true]
  rw [refuses] at hrefused
  cases hcheck : callsAreOnesWeOffered w [call] with
  | ok => simp [hcheck] at hrefused
  | error e =>
    refine ⟨_, e, rfl, ?_⟩
    simp only [turnArm, toolCallsArm, hcheck]
    rfl

theorem turn_called {reqId : UInt64} {call : ToolCall} {reported : Usage} {reason : Text}
    (hoffered : refuses w [call] = false)
    (h : Arrives [.toolCall reqId call, .done reqId reported (some reason)] arrivals) :
    ∃ turn, turnLoop w promptEstimate attachmentTokens meter history pendingToolCalls arrivals =
        some turn ∧ turn.sent = [.toolCall call,
          .done true (settled promptEstimate attachmentTokens reported 0) (some reason)] := by
  obtain ⟨⟨outcome, now, delivered⟩, after, rfl, rfl, rfl, hafter⟩ := h.cons
  obtain ⟨⟨outcome, later, delivered⟩, rest, rfl, rfl, rfl, -⟩ := hafter.cons
  rw [turnLoop, drain, turnArm_ends]
  simp only [endsTurn, hoffered]
  rw [refuses] at hoffered
  cases hcheck : callsAreOnesWeOffered w [call] with
  | error e => simp [hcheck] at hoffered
  | ok =>
    rw [if_neg Bool.false_ne_true, drain]
    refine ⟨_, rfl, ?_⟩
    simp [turnArm, toolCallsArm, hcheck, TurnState.send, settled, Usage.default]

end Turns

/-! ### Over HTTP -/

/-- The texts of tokens. -/
def piecesOf (events : List (BackendEvent F)) : List Text :=
  events.filterMap fun event =>
    match event with
    | .token _ tok _ => some tok
    | _ => none

theorem clientToken_quiet {tokens : List (BackendEvent F)} :
    ∀ event ∈ tokens.filterMap clientToken, Shim.ends event = false := by
  intro event hevent
  obtain ⟨told, -, htold⟩ := List.mem_filterMap.mp hevent
  cases told <;> cases htold
  rfl

theorem textOf_tokens (tokens : List (BackendEvent F)) :
    Shim.textOf (tokens.filterMap clientToken) = (piecesOf tokens).flatten := by
  induction tokens with
  | nil => rfl
  | cons event tokens ih =>
    cases event with
    | token reqId tok logprobs => exact congrArg (tok ++ ·) ih
    | hello | loaded | unloaded | toolCall | toolCalls | media | vectors | tokens | done | error =>
      exact ih

theorem singlesOf_tokens (tokens : List (BackendEvent F)) :
    Shim.singlesOf (tokens.filterMap clientToken) = [] := by
  induction tokens with
  | nil => rfl
  | cons event tokens ih => cases event <;> exact ih

theorem sse_tokens (tokens : List (BackendEvent F)) :
    eventsOf ((tokens.filterMap clientToken).flatMap fun event => (Shim.sseStep event).1) =
      (piecesOf tokens).map ChatData.content := by
  induction tokens with
  | nil => rfl
  | cons event tokens ih =>
    cases event with
    | token reqId tok logprobs => exact congrArg (ChatData.content tok :: ·) ih
    | hello | loaded | unloaded | toolCall | toolCalls | media | vectors | tokens | done | error =>
      exact ih

/-- The session of a turn that has sent this. -/
def sessionOf (sent : List (Event F)) : Shim.Session F := ⟨sent, .closed⟩

/-- A relay gets past the talk, and then to what ends it. -/
theorem sse_run (talk : Shim.Talk F) (rest : List (Event F)) :
    eventsOf (relaySse (sessionOf (talk.events ++ rest))).sent =
      eventsOf (talk.events.flatMap fun event => (Shim.sseStep event).1) ++
        eventsOf (Shim.sseLoop.run () rest .closed).1 := by
  have hrun := Relay.Loop.run_append (Shim.sse_goes talk.quiet) rest .closed
  rw [relaySse, sessionOf, hrun]
  cases Shim.sseLoop.run () rest .closed with
  | mk sent exit =>
    cases exit with
    | broke state => simp
    | returned result => exact result.elim
    | failed e => simp

theorem json_failed (talk : Shim.Talk F) (error : ErrorBody) :
    (relayJson staying (sessionOf (talk.events ++ [.error error]))).sent =
      [.respond (Shim.statusOf error.code) (.openAi error.code error.message)] := by
  obtain ⟨s, hrun, -, -⟩ := Shim.chat_gathers.run_talk rfl
    (s := ⟨⟨[], []⟩, false, 0⟩) (rfl : _ = Shim.gatheredChat []) rfl talk [.error error] .closed
  rw [relayJson, sessionOf, hrun]
  simp [Relay.Loop.run, Shim.chatLoop, Shim.chatStep]

theorem json_done (talk : Shim.Talk F) (usage : Usage) (reason : Text) :
    (relayJson staying (sessionOf (talk.events ++ [.done true usage (some reason)]))).sent =
      [.respond 200 (.ok (Shim.completion (Shim.gatheredChat talk.events) usage
        (some reason)))] :=
  Shim.chat_json_done ⟨talk, true, usage, some reason, ⟨[], .closed⟩⟩

/-- Tokens, in one piece and as a stream. -/
theorem relayed_tokens (tokens : List (BackendEvent F)) (usage : Usage) (reason : Text) :
    let session := sessionOf (tokens.filterMap clientToken ++ [.done true usage (some reason)])
    (relayJson staying session).sent =
        [.respond 200 (.ok ⟨some (piecesOf tokens).flatten, [], reason, usage⟩)] ∧
      eventsOf (relaySse session).sent =
        (piecesOf tokens).map .content ++ [.finish reason usage, .done] := by
  constructor
  · have hdone := json_done ⟨tokens.filterMap clientToken, clientToken_quiet⟩ usage reason
    rw [hdone, Shim.completion, Shim.gatheredChat, singlesOf_tokens, textOf_tokens]
    rfl
  · rw [sse_run ⟨tokens.filterMap clientToken, clientToken_quiet⟩, sse_tokens]
    rfl

theorem relayed_failure (tokens : List (BackendEvent F)) (message : Text) :
    let code := "backend-failed".toList
    let session := sessionOf (tokens.filterMap clientToken ++ [errorEvent code message])
    (relayJson staying session).sent = [.respond 400 (.openAi code message)] ∧
      eventsOf (relaySse session).sent =
        (piecesOf tokens).map .content ++ [.error code message, .done] := by
  constructor
  · exact json_failed ⟨tokens.filterMap clientToken, clientToken_quiet⟩ _
  · rw [sse_run ⟨tokens.filterMap clientToken, clientToken_quiet⟩, sse_tokens]
    rfl

theorem relayed_call (call : ToolCall) (usage : Usage) (reason : Text) :
    let session : Shim.Session F := sessionOf [.toolCall call, .done true usage (some reason)]
    (relayJson staying session).sent = [.respond 200 (.ok ⟨none, [call], reason, usage⟩)] ∧
      eventsOf (relaySse session).sent = [.toolCall 0 call, .finish reason usage, .done] :=
  ⟨rfl, rfl⟩

/-! ### All the way -/

/-- The text that a line brings. -/
def textIn (floats : Json.Floats D) (line : Text) : Text :=
  match lineOf floats line with
  | .chunk chunk => (tokenOf chunk).getD []
  | .skipped | .done => []

theorem summary_completion (floats : Json.Floats D) (lines : List Text) :
    (summary floats lines).completion = lines.flatMap (textIn floats) := by
  induction lines using List.reverseRecOn with
  | nil => rfl
  | append_singleton lines line ih =>
    rw [summary_append, List.flatMap_append, List.flatMap_singleton, textIn, ← ih]
    cases lineOf floats line with
    | skipped => exact (List.append_nil _).symm
    | done => exact (List.append_nil _).symm
    | chunk chunk =>
      dsimp only
      rw [Generating.chunk]
      cases tokenOf chunk with
      | none => exact (List.append_nil _).symm
      | some tok => rfl

theorem splitInclusive_flatten (s : Text) : (splitInclusive s).flatten = s := by
  induction s with
  | nil => rfl
  | cons c cs ih =>
    rw [splitInclusive]
    split
    · rw [List.flatten_cons, ih]
      rfl
    · cases hpieces : splitInclusive cs with
      | nil =>
        rw [hpieces] at ih
        rw [← ih]
        rfl
      | cons piece pieces =>
        rw [hpieces] at ih
        rw [← ih]
        rfl

section

variable {around : Around F D} {task : Task}

theorem passed_tokens (lines : List Text) :
    ∀ event ∈ passed around task lines, isTokenEvent event = true := by
  intro event hevent
  obtain ⟨line, -, hline⟩ := List.mem_flatMap.mp hevent
  cases hmade : lineOf around.floats line with
  | skipped => simp [hmade] at hline
  | done => simp [hmade] at hline
  | chunk chunk =>
    rw [hmade] at hline
    dsimp only at hline
    unfold chunkEvents at hline
    split at hline
    · split at hline
      · cases hline
      · rw [List.mem_singleton.mp hline]
        rfl
    · cases hline

theorem passed_with_tools (htools : task.hasTools = true) (lines : List Text) :
    passed around task lines = [] := by
  rw [passed, List.flatMap_eq_nil_iff]
  intro line _
  cases lineOf around.floats line with
  | skipped | done => rfl
  | chunk chunk =>
    dsimp only
    unfold chunkEvents
    cases tokenOf chunk with
    | none => rfl
    | some tok => exact if_pos htools

theorem pieces_passed (htools : task.hasTools = false) (lines : List Text) :
    (piecesOf (passed around task lines)).flatten = lines.flatMap (textIn around.floats) := by
  induction lines using List.reverseRecOn with
  | nil => rfl
  | append_singleton lines line ih =>
    rw [passed_append, List.flatMap_append, List.flatMap_singleton, ← ih, piecesOf,
      List.filterMap_append, List.flatten_append, textIn]
    congr 1
    cases lineOf around.floats line with
    | skipped | done => rfl
    | chunk chunk =>
      dsimp only
      unfold chunkEvents
      cases tokenOf chunk with
      | none => rfl
      | some tok =>
        dsimp only
        rw [htools, if_neg Bool.false_ne_true]
        exact List.append_nil tok

theorem pieces_split (reqId : UInt64) (text : Text) :
    let tokens : List (BackendEvent F) := (splitInclusive text).map (.token reqId · none)
    (∀ event ∈ tokens, isTokenEvent event = true) ∧ (piecesOf tokens).flatten = text := by
  constructor
  · intro event hevent
    obtain ⟨piece, -, rfl⟩ := List.mem_map.mp hevent
    rfl
  · have hpieces : piecesOf ((splitInclusive text).map
        (BackendEvent.token (F := F) reqId · none)) = splitInclusive text := by
      rw [piecesOf, List.filterMap_map]
      exact List.filterMap_some
    rw [hpieces, splitInclusive_flatten]

end

section

variable (around : Around F D) (w : TurnWorker R J') (promptEstimate attachmentTokens : UInt64)

/-- What the client of a chat completion gets of these lines: on the left in one piece, on
    the right as a stream. -/
inductive Served (cancelled : Bool) (lines : List Text) (session : Shim.Session F) : Prop where
  | text (reason : Text) (pieces : List Text)
    (hreason : reason = ((summary around.floats lines).finishReason.getD "stop".toList) ∨
      cancelled = true ∧ reason = "cancelled".toList)
    (hpieces : pieces.flatten = lines.flatMap (textIn around.floats))
    (hserved : let summed := summary around.floats lines
      let usage := settled promptEstimate attachmentTokens
        ⟨summed.promptTokens, summed.emitted, 0, 0⟩ pieces.length
      (relayJson staying session).sent =
          [.respond 200 (.ok ⟨some (lines.flatMap (textIn around.floats)), [], reason, usage⟩)] ∧
        eventsOf (relaySse session).sent =
          pieces.map .content ++ [.finish reason usage, .done])
  | call (call : ToolCall)
    (hcall : parseToolCall around.floats (lines.flatMap (textIn around.floats)) = some call)
    (hoffered : refuses w [call] = false)
    (hserved : let summed := summary around.floats lines
      let usage := settled promptEstimate attachmentTokens
        ⟨summed.promptTokens, summed.emitted, 0, 0⟩ 0
      (relayJson staying session).sent =
          [.respond 200 (.ok ⟨none, [call], "tool_call".toList, usage⟩)] ∧
        eventsOf (relaySse session).sent =
          [.toolCall 0 call, .finish "tool_call".toList usage, .done])
  | failure (message : Text) (pieces : List Text)
    (hpieces : pieces.flatten <+: lines.flatMap (textIn around.floats))
    (hserved : (relayJson staying session).sent =
          [.respond 400 (.openAi "backend-failed".toList message)] ∧
        eventsOf (relaySse session).sent =
          pieces.map .content ++ [.error "backend-failed".toList message, .done])

variable {around w} (meter : Spend.Meter) (history : List Message)
  (pendingToolCalls : List Text) {task : Task} {cancelled : Bool} {lines : List Text}
  {arrivals : List (Arrival F)}

/-- What the thread has summed up, with or without a cancel on top. -/
def Summed (cancelled : Bool) (s summed : Generating) : Prop :=
  s = summed ∨ cancelled = true ∧ s = summed.cancelled

theorem Summed.same {s summed : Generating} (h : Summed cancelled s summed) :
    s.completion = summed.completion ∧ s.promptTokens = summed.promptTokens ∧
      s.emitted = summed.emitted ∧
      (s.finishReason.getD "stop".toList = summed.finishReason.getD "stop".toList ∨
        cancelled = true ∧ s.finishReason.getD "stop".toList = "cancelled".toList) := by
  rcases h with rfl | ⟨hcancelled, rfl⟩
  · exact ⟨rfl, rfl, rfl, .inl rfl⟩
  · exact ⟨rfl, rfl, rfl, .inr ⟨hcancelled, rfl⟩⟩

/-- Tokens that make up the text, and a Done. -/
theorem served_tokens (hstream : w.stream = true) {s : Generating}
    (hsummed : Summed cancelled s (summary around.floats lines)) {tokens : List (BackendEvent F)}
    (htokens : ∀ event ∈ tokens, isTokenEvent event = true)
    (hpieces : (piecesOf tokens).flatten = lines.flatMap (textIn around.floats))
    (h : Arrives (tokens ++ [.done task.reqId ⟨s.promptTokens, s.emitted, 0, 0⟩
      (some (s.finishReason.getD "stop".toList))]) arrivals) :
    ∃ turn, turnLoop w promptEstimate attachmentTokens meter history pendingToolCalls arrivals =
        some turn ∧
      Served around w promptEstimate attachmentTokens cancelled lines (sessionOf turn.sent) := by
  obtain ⟨-, hprompt, hemitted, hreason⟩ := hsummed.same
  obtain ⟨turn, hturn, hsent⟩ :=
    turn_done promptEstimate attachmentTokens meter history pendingToolCalls htokens hstream h
  have hlength : (piecesOf tokens).length = tokens.length := by
    rw [piecesOf, List.length_filterMap_eq_countP, List.countP_eq_length]
    intro event hevent
    have htoken := htokens event hevent
    cases event <;> first | rfl | cases htoken
  have hserved := relayed_tokens tokens
    (settled promptEstimate attachmentTokens ⟨s.promptTokens, s.emitted, 0, 0⟩ tokens.length)
    (s.finishReason.getD "stop".toList)
  refine ⟨turn, hturn, .text _ (piecesOf tokens) hreason hpieces ?_⟩
  dsimp only
  rw [hsent, ← hpieces, hlength, ← hprompt, ← hemitted]
  exact hserved

theorem served_said (hstream : w.stream = true) {s : Generating}
    (hsummed : Summed cancelled s (summary around.floats lines))
    (h : Arrives (passed around task lines ++ lastEvents around task s) arrivals) :
    ∃ turn, turnLoop w promptEstimate attachmentTokens meter history pendingToolCalls arrivals =
        some turn ∧
      Served around w promptEstimate attachmentTokens cancelled lines (sessionOf turn.sent) := by
  obtain ⟨hcompletion, hprompt, hemitted, -⟩ := hsummed.same
  rw [summary_completion] at hcompletion
  cases htools : task.hasTools with
  | false =>
    rw [lastEvents, htools] at h
    exact served_tokens promptEstimate attachmentTokens meter history pendingToolCalls hstream
      hsummed (passed_tokens lines) (pieces_passed htools lines) h
  | true =>
    rw [passed_with_tools htools, List.nil_append, lastEvents, htools, if_pos rfl,
      hcompletion] at h
    cases hcall : parseToolCall around.floats (lines.flatMap (textIn around.floats)) with
    | none =>
      rw [hcall] at h
      obtain ⟨htokens, hpieces⟩ := pieces_split (F := F) task.reqId
        (lines.flatMap (textIn around.floats))
      exact served_tokens promptEstimate attachmentTokens meter history pendingToolCalls hstream
        hsummed htokens hpieces h
    | some call =>
      rw [hcall] at h
      cases hrefused : refuses w [call] with
      | true =>
        obtain ⟨turn, message, hturn, hsent⟩ := turn_refused promptEstimate attachmentTokens
          meter history pendingToolCalls hrefused h
        refine ⟨turn, hturn, .failure message [] (List.nil_prefix) ?_⟩
        rw [hsent]
        exact relayed_failure [] message
      | false =>
        obtain ⟨turn, hturn, hsent⟩ := turn_called promptEstimate attachmentTokens meter history
          pendingToolCalls hrefused h
        refine ⟨turn, hturn, .call call hcall hrefused ?_⟩
        rw [hsent, hprompt, hemitted]
        exact relayed_call call _ _

theorem served_told (hstream : w.stream = true) {data told : List _}
    (htold : Told around task cancelled data told) (h : Arrives told arrivals) :
    ∃ past turn, (past = data ∨ ∃ line, data = past ++ [line] ∧
        (lineOf around.floats line = .done ∨ cancelled = true)) ∧
      turnLoop w promptEstimate attachmentTokens meter history pendingToolCalls arrivals =
        some turn ∧
      Served around w promptEstimate attachmentTokens cancelled past (sessionOf turn.sent) := by
  obtain ⟨past, hpast, ⟨message, rfl⟩ | rfl | ⟨hcancelled, rfl⟩⟩ := htold
  · obtain ⟨turn, hturn, hsent⟩ := turn_failed promptEstimate attachmentTokens meter history
      pendingToolCalls (passed_tokens past) hstream h
    refine ⟨past, turn, hpast, hturn, .failure message (piecesOf (passed around task past)) ?_ ?_⟩
    · cases htools : task.hasTools with
      | false =>
        rw [pieces_passed htools]
      | true =>
        rw [passed_with_tools htools]
        exact List.nil_prefix
    · rw [hsent]
      exact relayed_failure _ message
  · obtain ⟨turn, hturn, hserved⟩ := served_said promptEstimate attachmentTokens meter history
      pendingToolCalls hstream (.inl rfl) h
    exact ⟨past, turn, hpast, hturn, hserved⟩
  · obtain ⟨turn, hturn, hserved⟩ := served_said promptEstimate attachmentTokens meter history
      pendingToolCalls hstream (.inr ⟨hcancelled, rfl⟩) h
    exact ⟨past, turn, hpast, hturn, hserved⟩

/-- **Served as generated.** Let the backend and the daemon's routing run in any order, beside
    whatever other requests.  Once a generation is over and its events have come through,
    the client of the chat completion gets the text of the lines that `llama-server` sent, up
    to where the reply ended: in one piece the whole text, as a stream pieces that make it
    up, or the call the text spells, or an error behind a beginning of it. -/
theorem chat_served {name : Text} {acts : List (LlamaCpp.Act F J)} {st : Process F D}
    (hacts : runs (LlamaCpp.step around) .new acts = some st) {i : Nat} {t : Thread F D}
    (ht : st.threads[i]? = some t) {hasTools : Bool} (hjob : t.task.job = .generate hasTools)
    (hover : t.place.isOver = true) {steps : List (Routing.Step F)} {rt : RouteState F}
    (hsteps : runs (routeStep name) .new steps = some rt) (hcount : rt.begun ≤ 2 ^ 64)
    (hlooked : rt.looked = st.out) {n : Nat} (hcall : rt.calls n = .returned)
    (hreader : rt.reader = .reading) (hid : rt.reqIds n = t.task.reqId)
    (harrives : Arrives (rt.queues n) arrivals) (hstream : w.stream = true) :
    ∃ past turn, (past = dataLines (linesOf i acts) ∨
        ∃ line, dataLines (linesOf i acts) = past ++ [line] ∧
          (lineOf around.floats line = .done ∨ t.cancelled = true)) ∧
      turnLoop w promptEstimate attachmentTokens meter history pendingToolCalls arrivals =
        some turn ∧
      Served around w promptEstimate attachmentTokens t.cancelled past (sessionOf turn.sent) := by
  have hstory := ((traced_runs hacts).follow ht).story hjob
  have htold : Told around t.task t.cancelled (dataLines (linesOf i acts))
      (toldTo t.task.reqId st.out) := by
    cases hplace : t.place with
    | unpaused | uncancelled | gone =>
      rw [hplace] at hstory
      exact hstory
    | starting | connected | requesting | headers | refused | reading | holding | paused
    | deciding | passing | closing =>
      rw [hplace] at hover
      cases hover
  rw [queue_told (Routing.run_inv hsteps hcount) hcall hreader, hid, hlooked] at harrives
  exact served_told promptEstimate attachmentTokens meter history pendingToolCalls hstream htold
    harrives

end

/-- A generation of one token, up to its end. -/
def oneReply : List (LlamaCpp.Act Unit Unit) :=
  upToToken ++ [.thread 0 (.line "data: [DONE]\n".toList), .thread 0 .ok, .thread 0 .ok,
    .thread 0 .ok]

/-- The model comes up, a call begins, and the reader loop takes in what is said. -/
def oneCall : List (Routing.Step Unit) :=
  [.read (.loaded "m".toList 131072 4096), .look, .fetch, .insert 0, .check 0, .write 0 (.ok ()),
    .read (.token 1 "a".toList none), .look, .send,
    .read (.done 1 ⟨0, 1, 0, 0⟩ (some "stop".toList)), .look, .send]

/-- The loop is about to read. -/
def isReading : Routing.Reader F → Bool
  | .reading => true
  | .looking _ | .sending _ _ | .clearing | .exited => false

theorem reading_of {reader : Routing.Reader F} (h : isReading reader = true) : reader = .reading := by
  cases reader with
  | reading => rfl
  | looking | sending | clearing | exited => cases h

deriving instance DecidableEq for TokenProb

deriving instance DecidableEq for BackendEvent

theorem one_reply_served : ∃ past turn,
    turnLoop hosted 0 0 ⟨∅, ∅⟩ [] []
        ((((runs (routeStep []) .new oneCall).map fun rt => rt.queues 0).getD []).map fun event =>
          ⟨.ok event, 0, true⟩) = some turn ∧
      Served plain hosted 0 0 false past (sessionOf turn.sent) := by
  have hruns : ((runs (step plain) .new oneReply).bind fun st => st.threads[0]?.bind fun t =>
      (runs (routeStep []) .new oneCall).map fun rt =>
        t.task = ⟨1, "m".toList, .generate false⟩ && t.place.isOver && !t.cancelled &&
          rt.looked = st.out && rt.begun = 1 && rt.calls 0 = .returned && rt.reqIds 0 = 1 &&
          isReading rt.reader) = some true := by decide +kernel
  obtain ⟨st, hst, hruns⟩ := Option.bind_eq_some_iff.mp hruns
  obtain ⟨t, ht, hruns⟩ := Option.bind_eq_some_iff.mp hruns
  obtain ⟨rt, hrt, hruns⟩ := Option.map_eq_some_iff.mp hruns
  simp only [Bool.and_eq_true, decide_eq_true_eq, Bool.not_eq_true'] at hruns
  obtain ⟨⟨⟨⟨⟨⟨⟨htask, hover⟩, hcancelled⟩, hlooked⟩, hbegun⟩, hcall⟩, hid⟩, hreader⟩ := hruns
  have hreading : rt.reader = .reading := reading_of hreader
  have harrives : Arrives (rt.queues 0)
      ((rt.queues 0).map fun event => ⟨.ok event, 0, true⟩) := by
    refine ⟨by rw [List.map_map]; rfl, ?_⟩
    intro x hx
    obtain ⟨event, -, rfl⟩ := List.mem_map.mp hx
    rfl
  obtain ⟨past, turn, -, hturn, hserved⟩ := chat_served (w := hosted) 0 0 ⟨∅, ∅⟩ [] [] hst ht
    (by rw [htask]) hover hrt (by rw [hbegun]; decide) hlooked hcall hreading
    (by rw [hid, htask]) harrives rfl
  rw [hcancelled] at hserved
  rw [hrt]
  exact ⟨past, turn, hturn, hserved⟩

end AiDaemon.ChatServed
