import AiDaemon.Framing
import AiDaemon.Turn
import AiDaemon.Transition

/-!
# A session's worker (`session.rs`: `run`, `dispatch`, `answer_tools`, `generate_media`)

The worker takes one request of the client at a time.  A turn, an embedding or a media
request that was begun on the backend then waits for events, one after the other, until
one of them ends it.  The steps are the requests and the events, so that every state in
the middle of a loop is a state of the run; the rounds themselves are those of `Turn`.

Whether a request gets as far as its backend is decided by many checks, each of which
answers with one error event; what they come to is part of the step that takes the
request (`Env`).

A session remembers which version its client speaks.  Everything the worker sends is
kept with the version it was sent under, and `OldClient` says what a client of version 1
must not see.
-/

namespace AiDaemon.Dispatch

open Framing Proto Spend Transition Turn

variable {R F J : Type}

/-! ### The source -/

def minDataProto : UInt32 := 1

def dataProto : UInt32 := 2

def maxAttachmentPayload : Nat := maxFrame - 4 * 1024 * 1024

/-- What a media loop keeps. -/
structure MediaState (F : Type) where
  produced : UInt32
  usage : Usage
  sent : List (Event F)

inductive Phase (F : Type) where
  | idle
  | turning (stream : Bool) (promptEstimate : UInt64) (st : TurnState F)
  | pumping (st : PumpState F)
  | imaging (st : MediaState F)
  /-- The thread is done with the socket. -/
  | stopped

structure Worker (F J : Type) where
  proto : UInt32
  history : List Message
  tools : Option (List (ToolSchema J))
  params : Params F
  grammar : Option Text
  pendingToolCalls : List Text
  meter : Meter
  /-- What the finished requests have sent, each event with the version it was sent
      under. -/
  sent : List (UInt32 × Event F)
  phase : Phase F

def Worker.new (meter : Meter) : Worker F J where
  proto := minDataProto
  history := []
  tools := none
  params := .default
  grammar := none
  pendingToolCalls := []
  meter := meter
  sent := []
  phase := .idle

/-- What a turn knows once it is admitted. -/
structure Admitted where
  promptEstimate : UInt64
  attachmentTokens : UInt64

/-- What the rest of the daemon makes of a request. -/
structure Env where
  /-- The client still takes what is sent. -/
  delivered : Bool
  /-- The checks in front of `begin`, and `begin` itself. -/
  admission : Except ErrorBody Admitted
  /-- What `attach` makes of its payload: an error event, if it sends one, and whether
      the socket can be used after it. -/
  attached : Except (Option ErrorBody × Bool) Unit

inductive Act (F J : Type) where
  | request (request : Request F J) (env : Env)
  | strayBlob (delivered : Bool)
  | unrecognised (reason : Text) (delivered : Bool)
  /-- Something arrives in a loop; `bytesTaken` is whether the client takes the bytes
      that follow a media header. -/
  | arrival (x : Arrival F) (bytesTaken : Bool)
  /-- The reader is gone, or the session was closed. -/
  | leave

def Worker.send (st : Worker F J) (delivered : Bool) (event : Event F) : Worker F J :=
  if delivered then { st with sent := st.sent ++ [(st.proto, event)] } else st

def noToolCallText : Text := "no tool call is outstanding on this session".toList

def oldProtoText : Text := "media output needs data protocol 2; say hello with it".toList

def strayBlobText : Text := "a BLOB arrived with no attachment to own it".toList

def unrecognisedText (reason : Text) : Text := "unrecognised request: ".toList ++ reason

def versionText (asked : UInt32) : Text :=
  "this daemon speaks data protocol ".toList ++ Text.ofNat minDataProto.toNat ++ " to ".toList ++
    Text.ofNat dataProto.toNat ++ ", not ".toList ++ Text.ofNat asked.toNat

/-- `Debug` of the list of ids, and the one that is not in it. -/
def notWaitingText (isEscaped : Char → Bool) (pending : List Text) (id : Text) : Text :=
  "this session is waiting on [".toList ++
    ", ".toList.intercalate (pending.map (quoted isEscaped)) ++ "], not ".toList ++ id

def oversizeText (len : Nat) : Text :=
  "the backend produced ".toList ++ Text.ofNat len ++ " bytes, past the ".toList ++
    Text.ofNat maxAttachmentPayload ++ " one request can carry".toList

/-- How a tool's result stands in the history. -/
def toolMessage (result : ToolResultItem) : Message where
  role := "tool".toList
  content := result.content
  attachments := []
  toolCallId := some result.id

/-- The loop of `answer_tools`: the calls still pending and the history, and the id
    that nobody waits for, if there was one. -/
def takeResults : List Text → List Message → List ToolResultItem →
    List Text × List Message × Option Text
  | pending, history, [] => (pending, history, none)
  | pending, history, result :: results =>
    if result.id ∈ pending then
      takeResults (pending.erase result.id) (history ++ [toolMessage result]) results
    else (pending, history, some result.id)

/-- Where a turn's loop starts. -/
def Worker.begun (st : Worker F J) (admitted : Admitted) : TurnState F where
  meter := st.meter
  history := st.history
  pendingToolCalls := st.pendingToolCalls
  usage := { Usage.default with attachmentTokens := admitted.attachmentTokens }
  emittedToolCall := false
  sent := []

/-- `turn` up to its loop. -/
def Worker.turn (st : Worker F J) (stream : Bool) (env : Env) : Worker F J :=
  match env.admission with
  | .error body => st.send env.delivered (.error body)
  | .ok admitted =>
    { st with phase := .turning stream admitted.promptEstimate (st.begun admitted) }

def Worker.answerTools (isEscaped : Char → Bool) (st : Worker F J)
    (results : List ToolResultItem) (env : Env) : Worker F J :=
  if st.pendingToolCalls = [] then
    st.send env.delivered (errorEvent "protocol".toList noToolCallText)
  else
    match takeResults st.pendingToolCalls st.history results with
    | (pending, history, some id) =>
      { st with pendingToolCalls := pending, history := history }.send env.delivered
        (errorEvent "protocol".toList (notWaitingText isEscaped pending id))
    | (pending, history, none) =>
      let next := { st with pendingToolCalls := pending, history := history }
      if pending = [] then next.turn true env else next

/-- `generate_media` up to its loop. -/
def Worker.generateMedia (st : Worker F J) (env : Env) : Worker F J :=
  if st.proto < 2 then st.send env.delivered (errorEvent "protocol".toList oldProtoText)
  else
    match env.admission with
    | .error body => st.send env.delivered (.error body)
    | .ok _ => { st with phase := .imaging ⟨0, .default, []⟩ }

/-- `embed` and `tokenize` up to their loop. -/
def Worker.oneShot (st : Worker F J) (env : Env) : Worker F J :=
  match env.admission with
  | .error body => st.send env.delivered (.error body)
  | .ok _ => { st with phase := .pumping ⟨st.meter, []⟩ }

def Worker.hello (info : SessionInfo) (st : Worker F J) (proto : UInt32) (delivered : Bool) :
    Worker F J :=
  let asked := if proto = 0 then dataProto else proto
  if minDataProto ≤ asked ∧ asked ≤ dataProto then
    { st with proto := asked }.send delivered (.hello true asked info)
  else
    { st.send delivered (errorEvent "protocol".toList (versionText asked)) with phase := .stopped }

def Worker.attach (st : Worker F J) (env : Env) : Worker F J :=
  match env.attached with
  | .ok () => st
  | .error (body, fatal) =>
    let next := match body with
      | some body => st.send env.delivered (.error body)
      | none => st
    if fatal then { next with phase := .stopped } else next

def dispatch (isEscaped : Char → Bool) (info : SessionInfo) (st : Worker F J) (env : Env) :
    Request F J → Worker F J
  | .hello proto => st.hello info proto env.delivered
  | .attach _ _ _ _ => st.attach env
  | .generate messages stream params grammar tools =>
    { st with
      history := messages
      params := params.getD .default
      tools := tools
      grammar := grammar
      pendingToolCalls := [] }.turn stream env
  | .toolResult id content => st.answerTools isEscaped [⟨id, content⟩] env
  | .toolResults results => st.answerTools isEscaped results env
  | .generateMedia _ _ _ _ => st.generateMedia env
  | .embed _ | .tokenize _ => st.oneShot env
  | .cancel => st

section Loops

variable (w : TurnWorker R J) (info : SessionInfo)

def MediaState.send (st : MediaState F) (x : Arrival F) (event : Event F) : MediaState F :=
  if x.delivered then { st with sent := st.sent ++ [event] } else st

/-- One round of `generate_media`'s loop, and whether it was the last. -/
def mediaArm (st : MediaState F) (x : Arrival F) (bytesTaken : Bool) : MediaState F × Bool :=
  match x.outcome with
  | .ok (.media _ kind width height fmt rate data) =>
    if data.length > maxAttachmentPayload then
      (st.send x (errorEvent "backend-failed".toList (oversizeText data.length)), true)
    else
      let produced := st.produced + 1
      let next := { st with
        produced := produced
        usage := { st.usage with mediaBytes := st.usage.mediaBytes + UInt64.ofNat data.length } }
      let id := info.session ++ '-' :: Text.ofNat produced.toNat
      (next.send x (.media ⟨id, kind, width, height, fmt, rate, .ofNat data.length⟩),
        !(x.delivered && bytesTaken))
  | .ok (.done _ reported finishReason) =>
    let usage := { st.usage with mediaBytes := max st.usage.mediaBytes reported.mediaBytes }
    ({ st with usage := usage }.send x (.done true usage finishReason), true)
  | .ok (.error _ code message) => (st.send x (errorEvent code message), true)
  | .ok _ => (st, false)
  | .error reason => (st.send x (errorEvent "backend-failed".toList (stalled w reason)), true)

/-- What the turn's rounds read of the worker. -/
def Worker.turns (st : Worker F J) (stream : Bool) : TurnWorker R J :=
  { w with tools := st.tools, stream := stream }

/-- The events join what was sent before. -/
def Worker.collect (st : Worker F J) (events : List (Event F)) : Worker F J :=
  { st with sent := st.sent ++ events.map (Prod.mk st.proto), phase := .idle }

def workerStep (st : Worker F J) : Act F J → Option (Worker F J)
  | .request request env =>
    match st.phase with
    | .idle => some (dispatch w.isEscaped info st env request)
    | _ => none
  | .strayBlob delivered =>
    match st.phase with
    | .idle => some { st.send delivered (errorEvent "protocol".toList strayBlobText) with
        phase := .stopped }
    | _ => none
  | .unrecognised reason delivered =>
    match st.phase with
    | .idle => some (st.send delivered (errorEvent "protocol".toList (unrecognisedText reason)))
    | _ => none
  | .arrival x bytesTaken =>
    match st.phase with
    | .turning stream promptEstimate turn =>
      match turnArm (st.turns w stream) promptEstimate turn x with
      | (next, false) => some { st with phase := .turning stream promptEstimate next }
      | (next, true) => some { st.collect next.sent with
          meter := next.meter
          history := next.history
          pendingToolCalls := next.pendingToolCalls }
    | .pumping pump =>
      match pumpArm w pump x with
      | (next, false) => some { st with phase := .pumping next }
      | (next, true) => some { st.collect next.sent with meter := next.meter }
    | .imaging media =>
      match mediaArm w info media x bytesTaken with
      | (next, false) => some { st with phase := .imaging next }
      | (next, true) => some (st.collect next.sent)
    | _ => none
  | .leave =>
    match st.phase with
    | .idle => some { st with phase := .stopped }
    | _ => none

/-! ### Version 1 -/

/-- A client that speaks version 1 knows the event. -/
def isOld : Event F → Bool
  | .toolCalls _ | .media _ => false
  | .token _ logprobs => logprobs.isNone
  | .hello _ _ _ | .toolCall _ | .vectors _ | .tokens _ | .notice _ _ | .done _ _ _
  | .error _ => true

/-- The tool calls an event tells the client of. -/
def callsOf : Event F → List ToolCall
  | .toolCall call => [call]
  | .toolCalls calls => calls
  | .token _ _ | .media _ | .hello _ _ _ | .vectors _ | .tokens _ | .notice _ _ | .done _ _ _
  | .error _ => []

/-- What a request that is not finished has sent. -/
def Phase.sent : Phase F → List (Event F)
  | turning _ _ st => st.sent
  | pumping st => st.sent
  | imaging st => st.sent
  | idle | stopped => []

/-- The calls that wait for an answer. -/
def Worker.outstanding (st : Worker F J) : List Text :=
  match st.phase with
  | .turning _ _ turn => turn.pendingToolCalls
  | _ => st.pendingToolCalls

/-- Everything the worker has sent. -/
def Worker.frames (st : Worker F J) : List (UInt32 × Event F) :=
  st.sent ++ st.phase.sent.map (Prod.mk st.proto)

/-- What was sent to a client of version 1 it knows, and of the calls any one event told
    it of no two wait for their answers. -/
structure OldClient (st : Worker F J) : Prop where
  known : ∀ event, (1, event) ∈ st.frames → isOld event = true
  single : ∀ event, (1, event) ∈ st.frames →
    ((callsOf event).filter fun call => decide (call.id ∈ st.outstanding)).length ≤ 1

/-- The turn sends on what only version 2 has: several calls that it accepts, or the
    log probabilities of a token it streams. -/
def forwardsNew (turn : TurnWorker R J) (x : Arrival F) : Bool :=
  match x.outcome with
  | .ok (.toolCalls _ calls) => x.delivered && !refuses turn calls
  | .ok (.token _ _ (some _)) => x.delivered && turn.stream
  | _ => false

/-- Under version 1 no turn is sent such an event by the backend. -/
def KeepsToOld (st : Worker F J) : Act F J → Prop
  | .arrival x _ =>
    match st.phase with
    | .turning stream _ _ => st.proto = 1 → forwardsNew (st.turns w stream) x = false
    | _ => True
  | _ => True

/-! ### What each step sends -/

variable {w info} {st : Worker F J}

omit w info in
theorem isOld_errorEvent (code message : Text) : isOld (errorEvent code message : Event F) = true :=
  rfl

theorem callsOf_length {event : Event F} (h : isOld event = true) : (callsOf event).length ≤ 1 := by
  cases event <;> simp_all [isOld, callsOf]

/-- Nothing new is all that a client of version 1 asks for. -/
theorem oldClient_of_known (h : ∀ event, (1, event) ∈ st.frames → isOld event = true) :
    OldClient st where
  known := h
  single event hevent := (List.length_filter_le _ _).trans (callsOf_length (h event hevent))

theorem mem_frames_send {delivered : Bool} {event : Event F} {f : UInt32 × Event F}
    (h : f ∈ (st.send delivered event).frames) : f ∈ st.frames ∨ f = (st.proto, event) := by
  cases delivered with
  | false => exact .inl h
  | true =>
    simp only [Worker.send, Worker.frames, if_true, List.append_assoc, List.mem_append,
      List.mem_cons, List.not_mem_nil, or_false] at h ⊢
    rcases h with hsent | hnew | hphase
    · exact .inl (.inl hsent)
    · exact .inr hnew
    · exact .inl (.inr hphase)

/-- An event that version 1 has may always be sent. -/
theorem OldClient.send (h : OldClient st) (delivered : Bool) {event : Event F}
    (hold : isOld event = true) : OldClient (st.send delivered event) := by
  apply oldClient_of_known
  intro e he
  rcases mem_frames_send he with hbefore | hnew
  · exact h.known e hbefore
  · simp only [Prod.mk.injEq] at hnew
    exact hnew.2 ▸ hold

/-- Where nothing was sent since, whatever else has changed. -/
theorem OldClient.quiet {next : Worker F J} (h : OldClient st) (hsent : next.sent = st.sent)
    (hphase : next.phase.sent = []) : OldClient next := by
  apply oldClient_of_known
  intro event hevent
  apply h.known event
  simp only [Worker.frames, hsent, hphase, List.map_nil, List.append_nil] at hevent
  exact List.mem_append_left _ hevent

theorem OldClient.turn (h : OldClient st) (stream : Bool) (env : Env) :
    OldClient (st.turn stream env) := by
  unfold Worker.turn
  split
  · exact h.send _ rfl
  · exact h.quiet rfl rfl

theorem OldClient.answerTools (h : OldClient st) (hidle : st.phase = .idle)
    (isEscaped : Char → Bool) (results : List ToolResultItem) (env : Env) :
    OldClient (st.answerTools isEscaped results env) := by
  have htaken : ∀ pending history,
      OldClient { st with pendingToolCalls := pending, history := history } :=
    fun pending history => h.quiet rfl (by simp [hidle, Phase.sent])
  unfold Worker.answerTools
  split
  · exact h.send _ rfl
  · split
    · rename_i pending history id heq
      exact (htaken pending history).send _ rfl
    · rename_i pending history heq
      dsimp only
      split
      · exact (htaken pending history).turn true env
      · exact htaken pending history

theorem OldClient.dispatch (h : OldClient st) (hidle : st.phase = .idle) (isEscaped : Char → Bool)
    (info : SessionInfo) (env : Env) (request : Request F J) :
    OldClient (dispatch isEscaped info st env request) := by
  cases request with
  | hello proto =>
    simp only [Dispatch.dispatch, Worker.hello]
    generalize (if proto = 0 then dataProto else proto) = asked
    split
    · apply OldClient.send _ _ rfl
      exact h.quiet rfl (by simp [hidle, Phase.sent])
    · have hsent := h.send env.delivered (isOld_errorEvent "protocol".toList (versionText asked))
      exact hsent.quiet rfl rfl
  | attach id kind attachMeta len =>
    simp only [Dispatch.dispatch, Worker.attach]
    have hsent : ∀ body : Option ErrorBody, OldClient (match body with
        | some body => st.send env.delivered (.error body)
        | none => st) := by
      intro body
      cases body with
      | some body => exact h.send _ rfl
      | none => exact h
    split
    · exact h
    · split
      · exact (hsent _).quiet rfl rfl
      · exact hsent _
  | generate messages stream params grammar tools =>
    apply OldClient.turn
    exact h.quiet rfl (by simp [hidle, Phase.sent])
  | toolResult id content => exact h.answerTools hidle isEscaped _ env
  | toolResults results => exact h.answerTools hidle isEscaped _ env
  | generateMedia kind prompt params count =>
    simp only [Dispatch.dispatch, Worker.generateMedia]
    split
    · exact h.send _ rfl
    · split
      · exact h.send _ rfl
      · exact h.quiet rfl rfl
  | embed inputs =>
    simp only [Dispatch.dispatch, Worker.oneShot]
    split
    · exact h.send _ rfl
    · exact h.quiet rfl rfl
  | tokenize text =>
    simp only [Dispatch.dispatch, Worker.oneShot]
    split
    · exact h.send _ rfl
    · exact h.quiet rfl rfl
  | cancel => exact h

/-! ### What each event leads to -/

theorem mem_send {turn : TurnState F} {x : Arrival F} {event e : Event F}
    (h : e ∈ (turn.send x event).sent) : e ∈ turn.sent ∨ e = event := by
  unfold TurnState.send at h
  split at h
  · exact (List.mem_append.mp h).imp_right List.mem_singleton.mp
  · exact .inl h

theorem toolCallsArm_sends {turn : TurnState F} {x : Arrival F} {calls : List ToolCall}
    {event e : Event F} (h : e ∈ (toolCallsArm w turn x calls event).1.sent) :
    e ∈ turn.sent ∨ isOld e = true ∨
    (e = event ∧ x.delivered = true ∧ refuses w calls = false) := by
  unfold toolCallsArm at h
  split at h
  · rcases mem_send h with hbefore | rfl
    · exact .inl hbefore
    · exact .inr (.inl rfl)
  · rename_i haccept
    dsimp only at h
    unfold TurnState.send at h
    split at h
    · rename_i hdelivered
      rcases List.mem_append.mp h with hbefore | hnew
      · exact .inl hbefore
      · exact .inr (.inr ⟨List.mem_singleton.mp hnew, hdelivered, by simp [refuses, haccept]⟩)
    · exact .inl h

/-- A round adds what version 1 has, or forwards what it does not have. -/
theorem turnArm_sends {promptEstimate : UInt64} {turn : TurnState F} {x : Arrival F} {e : Event F}
    (h : e ∈ (turnArm w promptEstimate turn x).1.sent) :
    e ∈ turn.sent ∨ isOld e = true ∨ forwardsNew w x = true := by
  obtain ⟨outcome, now, delivered⟩ := x
  cases outcome with
  | error reason =>
    rcases mem_send h with hbefore | rfl
    · exact .inl hbefore
    · exact .inr (.inl rfl)
  | ok event =>
    cases event with
    | token reqId tok logprobs =>
      simp only [turnArm] at h
      split at h
      · rename_i hstream
        unfold TurnState.send at h
        split at h
        · rename_i hdelivered
          rcases List.mem_append.mp h with hbefore | hnew
          · exact .inl hbefore
          · rw [List.mem_singleton.mp hnew]
            cases logprobs with
            | none => exact .inr (.inl rfl)
            | some logprobs =>
              have hdelivered' : delivered = true := hdelivered
              exact .inr (.inr (by simp [forwardsNew, hstream, hdelivered']))
        · exact .inl h
      · exact .inl h
    | toolCall reqId call =>
      rcases toolCallsArm_sends h with hbefore | hold | ⟨rfl, -, -⟩
      · exact .inl hbefore
      · exact .inr (.inl hold)
      · exact .inr (.inl rfl)
    | toolCalls reqId calls =>
      rcases toolCallsArm_sends h with hbefore | hold | ⟨-, hdelivered, haccept⟩
      · exact .inl hbefore
      · exact .inr (.inl hold)
      · have hdelivered' : delivered = true := hdelivered
        exact .inr (.inr (by simp [forwardsNew, haccept, hdelivered']))
    | done reqId usage finishReason =>
      rcases mem_send h with hbefore | rfl
      · exact .inl hbefore
      · exact .inr (.inl rfl)
    | error reqId code message =>
      rcases mem_send h with hbefore | rfl
      · exact .inl hbefore
      · exact .inr (.inl rfl)
    | _ => exact .inl h

/-- What is forwarded is sent. -/
theorem turnArm_forwards {x : Arrival F} (h : forwardsNew w x = true) (promptEstimate : UInt64)
    (turn : TurnState F) :
    ∃ e ∈ (turnArm w promptEstimate turn x).1.sent, isOld e = false := by
  obtain ⟨outcome, now, delivered⟩ := x
  cases outcome with
  | error reason => cases h
  | ok event =>
    cases event with
    | token reqId tok logprobs =>
      cases logprobs with
      | none => cases h
      | some logprobs =>
        simp only [forwardsNew, Bool.and_eq_true] at h
        obtain ⟨rfl, hstream⟩ := h
        refine ⟨.token tok (some logprobs), ?_, rfl⟩
        simp [turnArm, hstream, TurnState.send]
    | toolCalls reqId calls =>
      simp only [forwardsNew, Bool.and_eq_true, Bool.not_eq_true'] at h
      obtain ⟨rfl, haccept⟩ := h
      refine ⟨.toolCalls calls, ?_, rfl⟩
      simp only [turnArm, toolCallsArm]
      simp only [refuses] at haccept
      split at haccept
      · cases haccept
      · rename_i heq
        simp [TurnState.send]
    | _ => cases h

theorem pumpArm_sends {pump : PumpState F} {x : Arrival F} {e : Event F}
    (h : e ∈ (pumpArm w pump x).1.sent) : e ∈ pump.sent ∨ isOld e = true := by
  have hsend : ∀ {pump : PumpState F} {event : Event F}, e ∈ (pump.send x event).sent →
      isOld event = true → e ∈ pump.sent ∨ isOld e = true := by
    intro pump event hmem hold
    unfold PumpState.send at hmem
    split at hmem
    · rcases List.mem_append.mp hmem with hbefore | hnew
      · exact .inl hbefore
      · exact .inr ((List.mem_singleton.mp hnew).symm ▸ hold)
    · exact .inl hmem
  obtain ⟨outcome, now, delivered⟩ := x
  cases outcome with
  | error reason => exact hsend h rfl
  | ok event =>
    cases event with
    | vectors reqId vectors => exact hsend h rfl
    | tokens reqId tokens => exact hsend h rfl
    | done reqId usage finishReason =>
      simp only [pumpArm] at h
      have hsent := hsend h rfl
      exact hsent
    | error reqId code message => exact hsend h rfl
    | _ => exact .inl h

/-! ### Over a run -/

/-- Media is made for clients of version 2 only. -/
def MediaForNew (st : Worker F J) : Prop :=
  ∀ media, st.phase = .imaging media → st.proto ≠ 1

theorem mediaForNew_of_idle (hidle : st.phase = .idle) : MediaForNew st := by
  intro media hmedia
  rw [hidle] at hmedia
  cases hmedia

theorem mediaForNew_send (h : MediaForNew st) (delivered : Bool) (event : Event F) :
    MediaForNew (st.send delivered event) := by
  unfold Worker.send
  split
  · exact h
  · exact h

theorem mediaForNew_turn (hidle : st.phase = .idle) (stream : Bool) (env : Env) :
    MediaForNew (st.turn stream env) := by
  unfold Worker.turn
  split
  · exact mediaForNew_send (mediaForNew_of_idle hidle) _ _
  · intro media hmedia
    cases hmedia

theorem mediaForNew_oneShot (hidle : st.phase = .idle) (env : Env) :
    MediaForNew (st.oneShot env) := by
  unfold Worker.oneShot
  split
  · exact mediaForNew_send (mediaForNew_of_idle hidle) _ _
  · intro media hmedia
    cases hmedia

theorem mediaForNew_answerTools (hidle : st.phase = .idle) (isEscaped : Char → Bool)
    (results : List ToolResultItem) (env : Env) :
    MediaForNew (st.answerTools isEscaped results env) := by
  unfold Worker.answerTools
  split
  · exact mediaForNew_send (mediaForNew_of_idle hidle) _ _
  · split
    · apply mediaForNew_send
      exact mediaForNew_of_idle hidle
    · dsimp only
      split
      · apply mediaForNew_turn
        exact hidle
      · exact mediaForNew_of_idle hidle

/-- The gate is in front of the only way to a media loop. -/
theorem mediaForNew_generateMedia (hidle : st.phase = .idle) (env : Env) :
    MediaForNew (st.generateMedia env) := by
  unfold Worker.generateMedia
  split
  · exact mediaForNew_send (mediaForNew_of_idle hidle) _ _
  · rename_i hproto
    split
    · exact mediaForNew_send (mediaForNew_of_idle hidle) _ _
    · intro media hmedia hone
      apply hproto
      rw [show st.proto = 1 from hone]
      decide

theorem mediaForNew_dispatch (hidle : st.phase = .idle) (isEscaped : Char → Bool)
    (info : SessionInfo) (env : Env) (request : Request F J) :
    MediaForNew (dispatch isEscaped info st env request) := by
  have hst : MediaForNew st := mediaForNew_of_idle hidle
  cases request with
  | hello proto =>
    simp only [dispatch, Worker.hello]
    generalize (if proto = 0 then dataProto else proto) = asked
    split
    · apply mediaForNew_send
      exact mediaForNew_of_idle hidle
    · intro media hmedia
      cases hmedia
  | attach id kind attachMeta len =>
    simp only [dispatch, Worker.attach]
    split
    · exact hst
    · split
      · intro media hmedia
        cases hmedia
      · split
        · exact mediaForNew_send hst _ _
        · exact hst
  | generate messages stream params grammar tools =>
    apply mediaForNew_turn
    exact hidle
  | toolResult id content => exact mediaForNew_answerTools hidle _ _ _
  | toolResults results => exact mediaForNew_answerTools hidle _ _ _
  | generateMedia kind prompt params count => exact mediaForNew_generateMedia hidle env
  | embed inputs => exact mediaForNew_oneShot hidle env
  | tokenize text => exact mediaForNew_oneShot hidle env
  | cancel => exact hst

theorem mediaForNew_step {next : Worker F J} {a : Act F J} (h : MediaForNew st)
    (hstep : workerStep w info st a = some next) : MediaForNew next := by
  cases a with
  | request request env =>
    simp only [workerStep] at hstep
    split at hstep <;> simp only [Option.some.injEq, reduceCtorEq] at hstep
    rename_i hidle
    rw [← hstep]
    exact mediaForNew_dispatch hidle w.isEscaped info env request
  | strayBlob delivered =>
    simp only [workerStep] at hstep
    split at hstep <;> simp only [Option.some.injEq, reduceCtorEq] at hstep
    subst hstep
    intro media hmedia
    cases hmedia
  | unrecognised reason delivered =>
    simp only [workerStep] at hstep
    split at hstep <;> simp only [Option.some.injEq, reduceCtorEq] at hstep
    exact hstep ▸ mediaForNew_send h _ _
  | arrival x bytesTaken =>
    simp only [workerStep] at hstep
    split at hstep
    case h_3 =>
      rename_i media hmedia
      split at hstep <;> simp only [Option.some.injEq] at hstep <;> subst hstep
      · exact fun _ _ => h media hmedia
      · intro media hmedia
        cases hmedia
    case h_4 => simp at hstep
    all_goals
      split at hstep <;> simp only [Option.some.injEq] at hstep <;> subst hstep
      all_goals
        intro media hmedia
        cases hmedia
  | leave =>
    simp only [workerStep] at hstep
    split at hstep <;> simp only [Option.some.injEq, reduceCtorEq] at hstep
    subst hstep
    intro media hmedia
    cases hmedia

theorem mem_collect {events : List (Event F)} {f : UInt32 × Event F}
    (h : f ∈ (st.collect events).frames) : f ∈ st.sent ∨ ∃ e ∈ events, f = (st.proto, e) := by
  simp only [Worker.collect, Worker.frames, Phase.sent, List.map_nil, List.append_nil,
    List.mem_append, List.mem_map] at h
  rcases h with hsent | ⟨e, he, rfl⟩
  · exact .inl hsent
  · exact .inr ⟨e, he, rfl⟩

/-- A round of any loop: what it has sent by then is from before it, or version 1 has
    it, or the client speaks another version. -/
theorem OldClient.round (h : OldClient st) {next : Worker F J} {events : List (Event F)}
    (hframes : ∀ f ∈ next.frames, f ∈ st.sent ∨ ∃ e ∈ events, f = (st.proto, e))
    (hevents : ∀ e ∈ events, e ∈ st.phase.sent ∨ (st.proto = 1 → isOld e = true)) :
    OldClient next := by
  apply oldClient_of_known
  intro event hevent
  rcases hframes _ hevent with hbefore | ⟨e, he, heq⟩
  · exact h.known event (List.mem_append_left _ hbefore)
  · simp only [Prod.mk.injEq] at heq
    obtain ⟨hproto, rfl⟩ := heq
    rcases hevents event he with hphase | hold
    · apply h.known event
      refine List.mem_append_right _ (List.mem_map.mpr ⟨event, hphase, ?_⟩)
      rw [← hproto]
    · exact hold hproto.symm

theorem mem_frames_phase {phase : Phase F} {f : UInt32 × Event F}
    (h : f ∈ ({ st with phase := phase } : Worker F J).frames) :
    f ∈ st.sent ∨ ∃ e ∈ phase.sent, f = (st.proto, e) := by
  simp only [Worker.frames, List.mem_append, List.mem_map] at h
  rcases h with hsent | ⟨e, he, rfl⟩
  · exact .inl hsent
  · exact .inr ⟨e, he, rfl⟩

/-- A round of a turn keeps a client of version 1 from what it does not know. -/
theorem OldClient.turnRound (h : OldClient st) {stream : Bool} {promptEstimate : UInt64}
    {turn : TurnState F} (hphase : st.phase = .turning stream promptEstimate turn) {x : Arrival F}
    {bytesTaken : Bool} (hkeeps : st.proto = 1 → forwardsNew (st.turns w stream) x = false)
    {next : Worker F J} (hstep : workerStep w info st (.arrival x bytesTaken) = some next) :
    OldClient next := by
  have hevents : ∀ e ∈ (turnArm (st.turns w stream) promptEstimate turn x).1.sent,
      e ∈ st.phase.sent ∨ (st.proto = 1 → isOld e = true) := by
    intro e he
    rcases turnArm_sends he with hbefore | hold | hforwards
    · rw [hphase]
      exact .inl hbefore
    · exact .inr fun _ => hold
    · refine .inr fun hone => ?_
      rw [hkeeps hone] at hforwards
      cases hforwards
  simp only [workerStep, hphase] at hstep
  split at hstep
  all_goals
    rename_i after hround
    rw [hround] at hevents
    simp only [Option.some.injEq] at hstep
    subst hstep
  · exact h.round (fun f hf => mem_frames_phase hf) hevents
  · exact h.round (fun f hf => mem_collect hf) hevents

/-- What a round of a turn forwards is among what was sent. -/
theorem forwarded_frames {stream : Bool} {promptEstimate : UInt64} {turn : TurnState F}
    (hphase : st.phase = .turning stream promptEstimate turn) {x : Arrival F} (bytesTaken : Bool)
    (hforwards : forwardsNew (st.turns w stream) x = true) :
    ∃ next, workerStep w info st (.arrival x bytesTaken) = some next ∧
      ∃ e, (st.proto, e) ∈ next.frames ∧ isOld e = false := by
  obtain ⟨e, he, hnew⟩ := turnArm_forwards hforwards promptEstimate turn
  simp only [workerStep, hphase]
  rcases hround : turnArm (st.turns w stream) promptEstimate turn x with ⟨after, last⟩
  rw [hround] at he
  cases last with
  | false =>
    refine ⟨_, rfl, e, ?_, hnew⟩
    exact List.mem_append_right _ (List.mem_map.mpr ⟨e, he, rfl⟩)
  | true =>
    refine ⟨_, rfl, e, ?_, hnew⟩
    refine List.mem_append_left _ (List.mem_append_right _ (List.mem_map.mpr ⟨e, he, rfl⟩))

/-- A step keeps a client of version 1 from what it does not know exactly when no turn
    is to forward it. -/
theorem workerStep_old_iff (hmedia : MediaForNew st) (hold : OldClient st) (a : Act F J) :
    Keeps (workerStep w info) OldClient st a ↔ KeepsToOld w st a := by
  cases a with
  | request request env =>
    refine iff_of_true ?_ trivial
    intro next hstep
    simp only [workerStep] at hstep
    split at hstep <;> simp only [Option.some.injEq, reduceCtorEq] at hstep
    rename_i hidle
    rw [← hstep]
    exact hold.dispatch hidle w.isEscaped info env request
  | strayBlob delivered =>
    refine iff_of_true ?_ trivial
    intro next hstep
    simp only [workerStep] at hstep
    split at hstep <;> simp only [Option.some.injEq, reduceCtorEq] at hstep
    subst hstep
    have hsent := hold.send delivered (isOld_errorEvent "protocol".toList strayBlobText)
    exact hsent.quiet rfl rfl
  | unrecognised reason delivered =>
    refine iff_of_true ?_ trivial
    intro next hstep
    simp only [workerStep] at hstep
    split at hstep <;> simp only [Option.some.injEq, reduceCtorEq] at hstep
    rw [← hstep]
    exact hold.send delivered rfl
  | arrival x bytesTaken =>
    cases hphase : st.phase with
    | turning stream promptEstimate turn =>
      simp only [KeepsToOld, hphase]
      constructor
      · intro hkeeps hone
        by_contra hforwards
        rw [Bool.not_eq_false] at hforwards
        obtain ⟨next, hstep, e, he, hnew⟩ := forwarded_frames hphase bytesTaken hforwards
        rw [hone] at he
        have hknown := (hkeeps next hstep).known e he
        rw [hnew] at hknown
        cases hknown
      · intro hkeeps next hstep
        exact hold.turnRound hphase hkeeps hstep
    | pumping pump =>
      refine iff_of_true ?_ (by simp [KeepsToOld, hphase])
      intro next hstep
      have hevents : ∀ e ∈ (pumpArm w pump x).1.sent,
          e ∈ st.phase.sent ∨ (st.proto = 1 → isOld e = true) := by
        intro e he
        rw [hphase]
        exact (pumpArm_sends he).imp_right fun h _ => h
      simp only [workerStep, hphase] at hstep
      split at hstep
      all_goals
        rename_i after hround
        rw [hround] at hevents
        simp only [Option.some.injEq] at hstep
        subst hstep
      · exact hold.round (fun f hf => mem_frames_phase hf) hevents
      · exact hold.round (fun f hf => mem_collect hf) hevents
    | imaging media =>
      refine iff_of_true ?_ (by simp [KeepsToOld, hphase])
      intro next hstep
      have hproto : st.proto ≠ 1 := hmedia media hphase
      simp only [workerStep, hphase] at hstep
      split at hstep <;> simp only [Option.some.injEq] at hstep <;> subst hstep
      · exact hold.round (fun f hf => mem_frames_phase hf) fun e he =>
          .inr fun hone => absurd hone hproto
      · exact hold.round (fun f hf => mem_collect hf) fun e he =>
          .inr fun hone => absurd hone hproto
    | idle =>
      refine iff_of_true ?_ (by simp [KeepsToOld, hphase])
      intro next hstep
      simp [workerStep, hphase] at hstep
    | stopped =>
      refine iff_of_true ?_ (by simp [KeepsToOld, hphase])
      intro next hstep
      simp [workerStep, hphase] at hstep
  | leave =>
    refine iff_of_true ?_ trivial
    intro next hstep
    simp only [workerStep] at hstep
    split at hstep <;> simp only [Option.some.injEq, reduceCtorEq] at hstep
    subst hstep
    exact hold.quiet rfl rfl

theorem oldClient_new (meter : Meter) : OldClient (Worker.new meter : Worker F J) := by
  apply oldClient_of_known
  simp [Worker.frames, Worker.new, Phase.sent]

/-- Over a session, no client of version 1 is ever sent what version 2 added exactly
    when no backend sends its turns several calls that they accept, or log
    probabilities with a token that they stream. -/
theorem old_clients_iff (w : TurnWorker R J) (info : SessionInfo) (meter : Meter)
    (as : List (Act F J)) :
    along (workerStep w info) (Keeps (workerStep w info) OldClient) (.new meter) as ↔
      along (workerStep w info) (KeepsToOld w) (.new meter) as := by
  have hnew : MediaForNew (Worker.new meter : Worker F J) := mediaForNew_of_idle rfl
  exact along_keeps_iff_of_invariant (workerStep w info)
    (fun _ _ _ hmedia hstep => mediaForNew_step hmedia hstep)
    (fun _ a hmedia hold => workerStep_old_iff hmedia hold a) as hnew (oldClient_new meter)

end Loops

/-- A client of version 1 offers two tools and is sent two calls in one event. -/
theorem old_client_sent_two_calls :
    ¬ ∀ (w : TurnWorker ℚ Nat) (info : SessionInfo) (meter : Meter) (as : List (Act Nat Nat)),
      along (workerStep w info) (Keeps (workerStep w info) OldClient) (.new meter) as := by
  intro hall
  have halong := hall { hosted with isJson := fun _ => true } ⟨[], [], [], true, [], 512⟩ ⟨∅, ∅⟩
    [.request (.hello 1) ⟨true, .ok ⟨0, 0⟩, .ok ()⟩,
      .request (.generate [] true none none (some [⟨"f".toList, [], 0⟩]))
        ⟨true, .ok ⟨0, 0⟩, .ok ()⟩,
      .arrival ⟨.ok (.toolCalls 1 [⟨"a".toList, "f".toList, "0".toList⟩,
        ⟨"b".toList, "f".toList, "0".toList⟩]), 0, true⟩ true]
  have hold := halong.2.2.1 _ rfl
  have hknown := hold.known _ (List.mem_append_right _ List.mem_cons_self)
  cases hknown

end AiDaemon.Dispatch
