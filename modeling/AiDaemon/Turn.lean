import AiDaemon.Proto
import AiDaemon.Spend

/-!
# Waiting for a backend (`session.rs`: `turn`'s event loop, `pump_simple`)

Once a request is begun the worker takes events off its channel until one of them
ends it.  For a generation that is the backend's `done` or its error, silence,
the channel closing, a client that no longer reads, or a tool call the client did
not offer.  Embedding and tokenizing share a smaller loop.

Only `done` is charged for.  A generation that ends in any other way is free,
whatever it produced, and a tokenize request costs what the backend says it used
(`ledger_complete_iff`).
-/

namespace AiDaemon.Turn

open Ledger Policy Proto Spend

/-! ### Draining a channel -/

section Drain

variable {σ α : Type}

/-- Handle what arrives until a handler says that it was the last; `none` while
    none has. -/
def drain (arm : σ → α → σ × Bool) : σ → List α → Option σ
  | _, [] => none
  | s, x :: xs => if (arm s x).2 then some (arm s x).1 else drain arm (arm s x).1 xs

/-- Where what ends the loop does not depend on the state, everything before the
    first that ends it is handled, and that one. -/
theorem drain_eq {arm : σ → α → σ × Bool} {ends : α → Bool} (hends : ∀ s x, (arm s x).2 = ends x)
    (s : σ) {xs : List α} {last : α} (hlast : xs.find? ends = some last) :
    drain arm s xs =
      some (arm ((xs.takeWhile fun x => !ends x).foldl (fun s x => (arm s x).1) s) last).1 := by
  induction xs generalizing s with
  | nil => simp at hlast
  | cons x xs ih =>
    simp only [drain, hends]
    cases hx : ends x with
    | true =>
      rw [List.find?_cons_of_pos hx, Option.some.injEq] at hlast
      subst hlast
      simp [hx]
    | false =>
      rw [List.find?_cons_of_neg (by simp [hx])] at hlast
      simp [hx, ih _ hlast]

/-- What was drained before the end goes on. -/
theorem not_ends_of_mem_takeWhile {ends : α → Bool} {arrivals : List α} {x : α}
    (h : x ∈ arrivals.takeWhile fun x => !ends x) : ends x = false := by
  have hgoes := List.mem_takeWhile_imp h
  rwa [Bool.not_eq_true'] at hgoes

end Drain

/-! ### The source -/

inductive RecvTimeoutError where
  | timeout
  | disconnected
deriving DecidableEq, Repr

/-- What one wait brings, when, and whether the client still takes what is sent
    on account of it. -/
structure Arrival (F : Type) where
  outcome : Except RecvTimeoutError (BackendEvent F)
  now : ℚ
  delivered : Bool

/-- What the loops read of a worker. `isJson` is the parser's verdict on a text
    and `isEscaped` the characters that `Debug` shows by number. -/
structure TurnWorker (R J : Type) where
  f64 : F64 R
  prices : List (ModelPrice R)
  account : Account
  /-- The session's backend, by name. -/
  backend : Text
  tools : Option (List (ToolSchema J))
  stream : Bool
  backendSilenceSeconds : UInt64
  isJson : Text → Bool
  isEscaped : Char → Bool

/-- `Debug` of one character in a string. -/
def escapeDebug (isEscaped : Char → Bool) (c : Char) : Text :=
  if c = '\x00' then ['\\', '0']
  else if c = '\t' then ['\\', 't']
  else if c = '\r' then ['\\', 'r']
  else if c = '\n' then ['\\', 'n']
  else if c = '\\' ∨ c = '"' then ['\\', c]
  else if isEscaped c then "\\u\x7b".toList ++ Nat.toDigits 16 c.toNat ++ "\x7d".toList
  else [c]

/-- `Debug` of a string. -/
def quoted (isEscaped : Char → Bool) (s : Text) : Text :=
  '"' :: s.flatMap (escapeDebug isEscaped) ++ ['"']

section Worker

variable {R J F : Type} (w : TurnWorker R J)

def noToolsText : Text :=
  "backend ".toList ++ w.backend ++ " sent a tool call for a turn that offered no tools".toList

def notOfferedText (call : ToolCall) : Text :=
  "backend ".toList ++ w.backend ++ " called ".toList ++ quoted w.isEscaped call.name ++
    ", which this turn did not offer".toList

def notJsonText (call : ToolCall) : Text :=
  "backend ".toList ++ w.backend ++ " sent arguments for ".toList ++
    quoted w.isEscaped call.name ++ " that are not JSON".toList

/-- The loop of `calls_are_ones_we_offered`. -/
def checkCalls (offered : List (ToolSchema J)) : List ToolCall → Except Text Unit
  | [] => .ok ()
  | call :: calls =>
    if !offered.any (fun tool => tool.name = call.name) then .error (notOfferedText w call)
    else if !w.isJson call.arguments then .error (notJsonText w call)
    else checkCalls offered calls

def callsAreOnesWeOffered (calls : List ToolCall) : Except Text Unit :=
  match w.tools with
  | none => .error (noToolsText w)
  | some offered => checkCalls w offered calls

/-- `Worker::backend_silence`, in seconds. -/
def backendSilence : UInt64 := if w.backendSilenceSeconds = 0 then 900 else w.backendSilenceSeconds

def stalled : RecvTimeoutError → Text
  | .timeout =>
    "backend ".toList ++ w.backend ++ " went silent for ".toList ++
      Text.ofNat (backendSilence w).toNat ++ "s without finishing the request".toList
  | .disconnected => "backend ".toList ++ w.backend ++ " stopped answering".toList

def errorEvent (code message : Text) : Event F := .error ⟨code, message⟩

/-- What the loop keeps: the ledgers, the conversation, and what the client was
    sent. -/
structure TurnState (F : Type) where
  meter : Meter
  history : List Message
  pendingToolCalls : List Text
  usage : Usage
  emittedToolCall : Bool
  sent : List (Event F)

/-- `Worker::send`: a client that is gone is not an error. -/
def TurnState.send (st : TurnState F) (x : Arrival F) (event : Event F) : TurnState F :=
  if x.delivered then { st with sent := st.sent ++ [event] } else st

/-- How a call stands in the history. -/
def toolCallMessage (call : ToolCall) : Message where
  role := "assistant".toList
  content := "\x7b\"tool_call\":\x7b\"id\":\"".toList ++ call.id ++ "\",\"name\":\"".toList ++
    call.name ++ "\",\"arguments\":".toList ++ call.arguments ++ "\x7d\x7d".toList
  attachments := []
  toolCallId := some call.id

/-- The two arms for tool calls, which differ in what the client is sent. -/
def toolCallsArm (st : TurnState F) (x : Arrival F) (calls : List ToolCall) (event : Event F) :
    TurnState F × Bool :=
  match callsAreOnesWeOffered w calls with
  | .error e => (st.send x (errorEvent "backend-failed".toList e), true)
  | .ok () =>
    let next := { st with
      history := st.history ++ calls.map toolCallMessage
      pendingToolCalls := st.pendingToolCalls ++ calls.map ToolCall.id
      emittedToolCall := true }
    (next.send x event, false)

/-- One round of `turn`'s loop, and whether it was the last. -/
def turnArm (promptEstimate : UInt64) (st : TurnState F) (x : Arrival F) : TurnState F × Bool :=
  match x.outcome with
  | .ok (.token _ tok logprobs) =>
    let next := { st with
      usage := { st.usage with completionTokens := st.usage.completionTokens + 1 } }
    if w.stream then (next.send x (.token tok logprobs), !x.delivered) else (next, false)
  | .ok (.toolCalls _ calls) => toolCallsArm w st x calls (.toolCalls calls)
  | .ok (.toolCall _ call) => toolCallsArm w st x [call] (.toolCall call)
  | .ok (.done _ reported finishReason) =>
    let usage := { st.usage with
      promptTokens := max reported.promptTokens promptEstimate
      completionTokens := max reported.completionTokens st.usage.completionTokens }
    let meter := chargeFor w.f64 w.prices w.account st.meter x.now usage.promptTokens
      usage.completionTokens
    let reason := finishReason.or (if st.emittedToolCall then some "tool_call".toList else none)
    (({ st with usage := usage, meter := meter }).send x (.done true usage reason), true)
  | .ok (.error _ code message) => (st.send x (errorEvent code message), true)
  | .ok (.hello _ _) | .ok (.loaded _ _ _) | .ok (.unloaded _) | .ok (.media _ _ _ _ _ _ _)
  | .ok (.vectors _ _) | .ok (.tokens _ _) => (st, false)
  | .error reason => (st.send x (errorEvent "backend-failed".toList (stalled w reason)), true)

/-- `turn`'s loop from `begin` to its end. -/
def turnLoop (promptEstimate attachmentTokens : UInt64) (meter : Meter) (history : List Message)
    (pendingToolCalls : List Text) (arrivals : List (Arrival F)) : Option (TurnState F) :=
  drain (turnArm w promptEstimate)
    { meter := meter
      history := history
      pendingToolCalls := pendingToolCalls
      usage := { Usage.default with attachmentTokens := attachmentTokens }
      emittedToolCall := false
      sent := [] }
    arrivals

structure PumpState (F : Type) where
  meter : Meter
  sent : List (Event F)

def PumpState.send (st : PumpState F) (x : Arrival F) (event : Event F) : PumpState F :=
  if x.delivered then { st with sent := st.sent ++ [event] } else st

def pumpArm (st : PumpState F) (x : Arrival F) : PumpState F × Bool :=
  match x.outcome with
  | .ok (.vectors _ vectors) => (st.send x (.vectors vectors), false)
  | .ok (.tokens _ tokens) => (st.send x (.tokens tokens), false)
  | .ok (.done _ usage finishReason) =>
    let meter := chargeFor w.f64 w.prices w.account st.meter x.now usage.promptTokens
      usage.completionTokens
    (({ st with meter := meter }).send x (.done true usage finishReason), true)
  | .ok (.error _ code message) => (st.send x (errorEvent code message), true)
  | .ok (.hello _ _) | .ok (.loaded _ _ _) | .ok (.unloaded _) | .ok (.media _ _ _ _ _ _ _)
  | .ok (.token _ _ _) | .ok (.toolCall _ _) | .ok (.toolCalls _ _) => (st, false)
  | .error reason => (st.send x (errorEvent "backend-failed".toList (stalled w reason)), true)

/-- What `embed` and `tokenize` do once their request is begun. -/
def pumpSimple (meter : Meter) (arrivals : List (Arrival F)) : Option (PumpState F) :=
  drain (pumpArm w) ⟨meter, []⟩ arrivals

/-! ### What ends a loop -/

/-- The tool calls are refused. -/
def refuses (calls : List ToolCall) : Bool :=
  match callsAreOnesWeOffered w calls with
  | .error _ => true
  | .ok () => false

/-- The arrival ends a turn. -/
def endsTurn (x : Arrival F) : Bool :=
  match x.outcome with
  | .ok (.token _ _ _) => w.stream && !x.delivered
  | .ok (.toolCalls _ calls) => refuses w calls
  | .ok (.toolCall _ call) => refuses w [call]
  | .ok (.done _ _ _) | .ok (.error _ _ _) | .error _ => true
  | _ => false

/-- The arrival ends an embedding or a tokenize request. -/
def endsPump (x : Arrival F) : Bool :=
  match x.outcome with
  | .ok (.done _ _ _) | .ok (.error _ _ _) | .error _ => true
  | _ => false

def Arrival.isToken (x : Arrival F) : Bool :=
  match x.outcome with
  | .ok (.token _ _ _) => true
  | _ => false

/-- The usage the arrival reports, where it is the backend's `done`. -/
def Arrival.reported (x : Arrival F) : Option Usage :=
  match x.outcome with
  | .ok (.done _ usage _) => some usage
  | _ => none

theorem toolCallsArm_ends (st : TurnState F) (x : Arrival F) (calls : List ToolCall)
    (event : Event F) : (toolCallsArm w st x calls event).2 = refuses w calls := by
  unfold toolCallsArm refuses
  split <;> rfl

theorem turnArm_ends (promptEstimate : UInt64) (st : TurnState F) (x : Arrival F) :
    (turnArm w promptEstimate st x).2 = endsTurn w x := by
  obtain ⟨outcome, now, delivered⟩ := x
  cases outcome with
  | error reason => rfl
  | ok event =>
    cases event with
    | token reqId tok logprobs =>
      simp only [turnArm, endsTurn]
      cases w.stream <;> rfl
    | toolCall reqId call => exact toolCallsArm_ends w st _ _ _
    | toolCalls reqId calls => exact toolCallsArm_ends w st _ _ _
    | _ => rfl

theorem pumpArm_ends (st : PumpState F) (x : Arrival F) : (pumpArm w st x).2 = endsPump x := by
  obtain ⟨outcome, now, delivered⟩ := x
  cases outcome with
  | error reason => rfl
  | ok event => cases event <;> rfl

/-! ### What a loop charges -/

@[simp] theorem send_meter (st : TurnState F) (x : Arrival F) (event : Event F) :
    (st.send x event).meter = st.meter := by
  unfold TurnState.send
  split <;> rfl

@[simp] theorem send_usage (st : TurnState F) (x : Arrival F) (event : Event F) :
    (st.send x event).usage = st.usage := by
  unfold TurnState.send
  split <;> rfl

@[simp] theorem pump_send_meter (st : PumpState F) (x : Arrival F) (event : Event F) :
    (st.send x event).meter = st.meter := by
  unfold PumpState.send
  split <;> rfl

theorem toolCallsArm_counts (st : TurnState F) (x : Arrival F) (calls : List ToolCall)
    (event : Event F) :
    (toolCallsArm w st x calls event).1.meter = st.meter ∧
      (toolCallsArm w st x calls event).1.usage = st.usage := by
  unfold toolCallsArm
  split <;> simp

/-- Whatever is not `done` charges nothing, and a token is counted. -/
theorem turnArm_counts (promptEstimate : UInt64) (st : TurnState F) {x : Arrival F}
    (hsilent : x.reported = none) :
    (turnArm w promptEstimate st x).1.meter = st.meter ∧
      (turnArm w promptEstimate st x).1.usage =
        { st.usage with completionTokens :=
            st.usage.completionTokens + if x.isToken then 1 else 0 } := by
  obtain ⟨outcome, now, delivered⟩ := x
  cases outcome with
  | error reason => simp [turnArm, Arrival.isToken]
  | ok event =>
    cases event with
    | token reqId tok logprobs =>
      simp only [turnArm, Arrival.isToken]
      cases w.stream <;> simp
    | toolCall reqId call =>
      obtain ⟨hmeter, husage⟩ := toolCallsArm_counts w st
        ⟨.ok (.toolCall reqId call), now, delivered⟩ [call] (.toolCall call)
      simp [turnArm, Arrival.isToken, hmeter, husage]
    | toolCalls reqId calls =>
      obtain ⟨hmeter, husage⟩ := toolCallsArm_counts w st
        ⟨.ok (.toolCalls reqId calls), now, delivered⟩ calls (.toolCalls calls)
      simp [turnArm, Arrival.isToken, hmeter, husage]
    | done reqId usage finishReason => simp [Arrival.reported] at hsilent
    | _ => simp [turnArm, Arrival.isToken]

/-- An arrival that does not end the turn reports nothing. -/
theorem reported_of_not_endsTurn {x : Arrival F} (h : endsTurn w x = false) :
    x.reported = none := by
  obtain ⟨outcome, now, delivered⟩ := x
  cases outcome with
  | error reason => rfl
  | ok event =>
    cases event with
    | done reqId usage finishReason => simp [endsTurn] at h
    | _ => rfl

/-- The state in front of the arrival that ends the turn: nothing is charged yet
    and every token is counted. -/
theorem foldl_turnArm (promptEstimate : UInt64) (st : TurnState F) {arrivals : List (Arrival F)}
    (hgoing : ∀ x ∈ arrivals, endsTurn w x = false) :
    (arrivals.foldl (fun s x => (turnArm w promptEstimate s x).1) st).meter = st.meter ∧
      (arrivals.foldl (fun s x => (turnArm w promptEstimate s x).1) st).usage =
        { st.usage with completionTokens :=
            st.usage.completionTokens + .ofNat (arrivals.countP Arrival.isToken) } := by
  induction arrivals generalizing st with
  | nil => simp
  | cons x rest ih =>
    have hsilent := reported_of_not_endsTurn w (hgoing x List.mem_cons_self)
    obtain ⟨hmeter, husage⟩ := turnArm_counts w promptEstimate st hsilent
    obtain ⟨hmeter', husage'⟩ := ih (turnArm w promptEstimate st x).1
      (fun y hy => hgoing y (List.mem_cons_of_mem _ hy))
    rw [List.foldl_cons, hmeter', husage', hmeter, husage, List.countP_cons]
    refine ⟨rfl, ?_⟩
    cases x.isToken with
    | true => simp [UInt64.ofNat_add, UInt64.add_assoc, UInt64.add_comm]
    | false => simp

/-- What arrived, up to and with the arrival that ended the turn. -/
def received (arrivals : List (Arrival F)) (last : Arrival F) : List (Arrival F) :=
  arrivals.takeWhile (fun x => !endsTurn w x) ++ [last]

/-- What a turn costs: the prompt and the output as the backend reports them, but
    never less than the estimate and than the tokens that were received. -/
def turnPrice (promptEstimate : UInt64) (arrivals : List (Arrival F)) (last : Arrival F) : UInt64 :=
  let tokens := UInt64.ofNat ((received w arrivals last).countP Arrival.isToken)
  match last.reported with
  | some usage =>
    priceOf w.f64 w.prices w.account.model (max usage.promptTokens promptEstimate)
      (max usage.completionTokens tokens)
  | none => priceOf w.f64 w.prices w.account.model promptEstimate tokens

/-- What the backend reports, priced. -/
def reportedPrice (last : Arrival F) : UInt64 :=
  match last.reported with
  | some usage =>
    priceOf w.f64 w.prices w.account.model usage.promptTokens usage.completionTokens
  | none => 0

/-- What the worker's identity has spent, at a moment. -/
def spent (meter : Meter) (now : ℚ) : Nat := spentAt meter.spend w.account.identity.key now

theorem outcome_of_reported {x : Arrival F} {usage : Usage} (h : x.reported = some usage) :
    ∃ reqId finishReason, x.outcome = .ok (.done reqId usage finishReason) := by
  obtain ⟨outcome, now, delivered⟩ := x
  cases outcome with
  | error reason => simp [Arrival.reported] at h
  | ok event =>
    cases event with
    | done reqId reported finishReason =>
      simp only [Arrival.reported, Option.some.injEq] at h
      subst h
      exact ⟨reqId, finishReason, rfl⟩
    | _ => simp [Arrival.reported] at h

/-- What a turn that gets as far as `done` is charged for. -/
theorem turnLoop_done (promptEstimate attachmentTokens : UInt64) (meter : Meter)
    (history : List Message) (pendingToolCalls : List Text) (arrivals : List (Arrival F))
    {last : Arrival F} (hlast : arrivals.find? (endsTurn w) = some last) {usage : Usage}
    (hreported : last.reported = some usage) :
    ∃ st, turnLoop w promptEstimate attachmentTokens meter history pendingToolCalls arrivals =
        some st ∧
      st.usage.promptTokens = max usage.promptTokens promptEstimate ∧
      st.usage.completionTokens = max usage.completionTokens
        (.ofNat ((received w arrivals last).countP Arrival.isToken)) ∧
      st.meter = chargeFor w.f64 w.prices w.account meter last.now st.usage.promptTokens
        st.usage.completionTokens := by
  have hgoing : ∀ x ∈ arrivals.takeWhile (fun x => !endsTurn w x), endsTurn w x = false :=
    fun x => not_ends_of_mem_takeWhile
  refine ⟨_, drain_eq (turnArm_ends w promptEstimate) _ hlast, ?_⟩
  generalize hstart : TurnState.mk meter history pendingToolCalls _ false [] = start
  obtain ⟨hmeter, husage⟩ := foldl_turnArm w promptEstimate start hgoing
  generalize (arrivals.takeWhile fun x => !endsTurn w x).foldl
    (fun s x => (turnArm w promptEstimate s x).1) start = before at hmeter husage
  have hnothing : start.meter = meter ∧ start.usage.completionTokens = 0 := by
    rw [← hstart]
    exact ⟨rfl, rfl⟩
  obtain ⟨reqId, finishReason, hdone⟩ := outcome_of_reported hreported
  have hnotToken : last.isToken = false := by
    simp [Arrival.isToken, hdone]
  have htokens : before.usage.completionTokens =
      .ofNat ((received w arrivals last).countP Arrival.isToken) := by
    rw [husage, hnothing.2, received, List.countP_append, List.countP_singleton, hnotToken]
    simp
  simp only [turnArm, hdone, send_meter, send_usage, htokens, hmeter, hnothing.1, and_self]

/-- A turn that ends in any other way is charged for nothing. -/
theorem turnLoop_unpriced (promptEstimate attachmentTokens : UInt64) (meter : Meter)
    (history : List Message) (pendingToolCalls : List Text) (arrivals : List (Arrival F))
    {last : Arrival F} (hlast : arrivals.find? (endsTurn w) = some last)
    (hreported : last.reported = none) :
    ∃ st, turnLoop w promptEstimate attachmentTokens meter history pendingToolCalls arrivals =
        some st ∧ st.meter = meter := by
  have hgoing : ∀ x ∈ arrivals.takeWhile (fun x => !endsTurn w x), endsTurn w x = false :=
    fun x => not_ends_of_mem_takeWhile
  refine ⟨_, drain_eq (turnArm_ends w promptEstimate) _ hlast, ?_⟩
  rw [(turnArm_counts w promptEstimate _ hreported).1, (foldl_turnArm w promptEstimate _ hgoing).1]

theorem turnLoop_spent (promptEstimate attachmentTokens : UInt64) (meter : Meter)
    (history : List Message) (pendingToolCalls : List Text) (arrivals : List (Arrival F))
    {last : Arrival F} (hlast : arrivals.find? (endsTurn w) = some last) :
    ∃ st, turnLoop w promptEstimate attachmentTokens meter history pendingToolCalls arrivals =
        some st ∧
      spent w st.meter last.now = spent w meter last.now +
        if last.reported.isSome then (turnPrice w promptEstimate arrivals last).toNat else 0 := by
  cases hreported : last.reported with
  | none =>
    obtain ⟨st, hrun, hmeter⟩ := turnLoop_unpriced w promptEstimate attachmentTokens meter history
      pendingToolCalls arrivals hlast hreported
    exact ⟨st, hrun, by simp [hmeter]⟩
  | some usage =>
    obtain ⟨st, hrun, hprompt, hcompletion, hmeter⟩ := turnLoop_done w promptEstimate
      attachmentTokens meter history pendingToolCalls arrivals hlast hreported
    refine ⟨st, hrun, ?_⟩
    rw [hmeter, hprompt, hcompletion]
    simp only [spent, chargeFor_spentAt, turnPrice, hreported, Option.isSome_some, if_true]

theorem pumpArm_meter (st : PumpState F) {x : Arrival F} (hsilent : x.reported = none) :
    (pumpArm w st x).1.meter = st.meter := by
  obtain ⟨outcome, now, delivered⟩ := x
  cases outcome with
  | error reason => simp [pumpArm]
  | ok event =>
    cases event with
    | done reqId usage finishReason => simp [Arrival.reported] at hsilent
    | _ => simp [pumpArm]

theorem foldl_pumpArm (st : PumpState F) {arrivals : List (Arrival F)}
    (hgoing : ∀ x ∈ arrivals, endsPump x = false) :
    (arrivals.foldl (fun s x => (pumpArm w s x).1) st).meter = st.meter := by
  induction arrivals generalizing st with
  | nil => rfl
  | cons x rest ih =>
    have hsilent : x.reported = none := by
      cases hreported : x.reported with
      | none => rfl
      | some usage =>
        obtain ⟨reqId, finishReason, hdone⟩ := outcome_of_reported hreported
        have hends := hgoing x List.mem_cons_self
        simp [endsPump, hdone] at hends
    rw [List.foldl_cons, ih _ (fun y hy => hgoing y (List.mem_cons_of_mem _ hy)),
      pumpArm_meter w st hsilent]

/-- What a request that the small loop waits for is charged for. -/
theorem pumpSimple_meter (meter : Meter) {arrivals : List (Arrival F)} {last : Arrival F}
    (hlast : arrivals.find? endsPump = some last) :
    ∃ st, pumpSimple w meter arrivals = some st ∧
      st.meter = last.reported.elim meter fun usage =>
        chargeFor w.f64 w.prices w.account meter last.now usage.promptTokens
          usage.completionTokens := by
  have hgoing : ∀ x ∈ arrivals.takeWhile (fun x => !endsPump x), endsPump x = false :=
    fun x => not_ends_of_mem_takeWhile
  refine ⟨_, drain_eq (pumpArm_ends w) _ hlast, ?_⟩
  have hmeter := foldl_pumpArm w ⟨meter, []⟩ hgoing
  generalize (arrivals.takeWhile fun x => !endsPump x).foldl
    (fun s x => (pumpArm w s x).1) ⟨meter, []⟩ = before at hmeter
  cases hreported : last.reported with
  | none =>
    rw [pumpArm_meter w before hreported, hmeter]
    rfl
  | some usage =>
    obtain ⟨reqId, finishReason, hdone⟩ := outcome_of_reported hreported
    simp only [pumpArm, hdone, pump_send_meter, hmeter, Option.elim_some]

theorem pumpSimple_spent (meter : Meter) {arrivals : List (Arrival F)} {last : Arrival F}
    (hlast : arrivals.find? endsPump = some last) :
    ∃ st, pumpSimple w meter arrivals = some st ∧
      spent w st.meter last.now = spent w meter last.now + (reportedPrice w last).toNat := by
  obtain ⟨st, hrun, hmeter⟩ := pumpSimple_meter w meter hlast
  refine ⟨st, hrun, ?_⟩
  rw [hmeter]
  cases hreported : last.reported with
  | none => simp [reportedPrice, hreported]
  | some usage =>
    simp only [Option.elim_some, spent, chargeFor_spentAt, reportedPrice, hreported, if_true]

end Worker

/-- However a generation ends, the ledger grows by its price exactly when the
    backend said it was done or it cost nothing. An embedding adds what the backend
    reports; a tokenize request adds nothing exactly when that is free. -/
theorem ledger_complete_iff {R J F : Type} (w : TurnWorker R J) (meter : Meter)
    (arrivals : List (Arrival F)) (last : Arrival F) :
    (arrivals.find? (endsTurn w) = some last →
      ∀ (promptEstimate attachmentTokens : UInt64) (history : List Message)
        (pendingToolCalls : List Text),
      ∃ st, turnLoop w promptEstimate attachmentTokens meter history pendingToolCalls arrivals =
          some st ∧
        (spent w st.meter last.now =
            spent w meter last.now + (turnPrice w promptEstimate arrivals last).toNat ↔
          last.reported.isSome = true ∨ turnPrice w promptEstimate arrivals last = 0)) ∧
    (arrivals.find? endsPump = some last →
      ∃ st, pumpSimple w meter arrivals = some st ∧
        spent w st.meter last.now = spent w meter last.now + (reportedPrice w last).toNat ∧
        (spent w st.meter last.now = spent w meter last.now ↔ reportedPrice w last = 0)) := by
  constructor
  · intro hlast promptEstimate attachmentTokens history pendingToolCalls
    obtain ⟨st, hrun, hspent⟩ :=
      turnLoop_spent w promptEstimate attachmentTokens meter history pendingToolCalls arrivals hlast
    refine ⟨st, hrun, ?_⟩
    rw [hspent, Nat.add_left_cancel_iff, ← UInt64.toNat_inj]
    cases last.reported with
    | some usage => simp
    | none => simp [eq_comm]
  · intro hlast
    obtain ⟨st, hrun, hspent⟩ := pumpSimple_spent w meter hlast
    refine ⟨st, hrun, hspent, ?_⟩
    rw [hspent, ← UInt64.toNat_inj]
    simp

/-- Rationals for `f64`: exact, and every one of them finite. -/
def rationals : F64 ℚ where
  zero := 0
  isFinite := fun _ => true
  le := fun a b => decide (a ≤ b)
  mul := fun a b => a * b
  ofU64 := fun n => n.toNat
  ceil := fun a => ⌈a⌉
  max := max
  toU64 := fun a => .ofNat (min ⌊a⌋.toNat (2 ^ 64 - 1))

def remoteUser : Identity where
  cls := .native
  uid := 1000
  gid := 1000
  pid := 4242
  unit := some "writer".toList
  appId := none
  exe := none
  client := none
  attested := false

/-- A hosted model at two for prompt tokens and eight for output, streamed. -/
def hosted : TurnWorker ℚ Nat where
  f64 := rationals
  prices := [⟨"hosted".toList, 2, 8⟩]
  account := ⟨remoteUser, ⟨4096, 8, 1000, 0, [], false, none, false, [['*']]⟩, "hosted".toList⟩
  backend := "remote".toList
  tools := none
  stream := true
  backendSilenceSeconds := 0
  isJson := fun _ => false
  isEscaped := fun _ => false

def oneToken : Arrival Nat := ⟨.ok (.token 1 "a".toList none), 0, true⟩

def allDone : Arrival Nat := ⟨.ok (.done 1 ⟨10, 1, 0, 0⟩ none), 1, true⟩

/-- The backend breaks down after a token. -/
def brokenDown : Arrival Nat := ⟨.ok (.error (some 1) "backend-failed".toList []), 1, true⟩

theorem ledger_complete_done :
    ∃ st, turnLoop hosted 5 0 ⟨∅, ∅⟩ [] [] [oneToken, allDone] = some st ∧
      spent hosted st.meter 1 =
        spent hosted ⟨∅, ∅⟩ 1 + (turnPrice hosted 5 [oneToken, allDone] allDone).toNat := by
  obtain ⟨st, hrun, hspent⟩ :=
    (ledger_complete_iff hosted ⟨∅, ∅⟩ [oneToken, allDone] allDone).1 rfl 5 0 [] []
  exact ⟨st, hrun, hspent.mpr (Or.inl rfl)⟩

theorem broken_turn_free :
    ¬ ∀ (w : TurnWorker ℚ Nat) (meter : Meter) (arrivals : List (Arrival Nat)) (last : Arrival Nat),
      arrivals.find? (endsTurn w) = some last →
      ∀ (promptEstimate attachmentTokens : UInt64) (history : List Message)
        (pendingToolCalls : List Text),
      ∃ st, turnLoop w promptEstimate attachmentTokens meter history pendingToolCalls arrivals =
          some st ∧
        spent w st.meter last.now =
          spent w meter last.now + (turnPrice w promptEstimate arrivals last).toNat := by
  intro hall
  obtain ⟨st, hrun, hclaim⟩ :=
    hall hosted ⟨∅, ∅⟩ [oneToken, brokenDown] brokenDown rfl 5 0 [] []
  obtain ⟨st', hrun', hspent⟩ :=
    turnLoop_spent hosted 5 0 ⟨∅, ∅⟩ [] [] [oneToken, brokenDown] rfl
  have hprice : turnPrice hosted 5 [oneToken, brokenDown] brokenDown = 18 := by
    decide +kernel
  rw [hrun, Option.some.injEq] at hrun'
  subst hrun'
  rw [hclaim, hprice] at hspent
  simp [Arrival.reported, brokenDown] at hspent

end AiDaemon.Turn
