import AiDaemon.RemoteText
import AiDaemon.Turn

/-!
# What a remote request is billed for (`ai-daemon-backend-remote`; `session.rs`)

An endpoint says in its reply what the request has used.  Of that the backend passes on the
prompt.  The output it counts itself, by the deltas that had text, and for embeddings it
reports nothing at all.  The daemon prices what the backend reports, or its own counts where
they are higher, so the bill is too small for every reply whose output is more than its
deltas, tool calls first of all, and for all embeddings (`remote_billed_iff`).
-/

namespace AiDaemon.Remote

open Ledger Policy Proto Relay Json Spend Turn

/-! ### Embeddings -/

/-- A request for embeddings whose transfer has started. `response` is what came of reading
    the reply and `parseError` what the parser says of it. -/
structure Embedding (D F : Type) where
  floats : Floats D
  single : Number D → F
  reqId : UInt64
  baseUrl : Text
  response : Except Text Text
  transfer : Transfer
  parseError : Text

section Embeddings

variable {D F : Type}

def embeddingOf (single : Number D → F) (entry : Value D) : List F :=
  match (entry.get "embedding".toList).bind Value.asArray with
  | some values => values.filterMap fun
    | .num n => some (single n)
    | _ => none
  | none => []

def Embedding.complaint (e : Embedding D F) : Text :=
  let complaint := Text.trim e.transfer.stderr
  if complaint = [] then
    "the transfer to ".toList ++ e.baseUrl ++ " failed and said nothing".toList
  else (Text.lines complaint).getLast?.getD complaint

def embed (e : Embedding D F) : Except Text (List (List F)) := do
  let response ← e.response
  if e.transfer.success = false then .error e.complaint
  else
    match fromStr e.floats response with
    | none => .error ("embedding reply: ".toList ++ e.parseError)
    | some json =>
      match (json.get "data".toList).bind Value.asArray with
      | none => .error ("no embeddings in the reply: ".toList ++ response.take 200)
      | some data => .ok (data.map (embeddingOf e.single))

/-- What is sent to the daemon for it. -/
def embedEvents (e : Embedding D F) : List (BackendEvent F) :=
  match embed e with
  | .ok vectors =>
    [.vectors e.reqId vectors, .done e.reqId Usage.default (some "stop".toList)]
  | .error message => [.error (some e.reqId) "backend-failed".toList message]

end Embeddings

/-! ### What is to be shown -/

section Billed

variable {R D F J : Type}

/-- A remote turn that gets as far as the backend's `done`, and its events as they arrive
    at the daemon. -/
structure RemoteTurn (R D F J : Type) where
  generation : Generation D F J
  lines : List Text
  ending : Ending Text
  worker : TurnWorker R J
  promptEstimate : UInt64
  attachmentTokens : UInt64
  meter : Meter
  history : List Message
  pendingToolCalls : List Text
  arrivals : List (Arrival F)
  last : Arrival F
  arrives : arrivals.map Arrival.outcome =
    (generate generation lines ending).1.map Except.ok
  ends : arrivals.find? (endsTurn worker) = some last
  done : last.reported.isSome = true

/-- What the endpoint reported last under a name, as far as the reply was heard. -/
def RemoteTurn.reported (t : RemoteTurn R D F J) (field : Text) : Option UInt64 :=
  Remote.reported t.generation.floats field (heard t.generation 0 t.lines)

/-- The deltas with text, as the backend counts them. -/
def RemoteTurn.emitted (t : RemoteTurn R D F J) : UInt64 :=
  .ofNat (countText t.generation.floats (heard t.generation 0 t.lines))

/-- The counts that the turn is priced with are no less than those reported. -/
def RemoteTurn.Billed (t : RemoteTurn R D F J) : Prop :=
  ∃ st, turnLoop t.worker t.promptEstimate t.attachmentTokens t.meter t.history
      t.pendingToolCalls t.arrivals = some st ∧
    st.meter = chargeFor t.worker.f64 t.worker.prices t.worker.account t.meter t.last.now
      st.usage.promptTokens st.usage.completionTokens ∧
    (∀ n ∈ t.reported "prompt_tokens".toList, n ≤ st.usage.promptTokens) ∧
    ∀ n ∈ t.reported "completion_tokens".toList, n ≤ st.usage.completionTokens

/-- A request for embeddings that the daemon waits for. -/
structure RemoteEmbedding (R D F J : Type) where
  embedding : Embedding D F
  worker : TurnWorker R J
  meter : Meter
  arrivals : List (Arrival F)
  arrives : arrivals.map Arrival.outcome = (embedEvents embedding).map Except.ok

/-- The prompt tokens that the reply reports. -/
def RemoteEmbedding.reported (t : RemoteEmbedding R D F J) : Option UInt64 :=
  t.embedding.response.toOption.bind fun response =>
    (((fromStr t.embedding.floats response).bind (Value.get "usage".toList)).bind
      (Value.get "prompt_tokens".toList)).bind Value.asU64

/-- The usage that the request is priced with, if it is priced, and when. -/
def RemoteEmbedding.priced (t : RemoteEmbedding R D F J) : Option (ℚ × Usage) :=
  (t.arrivals.find? endsPump).bind fun last => last.reported.map fun usage => (last.now, usage)

/-- The tokens that the request is priced with are no fewer than those reported. -/
def RemoteEmbedding.Billed (t : RemoteEmbedding R D F J) : Prop :=
  ∃ st, pumpSimple t.worker t.meter t.arrivals = some st ∧
    (st.meter = t.priced.elim t.meter fun priced =>
      chargeFor t.worker.f64 t.worker.prices t.worker.account t.meter priced.1
        priced.2.promptTokens priced.2.completionTokens) ∧
    ∀ n ∈ t.reported, n ≤ t.priced.elim 0 fun priced => priced.2.promptTokens

end Billed

/-! ### The events of a turn -/

section Events

variable {F D J : Type} (g : Generation D F J)

def isTokenEvent : BackendEvent F → Bool
  | .token _ _ _ => true
  | _ => false

theorem countP_sentFor (lines : List Text) :
    (lines.flatMap (sentFor g)).countP isTokenEvent =
      if g.tools.isEmpty then countText g.floats lines else 0 := by
  induction lines with
  | nil => simp [countText]
  | cons line lines ih =>
    rw [List.flatMap_cons, List.countP_append, ih, countText, countText, List.countP_cons]
    unfold sentFor
    by_cases htools : g.tools.isEmpty = true
    · by_cases htext : textIn g.floats line = []
      · simp [htools, htext]
      · simp [htools, htext, isTokenEvent, Nat.add_comm]
    · simp [htools]

theorem countP_callEvents (calls : List ToolCall) :
    (callEvents g calls).countP isTokenEvent = 0 := by
  rcases callEvents_cases g calls with h | h | ⟨call, h⟩
  · rw [h]
    rfl
  · rw [h]
    rfl
  · rw [h]
    rfl

/-- A list that ends in an element that it has nowhere else ends there. -/
theorem eq_nil_of_append_cons {α : Type} {p : α → Prop} {before after init : List α} {a b : α}
    (h : before ++ a :: after = init ++ [b]) (ha : p a) (hinit : ∀ x ∈ init, ¬ p x) :
    after = [] := by
  rcases List.eq_nil_or_concat after with rfl | ⟨rest, x, rfl⟩
  · rfl
  · have hsplit : (before ++ a :: rest) ++ [x] = init ++ [b] := by simpa using h
    have hsame := (List.append_inj' hsplit rfl).1
    exact absurd ha (hinit a (hsame ▸ List.mem_append_right _ List.mem_cons_self))

end Events

theorem le_max_u64 (m n : UInt64) : m ≤ max m n := by
  show m ≤ if m ≤ n then n else m
  split
  · assumption
  · exact UInt64.le_refl m

theorem max_eq_of_le {m n : UInt64} (h : n ≤ m) : max m n = m := by
  show (if m ≤ n then n else m) = m
  split
  · exact UInt64.le_antisymm h ‹_›
  · rfl

section Turns

variable {R D F J : Type} (t : RemoteTurn R D F J)

theorem RemoteTurn.last_done : ∃ reqId usage reason, t.last.reported = some usage ∧
    t.last.outcome = .ok (.done reqId usage reason) := by
  obtain ⟨usage, husage⟩ := Option.isSome_iff_exists.mp t.done
  obtain ⟨reqId, reason, hdone⟩ := outcome_of_reported husage
  exact ⟨reqId, usage, reason, husage, hdone⟩

/-- What was sent is all the events of a reply that went well. -/
theorem RemoteTurn.events : ∃ reason, (generate t.generation t.lines t.ending).1 =
    (heard t.generation 0 t.lines).flatMap (sentFor t.generation) ++
      callEvents t.generation (callsHeard t.generation t.lines) ++
        [.done t.generation.reqId (usageOf t.generation t.lines) reason] := by
  rcases generate_heard t.generation t.lines t.ending with ⟨-, e, hsent⟩ | ⟨-, reason, hsent⟩
  · -- a reply that failed has no `done`
    obtain ⟨reqId, usage, reason, -, hdone⟩ := t.last_done
    have hmem := List.mem_map_of_mem (f := Arrival.outcome) (List.mem_of_find?_eq_some t.ends)
    rw [t.arrives, hsent, hdone] at hmem
    obtain ⟨event, hevent, heq⟩ := List.mem_map.mp hmem
    rw [Except.ok.injEq] at heq
    exact absurd (heq ▸ hevent) (done_not_sentFor t.generation)
  · exact ⟨reason, by rw [hsent, List.append_assoc]⟩

def isDoneEvent : BackendEvent F → Bool
  | .done _ _ _ => true
  | _ => false

theorem done_only_last (g : Generation D F J) (lines : List Text) :
    ∀ event ∈ (heard g 0 lines).flatMap (sentFor g) ++ callEvents g (callsHeard g lines),
      isDoneEvent event = false := by
  intro event hevent
  rw [Bool.eq_false_iff]
  intro hdone
  cases event with
  | done reqId usage reason =>
    rcases List.mem_append.mp hevent with hin | hin
    · exact done_not_sentFor g hin
    · exact done_not_callEvents g hin
  | _ => cases hdone

/-- The turn takes all of them, and `done` is the last. -/
theorem RemoteTurn.received_eq :
    received t.worker t.arrivals t.last = t.arrivals ∧
      t.last.reported = some (usageOf t.generation t.lines) := by
  obtain ⟨reqId, usage, reason, husage, hdone⟩ := t.last_done
  obtain ⟨reason', hevents⟩ := t.events
  obtain ⟨hends, before, after, hsplit, hgoing⟩ := List.find?_eq_some_iff_append.mp t.ends
  have harrives := t.arrives
  rw [hevents, hsplit, List.map_append, List.map_cons, List.map_append, List.map_singleton, hdone]
    at harrives
  have hinit : ∀ x ∈ ((heard t.generation 0 t.lines).flatMap (sentFor t.generation) ++
      callEvents t.generation (callsHeard t.generation t.lines)).map
        (Except.ok : BackendEvent F → Except RecvTimeoutError (BackendEvent F)),
      ¬ ∃ event, x = .ok event ∧ isDoneEvent event = true := by
    rintro x hx ⟨event, rfl, hevent⟩
    obtain ⟨other, hother, heq⟩ := List.mem_map.mp hx
    rw [Except.ok.injEq] at heq
    rw [done_only_last t.generation t.lines event (heq ▸ hother)] at hevent
    cases hevent
  have hnil : after.map Arrival.outcome = [] :=
    eq_nil_of_append_cons harrives ⟨_, rfl, rfl⟩ hinit
  rw [hnil] at harrives
  have hlast := (List.append_inj' harrives rfl).2
  simp only [List.cons.injEq, Except.ok.injEq, BackendEvent.done.injEq, and_true] at hlast
  obtain ⟨-, rfl, -⟩ := hlast
  refine ⟨?_, husage⟩
  rw [List.map_eq_nil_iff.mp hnil] at hsplit
  rw [received, hsplit, List.takeWhile_append_of_pos hgoing]
  simp [hends]

theorem RemoteTurn.tokens_eq :
    (received t.worker t.arrivals t.last).countP Arrival.isToken =
      if t.generation.tools.isEmpty then
        countText t.generation.floats (heard t.generation 0 t.lines) else 0 := by
  obtain ⟨reason, hevents⟩ := t.events
  have hcount : t.arrivals.countP Arrival.isToken =
      (t.arrivals.map Arrival.outcome).countP fun
        | .ok event => isTokenEvent event
        | .error _ => false := by
    rw [List.countP_map]
    apply List.countP_congr
    rintro ⟨outcome, now, delivered⟩ -
    cases outcome with
    | error reason => rfl
    | ok event => cases event <;> rfl
  rw [t.received_eq.1, hcount, t.arrives, List.countP_map, hevents]
  show List.countP isTokenEvent _ = _
  rw [List.countP_append, List.countP_append, countP_sentFor, countP_callEvents]
  rfl

/-- The turn is priced with the prompt that was reported and with the deltas. -/
theorem RemoteTurn.priced : ∃ st, turnLoop t.worker t.promptEstimate t.attachmentTokens t.meter
      t.history t.pendingToolCalls t.arrivals = some st ∧
    st.meter = chargeFor t.worker.f64 t.worker.prices t.worker.account t.meter t.last.now
      st.usage.promptTokens st.usage.completionTokens ∧
    st.usage.promptTokens = max ((t.reported "prompt_tokens".toList).getD 0) t.promptEstimate ∧
    st.usage.completionTokens = t.emitted := by
  obtain ⟨st, hrun, hprompt, hcompletion, hmeter⟩ := turnLoop_done t.worker t.promptEstimate
    t.attachmentTokens t.meter t.history t.pendingToolCalls t.arrivals t.ends t.received_eq.2
  refine ⟨st, hrun, hmeter, hprompt, ?_⟩
  rw [hcompletion, t.tokens_eq]
  split
  · exact max_eq_of_le (UInt64.le_refl _)
  · exact max_eq_of_le (UInt64.le_iff_toNat_le.mpr (Nat.zero_le _))

theorem RemoteTurn.billed_iff :
    t.Billed ↔ ∀ n ∈ t.reported "completion_tokens".toList, n ≤ t.emitted := by
  obtain ⟨st, hrun, hmeter, hprompt, hcompletion⟩ := t.priced
  constructor
  · rintro ⟨st', hrun', -, -, hle⟩
    rw [hrun, Option.some.injEq] at hrun'
    rw [← hcompletion, hrun']
    exact hle
  · intro hle
    refine ⟨st, hrun, hmeter, ?_, hcompletion ▸ hle⟩
    intro n hn
    rw [hprompt, Option.mem_def.mp hn]
    exact le_max_u64 _ _

end Turns

section Embeddings

variable {R D F J : Type} (t : RemoteEmbedding R D F J)

/-- Whatever comes of it, no tokens are priced. -/
theorem RemoteEmbedding.priced_zero :
    (∃ last, t.arrivals.find? endsPump = some last) ∧
      (t.priced.elim 0 fun priced => priced.2.promptTokens) = 0 := by
  have harrives := t.arrives
  unfold embedEvents at harrives
  unfold RemoteEmbedding.priced
  cases hembed : embed t.embedding with
  | ok vectors =>
    rw [hembed] at harrives
    obtain ⟨first, rest, hsplit, hfirst, hrest⟩ := List.map_eq_cons_iff.mp harrives
    obtain ⟨last, more, hsplit', hlast, -⟩ := List.map_eq_cons_iff.mp hrest
    have hgoes : endsPump first = false := by simp [endsPump, hfirst]
    have hends : endsPump last = true := by simp [endsPump, hlast]
    have hfind : t.arrivals.find? endsPump = some last := by
      rw [hsplit, hsplit', List.find?_cons_of_neg (by simp [hgoes]), List.find?_cons_of_pos hends]
    refine ⟨⟨last, hfind⟩, ?_⟩
    rw [hfind]
    simp [Arrival.reported, hlast, Usage.default]
  | error message =>
    rw [hembed] at harrives
    obtain ⟨last, more, hsplit, hlast, -⟩ := List.map_eq_cons_iff.mp harrives
    have hends : endsPump last = true := by simp [endsPump, hlast]
    have hfind : t.arrivals.find? endsPump = some last := by
      rw [hsplit, List.find?_cons_of_pos hends]
    refine ⟨⟨last, hfind⟩, ?_⟩
    rw [hfind]
    simp [Arrival.reported, hlast]

theorem RemoteEmbedding.billed_iff : t.Billed ↔ ∀ n ∈ t.reported, n = 0 := by
  obtain ⟨⟨last, hlast⟩, hzero⟩ := t.priced_zero
  unfold RemoteEmbedding.Billed
  rw [hzero]
  constructor
  · rintro ⟨st, -, -, hle⟩ n hn
    exact UInt64.le_zero_iff.mp (hle n hn)
  · intro hnone
    obtain ⟨st, hrun, hmeter⟩ := pumpSimple_meter t.worker t.meter hlast
    refine ⟨st, hrun, ?_, ?_⟩
    · rw [hmeter]
      unfold RemoteEmbedding.priced
      rw [hlast, Option.bind_some, Option.elim_map]
      rfl
    · intro n hn
      rw [hnone n hn]
      exact UInt64.le_refl 0

end Embeddings

/-- A remote turn is billed for what the endpoint reports exactly when the output that it
    reports is no more than its deltas with text. Embeddings are, exactly when it reports
    none. -/
theorem remote_billed_iff {R D F J : Type} :
    (∀ t : RemoteTurn R D F J,
        t.Billed ↔ ∀ n ∈ t.reported "completion_tokens".toList, n ≤ t.emitted) ∧
      ∀ t : RemoteEmbedding R D F J, t.Billed ↔ ∀ n ∈ t.reported, n = 0 :=
  ⟨RemoteTurn.billed_iff, RemoteEmbedding.billed_iff⟩

/-- The events of a request, each as it is sent. -/
def atOnce {F : Type} (events : List (BackendEvent F)) : List (Arrival F) :=
  events.map fun event => ⟨.ok event, 0, true⟩

theorem atOnce_outcome {F : Type} (events : List (BackendEvent F)) :
    (atOnce events).map Arrival.outcome = events.map Except.ok := List.map_map

/-- A call, for which the endpoint reports seven tokens of output. -/
def callLines : List Text := [
  ("data: \x7b\"choices\":[\x7b\"delta\":\x7b\"tool_calls\":[\x7b\"id\":\"a\"," ++
    "\"function\":\x7b\"name\":\"f\",\"arguments\":\"[]\"\x7d\x7d]\x7d\x7d]\x7d\n").toList,
  ("data: \x7b\"choices\":[],\"usage\":\x7b\"prompt_tokens\":5," ++
    "\"completion_tokens\":7\x7d\x7d\n").toList]

def callingWorker : TurnWorker ℚ Unit :=
  { hosted with tools := some oneTool.tools, isJson := fun _ => true }

theorem callLines_end : ((atOnce (generate oneTool callLines .closed).1).find?
    (endsTurn callingWorker)).isSome = true := by
  decide +kernel

def unbilledCall : RemoteTurn ℚ Empty Unit Unit where
  generation := oneTool
  lines := callLines
  ending := .closed
  worker := callingWorker
  promptEstimate := 6
  attachmentTokens := 0
  meter := ⟨∅, ∅⟩
  history := []
  pendingToolCalls := []
  arrivals := atOnce (generate oneTool callLines .closed).1
  last := Option.get _ callLines_end
  arrives := atOnce_outcome _
  ends := (Option.some_get callLines_end).symm
  done := by decide +kernel

/-- An embedding of one number, for which the endpoint reports five tokens. -/
def oneNumber : Embedding Empty Unit where
  floats := oneTool.floats
  single := oneTool.single
  reqId := 1
  baseUrl := oneTool.baseUrl
  response := .ok ("\x7b\"data\":[\x7b\"embedding\":[1]\x7d]," ++
    "\"usage\":\x7b\"prompt_tokens\":5\x7d\x7d").toList
  transfer := ⟨true, []⟩
  parseError := []

def unbilledEmbedding : RemoteEmbedding ℚ Empty Unit Unit where
  embedding := oneNumber
  worker := callingWorker
  meter := ⟨∅, ∅⟩
  arrivals := atOnce (embedEvents oneNumber)
  arrives := atOnce_outcome _

/-- The output of a call is priced at nothing, and so is an embedding. -/
theorem calls_and_embeddings_unbilled :
    (¬ ∀ t : RemoteTurn ℚ Empty Unit Unit, t.Billed) ∧
      ¬ ∀ t : RemoteEmbedding ℚ Empty Unit Unit, t.Billed := by
  have hcall : unbilledCall.reported "completion_tokens".toList = some 7 ∧
      unbilledCall.emitted = 0 := by
    decide +kernel
  have hnumber : unbilledEmbedding.reported = some 5 := by decide +kernel
  constructor
  · intro hall
    have hle := unbilledCall.billed_iff.mp (hall unbilledCall) 7 hcall.1
    rw [hcall.2] at hle
    exact absurd hle (by decide)
  · intro hall
    have hzero := unbilledEmbedding.billed_iff.mp (hall unbilledEmbedding) 5 hnumber
    exact absurd hzero (by decide)

end AiDaemon.Remote
