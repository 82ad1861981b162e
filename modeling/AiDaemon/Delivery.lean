import AiDaemon.ToolAnswers

/-!
# The text of a turn (`session.rs`: the `Token` and `Done` arms of `turn`)

Whether a client wants its text in pieces is the `stream` of its Generate request.  It
goes to `turn` as an argument and is looked at where a token arrives: without it, the
token is counted and not sent.  Nothing keeps the text for later, and `Done` has none, so
a client that does not stream is told how much was generated and not what.  A turn that
tool results resume streams, whatever was asked for.

`Watched` is a worker under observation; the two halves of the claim are properties of it.
-/

namespace AiDaemon.Dispatch

open Proto Spend Transition Turn

variable {R F J : Type}

/-- The text in an event. `Done` has none. -/
def textIn : Event F → Text
  | .token tok _ => tok
  | .hello _ _ _ | .toolCall _ | .toolCalls _ | .media _ | .vectors _ | .tokens _ | .notice _ _
  | .done _ _ _ | .error _ => []

def textOf (events : List (Event F)) : Text := events.flatMap textIn

/-- The text that the backend sends. -/
def tokenIn (x : Arrival F) : Text :=
  match x.outcome with
  | .ok (.token _ tok _) => tok
  | _ => []

/-- Whether the turn under way streams. -/
def Phase.streaming : Phase F → Option Bool
  | turning stream _ _ => some stream
  | idle | pumping _ | imaging _ | stopped => none

/-- The results are the last of those that the worker waits for. -/
def Worker.ResumedBy (st : Worker F J) (results : List ToolResultItem) : Prop :=
  st.pendingToolCalls ≠ [] ∧ (idsOf results).Perm st.pendingToolCalls

instance (st : Worker F J) (results : List ToolResultItem) : Decidable (st.ResumedBy results) :=
  inferInstanceAs (Decidable (_ ∧ _))

/-- A worker, and what an observer notes of it. -/
structure Watched (F J : Type) where
  worker : Worker F J
  /-- The `stream` of the last Generate request. -/
  asked : Bool
  /-- The text the backend has sent since the last request. -/
  generated : Text
  /-- Of each turn that came to its Done: the text that the backend sent, and the text that
      the client was sent. -/
  finished : List (Text × Text)

def Watched.new (meter : Meter) : Watched F J := ⟨.new meter, true, [], []⟩

section Watching

variable (w : TurnWorker R J) (info : SessionInfo)

/-- What a turn has come to with this arrival, if it is its Done. -/
def Watched.ending (st : Watched F J) (x : Arrival F) : List (Text × Text) :=
  match st.worker.phase, x.reported with
  | .turning stream promptEstimate turn, some _ =>
    [(st.generated, textOf (turnArm (st.worker.turns w stream) promptEstimate turn x).1.sent)]
  | _, _ => []

def Watched.note (st : Watched F J) (next : Worker F J) : Act F J → Watched F J
  | .request (.generate _ stream _ _ _) _ =>
    { st with worker := next, asked := stream, generated := [] }
  | .request _ _ => { st with worker := next, generated := [] }
  | .arrival x _ =>
    { st with
      worker := next
      generated := st.generated ++ tokenIn x
      finished := st.finished ++ st.ending w x }
  | .strayBlob _ | .unrecognised _ _ | .leave => { st with worker := next }

def watchedStep (st : Watched F J) (a : Act F J) : Option (Watched F J) :=
  (workerStep w info st.worker a).map fun next => st.note w next a

/-- The text of every turn has reached the client, and the turn under way streams as the
    Generate request it belongs to asked. -/
structure Delivers (st : Watched F J) : Prop where
  whole : ∀ texts ∈ st.finished, texts.2 = texts.1
  sameStream : ∀ stream ∈ st.worker.phase.streaming, stream = st.asked

/-- A turn that comes to its Done streams, or its backend has sent no text; a turn that is
    resumed belongs to a request that asked to stream. -/
def Streams (st : Watched F J) : Act F J → Prop
  | .arrival x _ =>
    x.reported.isSome = true →
      ∀ stream ∈ st.worker.phase.streaming, stream = true ∨ st.generated = []
  | .request request env =>
    st.worker.phase = .idle → ∀ results, resultsOf request = some results →
      st.worker.ResumedBy results → env.admission.isOk = true → st.asked = true
  | _ => True

/-! ### Rounds -/

@[simp] theorem textOf_append (l r : List (Event F)) : textOf (l ++ r) = textOf l ++ textOf r :=
  List.flatMap_append

theorem textOf_send (turn : TurnState F) (x : Arrival F) (event : Event F) :
    textOf (turn.send x event).sent =
      textOf turn.sent ++ if x.delivered then textIn event else [] := by
  unfold TurnState.send
  split
  · simp [textOf]
  · simp

theorem textOf_silent (turn : TurnState F) (x : Arrival F) {event : Event F}
    (hevent : textIn event = []) : textOf (turn.send x event).sent = textOf turn.sent := by
  rw [textOf_send, hevent, ite_self, List.append_nil]

theorem textOf_toolCallsArm (turn : TurnState F) (x : Arrival F) (calls : List ToolCall)
    {event : Event F} (hevent : textIn event = []) :
    textOf (toolCallsArm w turn x calls event).1.sent = textOf turn.sent := by
  unfold toolCallsArm
  split
  · exact textOf_silent _ _ rfl
  · exact textOf_silent _ _ hevent

/-- A round sends the text that arrives, if the turn streams and the client takes it. -/
theorem textOf_turnArm (promptEstimate : UInt64) (turn : TurnState F) (x : Arrival F) :
    textOf (turnArm w promptEstimate turn x).1.sent =
      textOf turn.sent ++ if w.stream = true ∧ x.delivered = true then tokenIn x else [] := by
  obtain ⟨outcome, now, delivered⟩ := x
  have hnone : ∀ text : Text, text = [] → textOf turn.sent =
      textOf turn.sent ++ if w.stream = true ∧ delivered = true then text else [] := by
    rintro text rfl
    rw [ite_self, List.append_nil]
  cases outcome with
  | error reason => exact (textOf_silent _ _ rfl).trans (hnone _ rfl)
  | ok event =>
    cases event with
    | token reqId tok logprobs =>
      simp only [turnArm, tokenIn]
      cases hstream : w.stream with
      | true => simp [textOf_send, textIn]
      | false => simp
    | toolCall reqId call =>
      exact (textOf_toolCallsArm w turn _ _ rfl).trans (hnone _ rfl)
    | toolCalls reqId calls =>
      exact (textOf_toolCallsArm w turn _ _ rfl).trans (hnone _ rfl)
    | done reqId usage finishReason => exact (textOf_silent _ _ rfl).trans (hnone _ rfl)
    | error reqId code message => exact (textOf_silent _ _ rfl).trans (hnone _ rfl)
    | _ => exact hnone _ rfl

/-- A turn that goes on has sent the text that arrived, if it streams. -/
theorem textOf_going (promptEstimate : UInt64) (turn : TurnState F) {x : Arrival F}
    (hgoing : endsTurn w x = false) :
    textOf (turnArm w promptEstimate turn x).1.sent =
      textOf turn.sent ++ if w.stream = true then tokenIn x else [] := by
  rw [textOf_turnArm]
  cases hstream : w.stream with
  | false => simp
  | true =>
    cases hdelivered : x.delivered with
    | true => simp
    | false =>
      -- a token that the client does not take ends the turn
      have hnone : tokenIn x = [] := by
        unfold endsTurn at hgoing
        unfold tokenIn
        split at hgoing
        · simp [hstream, hdelivered] at hgoing
        all_goals simp_all
      rw [hnone]
      simp

/-! ### Steps -/

omit w info in
theorem send_phase (st : Worker F J) (delivered : Bool) (event : Event F) :
    (st.send delivered event).phase = st.phase := by
  unfold Worker.send
  split <;> rfl

section Requests

variable {st : Worker F J} (isEscaped : Char → Bool) (env : Env)

omit w info in
theorem turn_phase (hidle : st.phase = .idle) (stream : Bool) :
    (st.turn stream env).phase.sent = [] ∧
      (st.turn stream env).phase.streaming =
        if env.admission.isOk then some stream else none := by
  unfold Worker.turn
  cases env.admission with
  | error body =>
    simp only [send_phase, hidle]
    exact ⟨rfl, rfl⟩
  | ok admitted => exact ⟨rfl, rfl⟩

omit w info in
/-- Nothing is left exactly when there is an answer to everything. -/
theorem taking_last {results : List ToolResultItem}
    (hall : (idsOf results).Subperm st.pendingToolCalls) :
    (st.taking results).pendingToolCalls = [] ↔ (idsOf results).Perm st.pendingToolCalls := by
  have hsplit : (idsOf results ++ st.pendingToolCalls.diff (idsOf results)).Perm
      st.pendingToolCalls :=
    List.subperm_append_diff_self_of_count_le (List.subperm_ext_iff.mp hall)
  constructor
  · intro hnone
    rw [show st.pendingToolCalls.diff (idsOf results) = [] from hnone, List.append_nil] at hsplit
    exact hsplit
  · intro hperm
    rw [← List.append_nil (idsOf results)] at hperm
    exact List.perm_nil.mp (diff_perm hperm)

omit w info in
/-- Tool results start a turn when they are the last ones, and then it streams. -/
theorem answerTools_phase (hidle : st.phase = .idle) (results : List ToolResultItem) :
    (st.answerTools isEscaped results env).phase.sent = [] ∧
      (st.answerTools isEscaped results env).phase.streaming =
        if st.ResumedBy results ∧ env.admission.isOk then some true else none := by
  have hquiet : ∀ next : Worker F J, next.phase = .idle → ¬ st.ResumedBy results →
      next.phase.sent = [] ∧ next.phase.streaming =
        if st.ResumedBy results ∧ env.admission.isOk then some true else none := by
    intro next hnext hnot
    rw [hnext, if_neg fun h => hnot h.1]
    exact ⟨rfl, rfl⟩
  by_cases hpending : st.pendingToolCalls = []
  · apply hquiet
    · rw [Worker.answerTools, if_pos hpending, send_phase, hidle]
    · exact fun h => h.1 hpending
  · by_cases hall : (idsOf results).Subperm st.pendingToolCalls
    · rw [answerTools_taken isEscaped hpending hall]
      by_cases hlast : (st.taking results).pendingToolCalls = []
      · have hresumed : st.ResumedBy results := ⟨hpending, (taking_last hall).mp hlast⟩
        have htaking : (st.taking results).phase = .idle := hidle
        simp only [if_pos hlast, hresumed, true_and]
        exact turn_phase env htaking true
      · rw [if_neg hlast]
        exact hquiet _ hidle fun h => hlast ((taking_last hall).mpr h.2)
    · have hrefused := (refusal_isSome_iff isEscaped).mpr (Or.inr hall)
      obtain ⟨text, htext⟩ := Option.isSome_iff_exists.mp hrefused
      obtain ⟨pending, history, heq, -⟩ := answerTools_refused isEscaped htext env
      rw [heq]
      apply hquiet
      · rw [send_phase]
        exact hidle
      · exact fun h => hall h.2.subperm

/-- A request leaves nothing sent by a turn, and a turn that it starts streams as the request
    asks, or because it is resumed. -/
structure Starts (st : Worker F J) (request : Request F J) (env : Env) (next : Worker F J) :
    Prop where
  sent : next.phase.sent = []
  started : ∀ stream ∈ next.phase.streaming,
    (∃ messages params grammar tools,
      request = .generate messages stream params grammar tools) ∨
    (stream = true ∧ ∃ results, resultsOf request = some results ∧ st.ResumedBy results ∧
      env.admission.isOk = true)

omit w info in
theorem Starts.quiet {request : Request F J} {next : Worker F J} (hsent : next.phase.sent = [])
    (hnone : next.phase.streaming = none) : Starts st request env next :=
  ⟨hsent, fun stream h => by simp [hnone] at h⟩

omit w info in
theorem Starts.idle {request : Request F J} {next : Worker F J} (hidle : next.phase = .idle) :
    Starts st request env next := by
  apply Starts.quiet <;> rw [hidle] <;> rfl

omit w info in
theorem starts_results (info : SessionInfo) (hidle : st.phase = .idle) {request : Request F J}
    {results : List ToolResultItem} (hrequest : resultsOf request = some results) :
    Starts st request env (dispatch isEscaped info st env request) := by
  obtain ⟨hsent, hstreaming⟩ := answerTools_phase isEscaped env hidle results
  rw [dispatch_results isEscaped hrequest]
  refine ⟨hsent, fun stream h => ?_⟩
  rw [hstreaming] at h
  split at h
  · rename_i hresumed
    rw [Option.mem_def, Option.some.injEq] at h
    exact Or.inr ⟨h.symm, results, hrequest, hresumed.1, hresumed.2⟩
  · cases h

omit w info in
theorem dispatch_starts (info : SessionInfo) (hidle : st.phase = .idle) (request : Request F J) :
    Starts st request env (dispatch isEscaped info st env request) := by
  have hsend : ∀ (next : Worker F J) (delivered : Bool) (event : Event F), next.phase = .idle →
      Starts st request env (next.send delivered event) :=
    fun next delivered event h => .idle env (by rw [send_phase, h])
  cases request with
  | generate messages stream params grammar tools =>
    simp only [dispatch]
    generalize hnext : Worker.mk st.proto messages tools _ grammar [] st.meter st.sent st.phase =
      next
    have hidle' : next.phase = .idle := by
      rw [← hnext]
      exact hidle
    obtain ⟨hsent, hstreaming⟩ := turn_phase env hidle' stream
    refine ⟨hsent, fun stream' h => ?_⟩
    rw [hstreaming] at h
    split at h
    · rw [Option.mem_def, Option.some.injEq] at h
      subst h
      exact Or.inl ⟨messages, params, grammar, tools, rfl⟩
    · cases h
  | toolResult id content => exact starts_results isEscaped env info hidle rfl
  | toolResults results => exact starts_results isEscaped env info hidle rfl
  | hello proto =>
    simp only [dispatch, Worker.hello]
    generalize (if proto = 0 then dataProto else proto) = asked
    split
    · exact hsend _ _ _ hidle
    · exact .quiet env rfl rfl
  | attach id kind attachMeta len =>
    simp only [dispatch, Worker.attach]
    split
    · exact .idle env hidle
    · split
      · exact .quiet env rfl rfl
      · split
        · exact hsend _ _ _ hidle
        · exact .idle env hidle
  | generateMedia kind prompt params count =>
    simp only [dispatch, Worker.generateMedia]
    split
    · exact hsend _ _ _ hidle
    · split
      · exact hsend _ _ _ hidle
      · exact .quiet env rfl rfl
  | embed inputs =>
    simp only [dispatch, Worker.oneShot]
    split
    · exact hsend _ _ _ hidle
    · exact .quiet env rfl rfl
  | tokenize text =>
    simp only [dispatch, Worker.oneShot]
    split
    · exact hsend _ _ _ hidle
    · exact .quiet env rfl rfl
  | cancel => exact .idle env hidle

end Requests

section Steps

variable {w info} {st next : Worker F J}

/-- A request is only taken between two others. -/
theorem request_step {request : Request F J} {env : Env}
    (h : workerStep w info st (.request request env) = some next) :
    st.phase = .idle ∧ next = dispatch w.isEscaped info st env request := by
  simp only [workerStep] at h
  split at h
  · rename_i hidle
    cases h
    exact ⟨hidle, rfl⟩
  · cases h

/-- An arrival is a round of the turn under way, which goes on or is over; or there is none
    before nor after. -/
theorem arrival_step {x : Arrival F} {bytesTaken : Bool}
    (h : workerStep w info st (.arrival x bytesTaken) = some next) :
    (∃ stream promptEstimate turn, st.phase = .turning stream promptEstimate turn ∧
      if endsTurn (st.turns w stream) x = true then next.phase = .idle
      else next.phase = .turning stream promptEstimate
        (turnArm (st.turns w stream) promptEstimate turn x).1) ∨
    (st.phase.streaming = none ∧ next.phase.streaming = none) := by
  simp only [workerStep] at h
  split at h
  · rename_i stream promptEstimate turn hphase
    refine Or.inl ⟨stream, promptEstimate, turn, hphase, ?_⟩
    rw [← turnArm_ends (st.turns w stream) promptEstimate turn x]
    split at h
    · rename_i after harm
      cases h
      simp [harm]
    · rename_i after harm
      cases h
      simp [harm, Worker.collect]
  · rename_i pump hphase
    refine Or.inr ⟨by simp [hphase, Phase.streaming], ?_⟩
    split at h <;> cases h <;> rfl
  · rename_i media hphase
    refine Or.inr ⟨by simp [hphase, Phase.streaming], ?_⟩
    split at h <;> cases h <;> rfl
  · cases h

theorem other_step {a : Act F J} (h : workerStep w info st a = some next)
    (hrequest : ∀ request env, a ≠ .request request env)
    (harrival : ∀ x bytesTaken, a ≠ .arrival x bytesTaken) : next.phase.streaming = none := by
  cases a with
  | request request env => exact absurd rfl (hrequest request env)
  | arrival x bytesTaken => exact absurd rfl (harrival x bytesTaken)
  | strayBlob delivered =>
    simp only [workerStep] at h
    split at h <;> cases h
    rfl
  | unrecognised reason delivered =>
    simp only [workerStep] at h
    split at h <;> cases h
    rename_i hidle
    rw [send_phase, hidle]
    rfl
  | leave =>
    simp only [workerStep] at h
    split at h <;> cases h
    rfl

end Steps

/-! ### Runs -/

section Runs

variable {w info} {st next : Watched F J}

/-- A turn under way has sent what the backend has, if it streams. -/
def Sending (st : Watched F J) : Prop :=
  ∀ stream ∈ st.worker.phase.streaming,
    textOf st.worker.phase.sent = if stream = true then st.generated else []

theorem note_request (w : TurnWorker R J) (st : Watched F J) (request : Request F J) (env : Env)
    (after : Worker F J) :
    (st.note w after (.request request env)).worker = after ∧
      (st.note w after (.request request env)).generated = [] ∧
      (st.note w after (.request request env)).finished = st.finished := by
  cases request <;> exact ⟨rfl, rfl, rfl⟩

theorem note_results {request : Request F J} {results : List ToolResultItem}
    (h : resultsOf request = some results) (env : Env) (after : Worker F J) :
    (st.note w after (.request request env)).asked = st.asked := by
  cases request with
  | generate messages stream params grammar tools => simp [resultsOf] at h
  | _ => rfl

theorem note_other {a : Act F J} (hrequest : ∀ request env, a ≠ .request request env)
    (harrival : ∀ x bytesTaken, a ≠ .arrival x bytesTaken) (after : Worker F J) :
    st.note w after a = { st with worker := after } := by
  cases a with
  | request request env => exact absurd rfl (hrequest request env)
  | arrival x bytesTaken => exact absurd rfl (harrival x bytesTaken)
  | _ => rfl

theorem sending_step {a : Act F J} (h : Sending st) (hstep : watchedStep w info st a = some next) :
    Sending next := by
  obtain ⟨after, hworker, rfl⟩ := Option.map_eq_some_iff.mp hstep
  cases a with
  | request request env =>
    obtain ⟨hidle, rfl⟩ := request_step hworker
    obtain ⟨hsame, hnothing, -⟩ := note_request w st request env
      (dispatch w.isEscaped info st.worker env request)
    have hstarts := dispatch_starts w.isEscaped env info hidle request
    intro stream _
    rw [hsame, hstarts.sent, hnothing, ite_self]
    rfl
  | arrival x bytesTaken =>
    intro stream hstream
    rcases arrival_step hworker with ⟨before, promptEstimate, turn, hphase, hround⟩ | ⟨-, hnone⟩
    · split at hround
      · simp [Watched.note, hround, Phase.streaming] at hstream
      · rename_i hgoing
        simp only [Watched.note, hround, Phase.streaming, Option.mem_def,
          Option.some.injEq] at hstream
        subst hstream
        have hbefore := h before (by simp [hphase, Phase.streaming])
        rw [hphase] at hbefore
        simp only [Watched.note, hround]
        have hsent := textOf_going (st.worker.turns w before) promptEstimate turn
          (Bool.eq_false_iff.mpr hgoing)
        have hstream : (st.worker.turns w before).stream = before := rfl
        simp only [Phase.sent] at hbefore ⊢
        rw [hsent, hbefore, hstream]
        split <;> simp
    · simp [Watched.note, hnone] at hstream
  | _ =>
    have hnone := other_step hworker (by simp) (by simp)
    intro stream hstream
    rw [note_other (by simp) (by simp)] at hstream
    simp [hnone] at hstream

theorem delivers_request (hdelivers : Delivers st) {request : Request F J} {env : Env} :
    Keeps (watchedStep w info) Delivers st (.request request env) ↔
      Streams st (.request request env) := by
  constructor
  · intro hkeeps hidle results hresults hresumed hok
    have hstep : watchedStep w info st (.request request env) =
        some (st.note w (dispatch w.isEscaped info st.worker env request)
          (.request request env)) := by
      simp only [watchedStep, workerStep, hidle, Option.map_some]
    have hsame := (hkeeps _ hstep).sameStream true
    rw [(note_request w st request env _).1, note_results hresults,
      dispatch_results w.isEscaped hresults,
      (answerTools_phase w.isEscaped env hidle results).2, if_pos ⟨hresumed, hok⟩] at hsame
    exact (hsame rfl).symm
  · intro hstreams next hstep
    obtain ⟨after, hworker, rfl⟩ := Option.map_eq_some_iff.mp hstep
    obtain ⟨hidle, rfl⟩ := request_step hworker
    obtain ⟨hsame, -, hfinished⟩ := note_request w st request env
      (dispatch w.isEscaped info st.worker env request)
    refine ⟨?_, ?_⟩
    · rw [hfinished]
      exact hdelivers.whole
    · intro stream hstream
      rw [hsame] at hstream
      rcases (dispatch_starts w.isEscaped env info hidle request).started stream hstream with
        ⟨messages, params, grammar, tools, rfl⟩ | ⟨rfl, results, hresults, hresumed, hok⟩
      · rfl
      · rw [note_results hresults, hstreams hidle results hresults hresumed hok]

/-- A Done has no text, so it ends a turn with what was sent before it. -/
theorem ending_eq (hsending : Sending st) {x : Arrival F} (hdone : x.reported.isSome = true)
    {stream : Bool} (hphase : st.worker.phase.streaming = some stream) :
    st.ending w x = [(st.generated, if stream = true then st.generated else [])] := by
  have hsent := hsending stream hphase
  obtain ⟨usage, hreported⟩ := Option.isSome_iff_exists.mp hdone
  obtain ⟨reqId, finishReason, houtcome⟩ := outcome_of_reported hreported
  cases hturn : st.worker.phase with
  | turning before promptEstimate turn =>
    simp only [hturn, Phase.streaming, Option.some.injEq] at hphase
    subst hphase
    simp only [hturn, Phase.sent] at hsent
    simp only [Watched.ending, hturn, hreported, textOf_turnArm, tokenIn, houtcome, ite_self,
      List.append_nil, hsent]
  | _ => simp [hturn, Phase.streaming] at hphase

theorem ending_none {x : Arrival F}
    (h : x.reported = none ∨ st.worker.phase.streaming = none) : st.ending w x = [] := by
  unfold Watched.ending
  split
  · rename_i hphase hreported
    rcases h with hnone | hnone
    · rw [hnone] at hreported
      cases hreported
    · rw [hphase] at hnone
      cases hnone
  · rfl

/-- An arrival keeps every text whole, unless it is the Done of a turn that lost some. -/
theorem delivers_arrival (hsending : Sending st) (hdelivers : Delivers st) {x : Arrival F}
    {bytesTaken : Bool} :
    Keeps (watchedStep w info) Delivers st (.arrival x bytesTaken) ↔
      Streams st (.arrival x bytesTaken) := by
  constructor
  · intro hkeeps hdone stream hstream
    cases hturn : st.worker.phase with
    | turning before promptEstimate turn =>
      obtain ⟨after, hafter⟩ : ∃ after, workerStep w info st.worker (.arrival x bytesTaken) =
          some after := by
        simp only [workerStep, hturn]
        split <;> exact ⟨_, rfl⟩
      have hstep : watchedStep w info st (.arrival x bytesTaken) =
          some (st.note w after (.arrival x bytesTaken)) := by
        rw [watchedStep, hafter, Option.map_some]
      have hwhole := (hkeeps _ hstep).whole
        (st.generated, if stream = true then st.generated else [])
      simp only [Watched.note, ending_eq hsending hdone hstream] at hwhole
      have heq := hwhole (List.mem_append_right _ List.mem_cons_self)
      cases stream with
      | true => exact Or.inl rfl
      | false => exact Or.inr (by simpa using heq.symm)
    | _ => simp [hturn, Phase.streaming] at hstream
  · intro hstreams next hstep
    obtain ⟨after, hworker, rfl⟩ := Option.map_eq_some_iff.mp hstep
    refine ⟨?_, ?_⟩
    · intro texts htexts
      rcases List.mem_append.mp htexts with hbefore | hnew
      · exact hdelivers.whole texts hbefore
      · cases hphase : st.worker.phase.streaming with
        | none =>
          rw [ending_none (Or.inr hphase)] at hnew
          cases hnew
        | some stream =>
          cases hreported : x.reported with
          | none =>
            rw [ending_none (Or.inl hreported)] at hnew
            cases hnew
          | some usage =>
            have hdone : x.reported.isSome = true := by rw [hreported]; rfl
            rw [ending_eq hsending hdone hphase] at hnew
            rw [List.mem_singleton.mp hnew]
            rcases hstreams hdone stream hphase with rfl | hnothing
            · rfl
            · simp [hnothing]
    · intro stream hstream
      rcases arrival_step hworker with ⟨before, promptEstimate, turn, hphase, hround⟩ | ⟨-, hnone⟩
      · split at hround
        · simp [Watched.note, hround, Phase.streaming] at hstream
        · simp only [Watched.note, hround, Phase.streaming, Option.mem_def,
            Option.some.injEq] at hstream
          exact hdelivers.sameStream stream (by simp [hphase, Phase.streaming, hstream])
      · simp [Watched.note, hnone] at hstream

theorem delivers_iff (hsending : Sending st) (hdelivers : Delivers st) (a : Act F J) :
    Keeps (watchedStep w info) Delivers st a ↔ Streams st a := by
  cases a with
  | request request env => exact delivers_request hdelivers
  | arrival x bytesTaken => exact delivers_arrival hsending hdelivers
  | _ =>
    refine ⟨fun _ => trivial, fun _ next hstep => ?_⟩
    obtain ⟨after, hworker, rfl⟩ := Option.map_eq_some_iff.mp hstep
    have hnone := other_step hworker (by simp) (by simp)
    rw [note_other (by simp) (by simp)]
    exact ⟨hdelivers.whole, fun stream hstream => by simp [hnone] at hstream⟩

end Runs

/-- Watching a worker changes nothing about it. -/
theorem runs_watched (st : Watched F J) (as : List (Act F J)) :
    (runs (watchedStep w info) st as).map Watched.worker =
      runs (workerStep w info) st.worker as := by
  induction as generalizing st with
  | nil => rfl
  | cons a as ih =>
    simp only [runs, watchedStep]
    cases workerStep w info st.worker a with
    | none => rfl
    | some after =>
      have hworker : (st.note w after a).worker = after := by
        cases a with
        | request request env => exact (note_request w st request env after).1
        | _ => rfl
      have hrest := ih (st.note w after a)
      rw [hworker] at hrest
      exact hrest

/-- Over a session, the text of every turn that comes to its Done has reached the client
    and every turn streams as its Generate request asked, exactly when each turn that comes
    to its Done streams or was sent no text, and turns are only resumed where the request
    asked to stream. -/
theorem text_delivered_iff (w : TurnWorker R J) (info : SessionInfo) (meter : Meter)
    (as : List (Act F J)) :
    along (watchedStep w info) (Keeps (watchedStep w info) Delivers) (.new meter) as ↔
      along (watchedStep w info) Streams (.new meter) as := by
  have hnone : ∀ stream : Bool,
      ¬ stream ∈ (Watched.new meter : Watched F J).worker.phase.streaming := by
    intro stream hstream
    cases hstream
  have hsending : Sending (Watched.new meter : Watched F J) :=
    fun stream hstream => absurd hstream (hnone stream)
  have hdelivers : Delivers (Watched.new meter : Watched F J) :=
    ⟨fun _ htexts => absurd htexts List.not_mem_nil,
      fun stream hstream => absurd hstream (hnone stream)⟩
  exact along_keeps_iff_of_invariant (watchedStep w info)
    (fun _ _ _ hsending hstep => sending_step hsending hstep)
    (fun _ a hsending hdelivers => delivers_iff hsending hdelivers a) as hsending hdelivers

end Watching

/-- A turn that does not stream, with one token. -/
theorem unstreamed_text_lost :
    ¬ ∀ (w : TurnWorker ℚ Nat) (info : SessionInfo) (meter : Meter) (as : List (Act Nat Nat)),
      along (watchedStep w info) (Keeps (watchedStep w info) Delivers) (.new meter) as := by
  intro hall
  have halong := hall hosted anyInfo ⟨∅, ∅⟩
    [.request (.generate [] false none none none) letThrough, .arrival oneToken true,
      .arrival allDone true]
  have hdelivers := halong.2.2.1 _ rfl
  have hwhole := hdelivers.whole ("a".toList, []) List.mem_cons_self
  revert hwhole
  decide

end AiDaemon.Dispatch
