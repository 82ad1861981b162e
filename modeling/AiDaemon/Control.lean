import AiDaemon.Routing

/-!
# Loading and unloading models (`backend.rs`: `load`, `unload`, `await_until`)

A backend keeps the models it has made resident in a map.  `load` answers from the
map where it can and otherwise asks the backend; `unload` asks the backend and
forgets the model.  The answers carry no request id: they all come down one control
channel, late ones of operations that have given up among them.  A mutex, `control_op`,
keeps any two operations from waiting there at the same time.

A thread inside one of the two functions is at a `Stage`, and the steps are the
regions between which other threads can run.  The backend may say anything at any
time (`arrive`), also nothing: a wait can expire in every state.  Other requests are
written in between (`post`).

`load_unload_in_step` is what the operations keep up over every interleaving: the
map and the answers hold what the backend said about that very model, and a model in
the map is one the backend was last asked to load.
-/

namespace AiDaemon.Control

open Ledger Proto Routing Transition

variable {τ F J : Type}

/-! ### The source -/

structure LoadedModel where
  modelId : Text
  kvBytesPerToken : UInt64
  nCtx : UInt32
deriving DecidableEq, Repr

/-- A call of `load` or of `unload`. -/
inductive Op where
  | load (modelId path digest : Text) (nCtx : UInt32)
  | unload (modelId : Text)
deriving DecidableEq, Repr

def Op.modelId : Op → Text
  | load modelId _ _ _ => modelId
  | unload modelId => modelId

/-- The request it sends. -/
def Op.request : Op → BackendRequest F J
  | load modelId path digest nCtx => .load modelId path digest nCtx
  | unload modelId => .unload modelId

inductive Answer where
  | loaded (model : LoadedModel)
  | unloaded
  | failed (reason : Text)
deriving DecidableEq, Repr

/-- What `unload` returns. -/
def Answer.ofOutcome : Except Text Unit → Answer
  | .ok () => unloaded
  | .error reason => failed reason

/-- Where a thread stands in `load` or `unload`. -/
inductive Stage where
  /-- Before `load`'s first look into the map. -/
  | called
  /-- For `control_op`. -/
  | waiting
  /-- Before `load`'s second look, under the lock. -/
  | locked
  | sending
  /-- The backend was found alive. -/
  | writing
  | receiving
  | inserting (model : LoadedModel)
  | forgetting (outcome : Except Text Unit)
  /-- Still under the lock. -/
  | returning (answer : Answer)
  | answered (answer : Answer)
deriving DecidableEq, Repr

/-- Where a call starts: only `load` looks into the map first. -/
def Op.start : Op → Stage
  | load _ _ _ _ => .called
  | unload _ => .waiting

/-- Where it goes on once it has `control_op`. -/
def Op.entered : Op → Stage
  | load _ _ _ _ => .locked
  | unload _ => .sending

def errorText (code message : Text) : Text := code ++ ": ".toList ++ message

def lateText (name : Text) : Text :=
  "backend ".toList ++ name ++ " did not answer in time".toList

/-- One round of the waiting loops: an event that decides nothing is discarded and
    the wait goes on. -/
def Op.reply (op : Op) (event : BackendEvent F) : Stage :=
  match op, event with
  | load modelId _ _ _, .loaded answered kvBytesPerToken nCtx =>
    if answered = modelId then .inserting ⟨answered, kvBytesPerToken, nCtx⟩ else .receiving
  | load _ _ _ _, .error _ code message => .returning (.failed (errorText code message))
  | load _ _ _ _, _ => .receiving
  | unload modelId, .unloaded answered =>
    if answered = modelId then .forgetting (.ok ()) else .receiving
  | unload _, .error _ code message => .forgetting (.error (errorText code message))
  | unload _, _ => .receiving

/-- When `await_until` fails: `load` returns at once, `unload` forgets first. -/
def Op.expired (name : Text) : Op → Stage
  | load _ _ _ _ => .returning (.failed (lateText name))
  | unload _ => .forgetting (.error (lateText name))

structure ControlState (τ F J : Type) where
  loaded : Table Text LoadedModel
  /-- The thread that has the lock. -/
  controlOp : Option τ
  /-- The control channel, oldest event first. -/
  control : List (BackendEvent F)
  alive : Bool
  calls : τ → Option (Op × Stage)
  /-- The requests `send` has returned `Ok` for, newest first. What a failed write
      leaves behind is not among them. -/
  sent : List (BackendRequest F J)
  /-- Every event that has come down the control channel. -/
  arrived : List (BackendEvent F)

def ControlState.new : ControlState τ F J where
  loaded := ∅
  controlOp := none
  control := []
  alive := true
  calls := fun _ => none
  sent := []
  arrived := []

inductive Action (τ F J : Type) where
  | call (thread : τ) (op : Op)
  | look (thread : τ)
  | lock (thread : τ)
  | lookAgain (thread : τ)
  | check (thread : τ)
  | write (thread : τ) (result : Except Text Unit)
  | receive (thread : τ)
  | expire (thread : τ)
  | insert (thread : τ)
  | forget (thread : τ)
  | release (thread : τ)
  | post (request : BackendRequest F J)
  | arrive (event : BackendEvent F)
  | hangUp

/-- Only `load` and `unload` send these. -/
def isControl : BackendRequest F J → Bool
  | .load _ _ _ _ | .unload _ => true
  | _ => false

variable [DecidableEq τ]

def ControlState.enter (st : ControlState τ F J) (thread : τ) (op : Op) (stage : Stage) :
    ControlState τ F J :=
  { st with calls := Function.update st.calls thread (some (op, stage)) }

def controlStep (name : Text) (st : ControlState τ F J) :
    Action τ F J → Option (ControlState τ F J)
  | .call thread op =>
    match st.calls thread with
    | none | some (_, .answered _) => some (st.enter thread op op.start)
    | _ => none
  | .look thread =>
    match st.calls thread with
    | some (op, .called) =>
      match st.loaded.lookup op.modelId with
      | some existing => some (st.enter thread op (.answered (.loaded existing)))
      | none => some (st.enter thread op .waiting)
    | _ => none
  | .lock thread =>
    match st.calls thread, st.controlOp with
    | some (op, .waiting), none =>
      some { st.enter thread op op.entered with controlOp := some thread }
    | _, _ => none
  | .lookAgain thread =>
    match st.calls thread with
    | some (op, .locked) =>
      match st.loaded.lookup op.modelId with
      | some existing => some (st.enter thread op (.returning (.loaded existing)))
      | none => some (st.enter thread op .sending)
    | _ => none
  | .check thread =>
    match st.calls thread with
    | some (op, .sending) =>
      some (st.enter thread op
        (if st.alive then .writing else .returning (.failed (notRunningText name))))
    | _ => none
  | .write thread result =>
    match st.calls thread with
    | some (op, .writing) =>
      match result with
      | .ok () => some { st.enter thread op .receiving with sent := op.request :: st.sent }
      | .error e => some (st.enter thread op (.returning (.failed (writingText name e))))
    | _ => none
  | .receive thread =>
    match st.calls thread, st.control with
    | some (op, .receiving), event :: rest =>
      some { st.enter thread op (op.reply event) with control := rest }
    | _, _ => none
  | .expire thread =>
    match st.calls thread with
    | some (op, .receiving) => some (st.enter thread op (op.expired name))
    | _ => none
  | .insert thread =>
    match st.calls thread with
    | some (op, .inserting model) =>
      some { st.enter thread op (.returning (.loaded model)) with
        loaded := st.loaded.insert model.modelId model }
    | _ => none
  | .forget thread =>
    match st.calls thread with
    | some (op, .forgetting outcome) =>
      some { st.enter thread op (.returning (.ofOutcome outcome)) with
        loaded := st.loaded.erase op.modelId }
    | _ => none
  | .release thread =>
    match st.calls thread with
    | some (op, .returning answer) =>
      some { st.enter thread op (.answered answer) with controlOp := none }
    | _ => none
  | .post request => if isControl request then none else some { st with sent := request :: st.sent }
  | .arrive event =>
    -- the reader puts here what has no request id
    if routed event = none then
      some { st with control := st.control ++ [event], arrived := event :: st.arrived }
    else none
  | .hangUp => some { st with alive := false }

/-- What an enabled step finds and leaves. -/
inductive Stepped (name : Text) (st : ControlState τ F J) :
    Action τ F J → ControlState τ F J → Prop where
  | call (thread : τ) (op : Op)
      (hidle : ∀ op' stage, st.calls thread = some (op', stage) →
        ∃ answer, stage = .answered answer) :
      Stepped name st (.call thread op) (st.enter thread op op.start)
  | hit (thread : τ) (op : Op) (existing : LoadedModel)
      (hcall : st.calls thread = some (op, .called))
      (hlookup : st.loaded.lookup op.modelId = some existing) :
      Stepped name st (.look thread) (st.enter thread op (.answered (.loaded existing)))
  | miss (thread : τ) (op : Op) (hcall : st.calls thread = some (op, .called))
      (hlookup : st.loaded.lookup op.modelId = none) :
      Stepped name st (.look thread) (st.enter thread op .waiting)
  | lock (thread : τ) (op : Op) (hcall : st.calls thread = some (op, .waiting))
      (hfree : st.controlOp = none) :
      Stepped name st (.lock thread)
        { st.enter thread op op.entered with controlOp := some thread }
  | hitAgain (thread : τ) (op : Op) (existing : LoadedModel)
      (hcall : st.calls thread = some (op, .locked))
      (hlookup : st.loaded.lookup op.modelId = some existing) :
      Stepped name st (.lookAgain thread) (st.enter thread op (.returning (.loaded existing)))
  | missAgain (thread : τ) (op : Op) (hcall : st.calls thread = some (op, .locked))
      (hlookup : st.loaded.lookup op.modelId = none) :
      Stepped name st (.lookAgain thread) (st.enter thread op .sending)
  | accept (thread : τ) (op : Op) (hcall : st.calls thread = some (op, .sending))
      (halive : st.alive = true) :
      Stepped name st (.check thread) (st.enter thread op .writing)
  | refuse (thread : τ) (op : Op) (hcall : st.calls thread = some (op, .sending))
      (halive : st.alive = false) :
      Stepped name st (.check thread)
        (st.enter thread op (.returning (.failed (notRunningText name))))
  | write (thread : τ) (op : Op) (hcall : st.calls thread = some (op, .writing)) :
      Stepped name st (.write thread (.ok ()))
        { st.enter thread op .receiving with sent := op.request :: st.sent }
  | unwritten (thread : τ) (op : Op) (e : Text) (hcall : st.calls thread = some (op, .writing)) :
      Stepped name st (.write thread (.error e))
        (st.enter thread op (.returning (.failed (writingText name e))))
  | receive (thread : τ) (op : Op) (event : BackendEvent F) (rest : List (BackendEvent F))
      (hcall : st.calls thread = some (op, .receiving)) (hcontrol : st.control = event :: rest) :
      Stepped name st (.receive thread)
        { st.enter thread op (op.reply event) with control := rest }
  | expire (thread : τ) (op : Op) (hcall : st.calls thread = some (op, .receiving)) :
      Stepped name st (.expire thread) (st.enter thread op (op.expired name))
  | insert (thread : τ) (op : Op) (model : LoadedModel)
      (hcall : st.calls thread = some (op, .inserting model)) :
      Stepped name st (.insert thread)
        { st.enter thread op (.returning (.loaded model)) with
          loaded := st.loaded.insert model.modelId model }
  | forget (thread : τ) (op : Op) (outcome : Except Text Unit)
      (hcall : st.calls thread = some (op, .forgetting outcome)) :
      Stepped name st (.forget thread)
        { st.enter thread op (.returning (.ofOutcome outcome)) with
          loaded := st.loaded.erase op.modelId }
  | release (thread : τ) (op : Op) (answer : Answer)
      (hcall : st.calls thread = some (op, .returning answer)) :
      Stepped name st (.release thread)
        { st.enter thread op (.answered answer) with controlOp := none }
  | post (request : BackendRequest F J) (hother : isControl request = false) :
      Stepped name st (.post request) { st with sent := request :: st.sent }
  | arrive (event : BackendEvent F) (hrouted : routed event = none) :
      Stepped name st (.arrive event)
        { st with control := st.control ++ [event], arrived := event :: st.arrived }
  | hangUp : Stepped name st .hangUp { st with alive := false }

theorem stepped_of_controlStep {name : Text} {st next : ControlState τ F J} {a : Action τ F J}
    (hstep : controlStep name st a = some next) : Stepped name st a next := by
  cases a with
  | call thread op =>
    simp only [controlStep] at hstep
    split at hstep <;> simp only [Option.some.injEq, reduceCtorEq] at hstep
    · rename_i hcall
      exact hstep ▸ .call thread op (by simp [hcall])
    · rename_i op' answer hcall
      exact hstep ▸ .call thread op (by simp [hcall])
  | look thread =>
    simp only [controlStep] at hstep
    split at hstep
    case h_2 => simp at hstep
    rename_i op hcall
    split at hstep <;> simp only [Option.some.injEq] at hstep
    · rename_i existing hlookup
      exact hstep ▸ .hit thread op existing hcall hlookup
    · rename_i hlookup
      exact hstep ▸ .miss thread op hcall hlookup
  | lock thread =>
    simp only [controlStep] at hstep
    split at hstep <;> simp only [Option.some.injEq, reduceCtorEq] at hstep
    rename_i op hcall hfree
    exact hstep ▸ .lock thread op hcall hfree
  | lookAgain thread =>
    simp only [controlStep] at hstep
    split at hstep
    case h_2 => simp at hstep
    rename_i op hcall
    split at hstep <;> simp only [Option.some.injEq] at hstep
    · rename_i existing hlookup
      exact hstep ▸ .hitAgain thread op existing hcall hlookup
    · rename_i hlookup
      exact hstep ▸ .missAgain thread op hcall hlookup
  | check thread =>
    simp only [controlStep] at hstep
    split at hstep <;> simp only [Option.some.injEq, reduceCtorEq] at hstep
    rename_i op hcall
    cases halive : st.alive with
    | true =>
      rw [halive, if_pos rfl] at hstep
      exact hstep ▸ .accept thread op hcall halive
    | false =>
      rw [halive, if_neg Bool.false_ne_true] at hstep
      exact hstep ▸ .refuse thread op hcall halive
  | write thread result =>
    simp only [controlStep] at hstep
    split at hstep
    case h_2 => simp at hstep
    rename_i op hcall
    cases result with
    | ok =>
      simp only [Option.some.injEq] at hstep
      exact hstep ▸ .write thread op hcall
    | error e =>
      simp only [Option.some.injEq] at hstep
      exact hstep ▸ .unwritten thread op e hcall
  | receive thread =>
    simp only [controlStep] at hstep
    split at hstep <;> simp only [Option.some.injEq, reduceCtorEq] at hstep
    rename_i op event rest hcall hcontrol
    exact hstep ▸ .receive thread op event rest hcall hcontrol
  | expire thread =>
    simp only [controlStep] at hstep
    split at hstep <;> simp only [Option.some.injEq, reduceCtorEq] at hstep
    rename_i op hcall
    exact hstep ▸ .expire thread op hcall
  | insert thread =>
    simp only [controlStep] at hstep
    split at hstep <;> simp only [Option.some.injEq, reduceCtorEq] at hstep
    rename_i op model hcall
    exact hstep ▸ .insert thread op model hcall
  | forget thread =>
    simp only [controlStep] at hstep
    split at hstep <;> simp only [Option.some.injEq, reduceCtorEq] at hstep
    rename_i op outcome hcall
    exact hstep ▸ .forget thread op outcome hcall
  | release thread =>
    simp only [controlStep] at hstep
    split at hstep <;> simp only [Option.some.injEq, reduceCtorEq] at hstep
    rename_i op answer hcall
    exact hstep ▸ .release thread op answer hcall
  | post request =>
    simp only [controlStep] at hstep
    split at hstep <;> simp only [Option.some.injEq, reduceCtorEq] at hstep
    rename_i hother
    exact hstep ▸ .post request (by simpa using hother)
  | arrive event =>
    simp only [controlStep] at hstep
    split at hstep <;> simp only [Option.some.injEq, reduceCtorEq] at hstep
    rename_i hrouted
    exact hstep ▸ .arrive event hrouted
  | hangUp =>
    simp only [controlStep, Option.some.injEq] at hstep
    exact hstep ▸ .hangUp

/-! ### What the backend was last asked -/

/-- A `Load` or an `Unload` of the model. -/
def about (modelId : Text) : BackendRequest F J → Bool
  | .load m _ _ _ | .unload m => decide (m = modelId)
  | _ => false

def isLoad : BackendRequest F J → Bool
  | .load _ _ _ _ => true
  | _ => false

/-- Of the requests about the model the newest is a `Load`. -/
def lastIsLoad (modelId : Text) (sent : List (BackendRequest F J)) : Bool :=
  (sent.find? (about modelId)).any isLoad

theorem about_of_not_isControl {request : BackendRequest F J} (h : isControl request = false)
    (modelId : Text) : about modelId request = false := by
  cases request <;> simp_all [isControl, about]

theorem lastIsLoad_cons_of_not_about {modelId : Text} {request : BackendRequest F J}
    (h : about modelId request = false) (sent : List (BackendRequest F J)) :
    lastIsLoad modelId (request :: sent) = lastIsLoad modelId sent := by
  simp [lastIsLoad, h]

theorem lastIsLoad_cons_load (modelId path digest : Text) (nCtx : UInt32)
    (sent : List (BackendRequest F J)) :
    lastIsLoad modelId (.load modelId path digest nCtx :: sent) = true := by
  simp [lastIsLoad, about, isLoad]

theorem lastIsLoad_cons_request {op : Op} {modelId : Text} (h : op.modelId ≠ modelId)
    (sent : List (BackendRequest F J)) :
    lastIsLoad modelId (op.request :: sent) = lastIsLoad modelId sent := by
  apply lastIsLoad_cons_of_not_about
  cases op <;> simpa [Op.request, about, Op.modelId] using h

/-! ### Stages -/

/-- The thread has `control_op`. -/
def Stage.holding : Stage → Bool
  | called | waiting | answered _ => false
  | locked | sending | writing | receiving | inserting _ | forgetting _ | returning _ => true

/-- The values on their way into the map or to the caller. -/
def Stage.model? : Stage → Option LoadedModel
  | inserting model => some model
  | returning (.loaded model) | answered (.loaded model) => some model
  | _ => none

/-- A `load` that has asked and not inserted. -/
def awaitsLoad : Op → Stage → Bool
  | .load _ _ _ _, .receiving => true
  | _, .inserting _ => true
  | _, _ => false

/-- Between the sending of a request and the forgetting of its model. -/
def Stage.inFlight : Stage → Bool
  | receiving | forgetting _ => true
  | _ => false

/-- The request of an `unload` is out, or the call is over. -/
def Stage.asked : Stage → Bool
  | receiving | forgetting _ | returning _ | answered _ => true
  | called | waiting | locked | sending | writing | inserting _ => false

omit [DecidableEq τ] in
/-- The thread is in `unload` of the model, with its request sent and the model not
    forgotten. -/
def Unloading (st : ControlState τ F J) (thread : τ) (modelId : Text) : Prop :=
  ∃ stage, st.calls thread = some (.unload modelId, stage) ∧ stage.inFlight = true

/-- The backend has said this of the model. -/
def Told (arrived : List (BackendEvent F)) (modelId : Text) (model : LoadedModel) : Prop :=
  model.modelId = modelId ∧ .loaded modelId model.kvBytesPerToken model.nCtx ∈ arrived

theorem Told.cons {arrived : List (BackendEvent F)} {modelId : Text} {model : LoadedModel}
    (h : Told arrived modelId model) (event : BackendEvent F) :
    Told (event :: arrived) modelId model :=
  ⟨h.1, List.mem_cons_of_mem _ h.2⟩

theorem awaitsLoad_holding {op : Op} {stage : Stage} (h : awaitsLoad op stage = true) :
    stage.holding = true := by
  cases stage <;> cases op <;> simp_all [awaitsLoad, Stage.holding]

theorem Stage.model?_returning (outcome : Except Text Unit) :
    (returning (.ofOutcome outcome)).model? = none := by
  cases outcome <;> rfl

theorem Stage.model?_answered (answer : Answer) :
    (answered answer).model? = (returning answer).model? := by
  cases answer <;> rfl

theorem Op.start_holding (op : Op) : op.start.holding = false := by cases op <;> rfl

theorem Op.start_model? (op : Op) : op.start.model? = none := by cases op <;> rfl

theorem Op.awaitsLoad_entered (op : Op) : awaitsLoad op op.entered = false := by cases op <;> rfl

theorem Op.entered_model? (op : Op) : op.entered.model? = none := by cases op <;> rfl

theorem Op.expired_model? (name : Text) (op : Op) : (op.expired name).model? = none := by
  cases op <;> rfl

theorem Op.awaitsLoad_expired (name : Text) (op : Op) :
    awaitsLoad op (op.expired name) = false := by
  cases op <;> rfl

/-- What is taken from an event is what it says of the model asked for. -/
theorem Op.reply_model? {op : Op} {event : BackendEvent F} {model : LoadedModel}
    (h : model ∈ (op.reply event).model?) :
    model.modelId = op.modelId ∧
      event = .loaded op.modelId model.kvBytesPerToken model.nCtx := by
  rw [Option.mem_def] at h
  cases op with
  | load modelId path digest nCtx =>
    cases event with
    | loaded answered kvBytesPerToken n =>
      simp only [Op.reply] at h
      split at h
      · rename_i hanswered
        simp only [Stage.model?, Option.some.injEq] at h
        subst h hanswered
        exact ⟨rfl, rfl⟩
      · simp [Stage.model?] at h
    | _ => simp [Op.reply, Stage.model?] at h
  | unload modelId =>
    cases event with
    | unloaded answered =>
      simp only [Op.reply] at h
      split at h <;> simp [Stage.model?] at h
    | _ => simp [Op.reply, Stage.model?] at h

theorem Op.awaitsLoad_reply {op : Op} {event : BackendEvent F}
    (h : awaitsLoad op (op.reply event) = true) : awaitsLoad op .receiving = true := by
  cases op with
  | load modelId path digest nCtx => rfl
  | unload modelId =>
    cases event with
    | unloaded answered =>
      simp only [Op.reply] at h
      split at h <;> simp [awaitsLoad] at h
    | _ => simp [Op.reply, awaitsLoad] at h

theorem Op.reply_inFlight (modelId : Text) (event : BackendEvent F) :
    ((Op.unload modelId).reply event).inFlight = true := by
  cases event <;> first | rfl | (simp only [Op.reply]; split <;> rfl)

/-! ### The invariant -/

/-- What is true of a thread inside one of the two functions. -/
structure CallOk (st : ControlState τ F J) (thread : τ) (op : Op) (stage : Stage) : Prop where
  holds : stage.holding = true → st.controlOp = some thread
  told : ∀ model ∈ stage.model?, Told st.arrived op.modelId model
  asked : awaitsLoad op stage = true → lastIsLoad op.modelId st.sent = true

structure ControlInv (st : ControlState τ F J) : Prop where
  calls : ∀ thread op stage, st.calls thread = some (op, stage) → CallOk st thread op stage
  loaded : ∀ modelId model, st.loaded.lookup modelId = some model → Told st.arrived modelId model
  control : ∀ event ∈ st.control, event ∈ st.arrived
  inStep : ∀ modelId model, st.loaded.lookup modelId = some model →
    (∀ thread, ¬ Unloading st thread modelId) → lastIsLoad modelId st.sent = true

omit [DecidableEq τ] in
theorem controlInv_new : ControlInv (ControlState.new : ControlState τ F J) where
  calls := by simp [ControlState.new]
  loaded := by simp [ControlState.new]
  control := by simp [ControlState.new]
  inStep := by simp [ControlState.new]

variable {st : ControlState τ F J} {thread : τ} {op : Op} {stage : Stage}

omit [DecidableEq τ] in
/-- Only one thread has the lock. -/
theorem ControlInv.unique (h : ControlInv st) (hcall : st.calls thread = some (op, stage))
    (hstage : stage.holding = true) {other : τ} {op' : Op} {stage' : Stage}
    (hcall' : st.calls other = some (op', stage')) (hstage' : stage'.holding = true) :
    other = thread := by
  have hheld := (h.calls _ _ _ hcall).holds hstage
  have hheld' := (h.calls _ _ _ hcall').holds hstage'
  rw [hheld] at hheld'
  exact (Option.some.inj hheld').symm

@[simp] theorem enter_calls_self : (st.enter thread op stage).calls thread = some (op, stage) := by
  simp [ControlState.enter]

theorem enter_calls_of_ne {other : τ} (h : other ≠ thread) :
    (st.enter thread op stage).calls other = st.calls other := by
  simp [ControlState.enter, h]

theorem calls_of_enter {other : τ} {op' : Op} {stage' : Stage}
    (h : (st.enter thread op stage).calls other = some (op', stage')) :
    (other = thread ∧ op' = op ∧ stage' = stage) ∨
      (other ≠ thread ∧ st.calls other = some (op', stage')) := by
  rcases eq_or_ne other thread with rfl | hne
  · rw [enter_calls_self, Option.some.injEq, Prod.mk.injEq] at h
    exact .inl ⟨rfl, h.1.symm, h.2.symm⟩
  · rw [enter_calls_of_ne hne] at h
    exact .inr ⟨hne, h⟩

omit [DecidableEq τ] in
/-- A thread that is not inside an `unload` with its request out leaves none. -/
theorem not_unloading (hcall : st.calls thread = some (op, stage))
    (hflight : stage.inFlight = false)
    (modelId : Text) : ¬ Unloading st thread modelId := by
  rintro ⟨stage', hcall', hflight'⟩
  rw [hcall, Option.some.injEq, Prod.mk.injEq] at hcall'
  rw [← hcall'.2, hflight] at hflight'
  cases hflight'

/-- Every other thread is where it was. -/
theorem unloading_enter {other : τ} {modelId : Text}
    (hleave : Unloading st thread modelId → Unloading (st.enter thread op stage) thread modelId)
    (h : Unloading st other modelId) : Unloading (st.enter thread op stage) other modelId := by
  rcases eq_or_ne other thread with rfl | hne
  · exact hleave h
  · obtain ⟨stage', hcall, hflight⟩ := h
    exact ⟨stage', (enter_calls_of_ne hne).trans hcall, hflight⟩

/-- Nor is a thread left that was not unloading. -/
theorem unloading_enter_of_not {other : τ} {modelId : Text}
    (hthread : ¬ Unloading st thread modelId) (h : Unloading st other modelId) :
    Unloading (st.enter thread op stage) other modelId :=
  unloading_enter (fun hunloading => absurd hunloading hthread) h

/-- A thread that moves on keeps the invariant if what is true of it is true where it
    arrives, and if it does not leave an `unload` with the model still in the map. -/
theorem ControlInv.enter (h : ControlInv st) (hok : CallOk st thread op stage)
    (hleave : ∀ modelId, Unloading st thread modelId →
    Unloading (st.enter thread op stage) thread modelId) :
    ControlInv (st.enter thread op stage) where
  calls other op' stage' hcall := by
    rcases calls_of_enter hcall with ⟨rfl, rfl, rfl⟩ | ⟨-, hcall⟩
    · exact ⟨hok.holds, hok.told, hok.asked⟩
    · have hother := h.calls other op' stage' hcall
      exact ⟨hother.holds, hother.told, hother.asked⟩
  loaded := h.loaded
  control := h.control
  inStep modelId model hlookup hnone := by
    refine h.inStep modelId model hlookup fun other hunloading => ?_
    exact hnone other (unloading_enter (hleave modelId) hunloading)

/-- The lock is free and no thread is inside. -/
theorem ControlInv.lock (h : ControlInv st) (hcall : st.calls thread = some (op, .waiting))
    (hfree : st.controlOp = none) :
    ControlInv { st.enter thread op op.entered with controlOp := some thread } where
  calls other op' stage' hcall' := by
    rcases calls_of_enter hcall' with ⟨rfl, rfl, rfl⟩ | ⟨hne, hcall'⟩
    · refine ⟨fun _ => rfl, ?_, ?_⟩
      · simp [Op.entered_model?]
      · simp [Op.awaitsLoad_entered]
    · have hother := h.calls other op' stage' hcall'
      refine ⟨fun hstage => ?_, hother.told, hother.asked⟩
      have hheld := hother.holds hstage
      rw [hfree] at hheld
      cases hheld
  loaded := h.loaded
  control := h.control
  inStep modelId model hlookup hnone := by
    refine h.inStep modelId model hlookup fun other hunloading => hnone other ?_
    exact unloading_enter_of_not (not_unloading hcall rfl modelId) hunloading

/-- The request goes out under the lock, so no other operation is waiting for an
    answer then. -/
theorem ControlInv.write (h : ControlInv st) (hcall : st.calls thread = some (op, .writing)) :
    ControlInv { st.enter thread op .receiving with sent := op.request :: st.sent } where
  calls other op' stage' hcall' := by
    rcases calls_of_enter hcall' with ⟨rfl, rfl, rfl⟩ | ⟨hne, hcall'⟩
    · refine ⟨fun _ => (h.calls _ _ _ hcall).holds rfl, by simp [Stage.model?], fun hawaits => ?_⟩
      cases op' with
      | load modelId path digest nCtx => exact lastIsLoad_cons_load ..
      | unload modelId => simp [awaitsLoad] at hawaits
    · have hother := h.calls other op' stage' hcall'
      refine ⟨hother.holds, hother.told, fun hawaits => absurd ?_ hne⟩
      exact h.unique hcall rfl hcall' (awaitsLoad_holding hawaits)
  loaded := h.loaded
  control := h.control
  inStep modelId model hlookup hnone := by
    rcases eq_or_ne op.modelId modelId with rfl | hne
    · cases op with
      | load modelId path digest nCtx => exact lastIsLoad_cons_load ..
      | unload modelId => exact absurd ⟨.receiving, enter_calls_self, rfl⟩ (hnone thread)
    · have hsent := lastIsLoad_cons_request hne st.sent
      refine hsent.trans (h.inStep modelId model hlookup fun other hunloading => hnone other ?_)
      exact unloading_enter_of_not (not_unloading hcall rfl modelId) hunloading

theorem ControlInv.receive (h : ControlInv st) (hcall : st.calls thread = some (op, .receiving))
    {event : BackendEvent F} {rest : List (BackendEvent F)}
    (hcontrol : st.control = event :: rest) :
    ControlInv { st.enter thread op (op.reply event) with control := rest } := by
  have hcallOk := h.calls _ _ _ hcall
  have harrived : event ∈ st.arrived := h.control event (by simp [hcontrol])
  have hok : CallOk st thread op (op.reply event) := by
    refine ⟨fun _ => hcallOk.holds rfl, fun model hmodel => ?_, fun hawaits => ?_⟩
    · obtain ⟨hid, hevent⟩ := Op.reply_model? hmodel
      exact ⟨hid, hevent ▸ harrived⟩
    · exact hcallOk.asked (Op.awaitsLoad_reply hawaits)
  have hleave : ∀ modelId, Unloading st thread modelId →
      Unloading (st.enter thread op (op.reply event)) thread modelId := by
    rintro modelId ⟨stage, hcall', -⟩
    rw [hcall, Option.some.injEq, Prod.mk.injEq] at hcall'
    obtain ⟨rfl, -⟩ := hcall'
    exact ⟨_, enter_calls_self, Op.reply_inFlight modelId event⟩
  have hinv := h.enter hok hleave
  refine ⟨fun other op' stage' hcall' => ?_, hinv.loaded, fun e he => ?_, hinv.inStep⟩
  · have hother := hinv.calls other op' stage' hcall'
    exact ⟨hother.holds, hother.told, hother.asked⟩
  · exact h.control e (by simp [hcontrol, he])

theorem ControlInv.expire (h : ControlInv st) (hcall : st.calls thread = some (op, .receiving))
    (name : Text) : ControlInv (st.enter thread op (op.expired name)) := by
  apply h.enter
  · refine ⟨fun _ => (h.calls _ _ _ hcall).holds rfl, ?_, ?_⟩
    · simp [Op.expired_model?]
    · simp [Op.awaitsLoad_expired]
  · rintro modelId ⟨stage, hcall', -⟩
    rw [hcall, Option.some.injEq, Prod.mk.injEq] at hcall'
    obtain ⟨rfl, -⟩ := hcall'
    exact ⟨_, enter_calls_self, rfl⟩

/-- The values inserted are those of the `Loaded` that answered the last request. -/
theorem ControlInv.insert (h : ControlInv st) {model : LoadedModel}
    (hcall : st.calls thread = some (op, .inserting model)) :
    ControlInv { st.enter thread op (.returning (.loaded model)) with
      loaded := st.loaded.insert model.modelId model } := by
  have hcallOk := h.calls _ _ _ hcall
  have htold : Told st.arrived op.modelId model := hcallOk.told model rfl
  have hasked : lastIsLoad op.modelId st.sent = true := hcallOk.asked (by cases op <;> rfl)
  have hinv : ControlInv (st.enter thread op (.returning (.loaded model))) := by
    apply h.enter
    · refine ⟨fun _ => hcallOk.holds rfl, fun v hv => ?_, fun hawaits => ?_⟩
      · cases hv
        exact htold
      · cases op <;> simp [awaitsLoad] at hawaits
    · intro modelId hunloading
      exact absurd hunloading (not_unloading hcall rfl modelId)
  refine ⟨fun other op' stage' hcall' => ?_, fun modelId v hlookup => ?_, hinv.control,
    fun modelId v hlookup hnone => ?_⟩
  · have hother := hinv.calls other op' stage' hcall'
    exact ⟨hother.holds, hother.told, hother.asked⟩
  all_goals
    rw [htold.1] at hlookup
    rcases eq_or_ne modelId op.modelId with rfl | hne
  · rw [AList.lookup_insert, Option.some.injEq] at hlookup
    exact hlookup ▸ htold
  · rw [AList.lookup_insert_ne hne] at hlookup
    exact hinv.loaded modelId v hlookup
  · exact hasked
  · rw [AList.lookup_insert_ne hne] at hlookup
    exact hinv.inStep modelId v hlookup hnone

/-- Once the model is out of the map its `unload` owes it nothing. -/
theorem ControlInv.forget (h : ControlInv st) {outcome : Except Text Unit}
    (hcall : st.calls thread = some (op, .forgetting outcome)) :
    ControlInv { st.enter thread op (.returning (.ofOutcome outcome)) with
      loaded := st.loaded.erase op.modelId } where
  calls other op' stage' hcall' := by
    rcases calls_of_enter hcall' with ⟨rfl, rfl, rfl⟩ | ⟨hne, hcall'⟩
    · refine ⟨fun _ => (h.calls _ _ _ hcall).holds rfl, ?_, fun hawaits => ?_⟩
      · simp [Stage.model?_returning]
      · cases op' <;> simp [awaitsLoad] at hawaits
    · have hother := h.calls other op' stage' hcall'
      exact ⟨hother.holds, hother.told, hother.asked⟩
  loaded modelId model hlookup := by
    rcases eq_or_ne modelId op.modelId with rfl | hne
    · simp [AList.lookup_erase] at hlookup
    · rw [AList.lookup_erase_ne hne] at hlookup
      exact h.loaded modelId model hlookup
  control := h.control
  inStep modelId model hlookup hnone := by
    rcases eq_or_ne modelId op.modelId with rfl | hne
    · simp [AList.lookup_erase] at hlookup
    · rw [AList.lookup_erase_ne hne] at hlookup
      refine h.inStep modelId model hlookup fun other hunloading => hnone other ?_
      refine unloading_enter ?_ hunloading
      rintro ⟨stage', hcall', -⟩
      rw [hcall, Option.some.injEq, Prod.mk.injEq] at hcall'
      exact absurd (congrArg Op.modelId hcall'.1).symm hne

theorem ControlInv.release (h : ControlInv st) {answer : Answer}
    (hcall : st.calls thread = some (op, .returning answer)) :
    ControlInv { st.enter thread op (.answered answer) with controlOp := none } where
  calls other op' stage' hcall' := by
    rcases calls_of_enter hcall' with ⟨rfl, rfl, rfl⟩ | ⟨hne, hcall'⟩
    · have hcallOk := h.calls _ _ _ hcall
      refine ⟨by simp [Stage.holding], fun model hmodel => hcallOk.told model ?_, fun hawaits => ?_⟩
      · rwa [Stage.model?_answered] at hmodel
      · cases op' <;> simp [awaitsLoad] at hawaits
    · have hother := h.calls other op' stage' hcall'
      refine ⟨fun hstage => absurd ?_ hne, hother.told, hother.asked⟩
      exact h.unique hcall rfl hcall' hstage
  loaded := h.loaded
  control := h.control
  inStep modelId model hlookup hnone := by
    refine h.inStep modelId model hlookup fun other hunloading => hnone other ?_
    exact unloading_enter_of_not (not_unloading hcall rfl modelId) hunloading

omit [DecidableEq τ] in
theorem ControlInv.post (h : ControlInv st) {request : BackendRequest F J}
    (hother : isControl request = false) :
    ControlInv { st with sent := request :: st.sent } where
  calls other op' stage' hcall' := by
    have hcallOk := h.calls other op' stage' hcall'
    refine ⟨hcallOk.holds, hcallOk.told, fun hawaits => ?_⟩
    rw [lastIsLoad_cons_of_not_about (about_of_not_isControl hother _)]
    exact hcallOk.asked hawaits
  loaded := h.loaded
  control := h.control
  inStep modelId model hlookup hnone := by
    rw [lastIsLoad_cons_of_not_about (about_of_not_isControl hother _)]
    exact h.inStep modelId model hlookup hnone

omit [DecidableEq τ] in
theorem ControlInv.arrive (h : ControlInv st) (event : BackendEvent F) :
    ControlInv { st with control := st.control ++ [event], arrived := event :: st.arrived } where
  calls other op' stage' hcall' := by
    have hcallOk := h.calls other op' stage' hcall'
    exact ⟨hcallOk.holds, fun model hmodel => (hcallOk.told model hmodel).cons event, hcallOk.asked⟩
  loaded modelId model hlookup := (h.loaded modelId model hlookup).cons event
  control e he := by
    rcases List.mem_append.mp he with hold | hnew
    · exact List.mem_cons_of_mem _ (h.control e hold)
    · simp [List.mem_singleton.mp hnew]
  inStep := h.inStep

omit [DecidableEq τ] in
theorem ControlInv.hangUp (h : ControlInv st) : ControlInv { st with alive := false } where
  calls other op' stage' hcall' := by
    have hcallOk := h.calls other op' stage' hcall'
    exact ⟨hcallOk.holds, hcallOk.told, hcallOk.asked⟩
  loaded := h.loaded
  control := h.control
  inStep := h.inStep

/-- A thread that does not hold the lock afterwards, or held it before, moves on with
    nothing in hand but what the map holds. -/
theorem ControlInv.move (h : ControlInv st)
    (hleft : ∀ modelId, ¬ Unloading st thread modelId)
    (hholds : stage.holding = true → st.controlOp = some thread)
    (htold : ∀ model ∈ stage.model?, st.loaded.lookup op.modelId = some model)
    (hasks : awaitsLoad op stage = false) : ControlInv (st.enter thread op stage) := by
  apply h.enter
  · refine ⟨hholds, fun model hmodel => h.loaded _ _ (htold model hmodel), fun hawaits => ?_⟩
    rw [hasks] at hawaits
    cases hawaits
  · intro modelId hunloading
    exact absurd hunloading (hleft modelId)

/-- Every step keeps the invariant. -/
theorem controlStep_inv {name : Text} {next : ControlState τ F J} {a : Action τ F J}
    (h : ControlInv st) (hstep : controlStep name st a = some next) : ControlInv next := by
  cases stepped_of_controlStep hstep with
  | call thread op hidle =>
    apply h.move
    · rintro modelId ⟨stage, hcall, hflight⟩
      obtain ⟨answer, rfl⟩ := hidle _ _ hcall
      cases hflight
    · simp [Op.start_holding]
    · simp [Op.start_model?]
    · cases op <;> rfl
  | hit thread op existing hcall hlookup =>
    apply h.move (not_unloading hcall rfl)
    · simp [Stage.holding]
    · intro model hmodel
      cases hmodel
      exact hlookup
    · cases op <;> rfl
  | miss thread op hcall hlookup =>
    apply h.move (not_unloading hcall rfl)
    · simp [Stage.holding]
    · simp [Stage.model?]
    · cases op <;> rfl
  | lock thread op hcall hfree => exact h.lock hcall hfree
  | hitAgain thread op existing hcall hlookup =>
    apply h.move (not_unloading hcall rfl)
    · exact fun _ => (h.calls _ _ _ hcall).holds rfl
    · intro model hmodel
      cases hmodel
      exact hlookup
    · cases op <;> rfl
  | missAgain thread op hcall hlookup =>
    apply h.move (not_unloading hcall rfl)
    · exact fun _ => (h.calls _ _ _ hcall).holds rfl
    · simp [Stage.model?]
    · cases op <;> rfl
  | accept thread op hcall halive =>
    apply h.move (not_unloading hcall rfl)
    · exact fun _ => (h.calls _ _ _ hcall).holds rfl
    · simp [Stage.model?]
    · cases op <;> rfl
  | refuse thread op hcall halive =>
    apply h.move (not_unloading hcall rfl)
    · exact fun _ => (h.calls _ _ _ hcall).holds rfl
    · simp [Stage.model?]
    · cases op <;> rfl
  | write thread op hcall => exact h.write hcall
  | unwritten thread op e hcall =>
    apply h.move (not_unloading hcall rfl)
    · exact fun _ => (h.calls _ _ _ hcall).holds rfl
    · simp [Stage.model?]
    · cases op <;> rfl
  | receive thread op event rest hcall hcontrol => exact h.receive hcall hcontrol
  | expire thread op hcall => exact h.expire hcall name
  | insert thread op model hcall => exact h.insert hcall
  | forget thread op outcome hcall => exact h.forget hcall
  | release thread op answer hcall => exact h.release hcall
  | post request hother => exact h.post hother
  | arrive event hrouted => exact h.arrive event
  | hangUp => exact h.hangUp

theorem run_inv {name : Text} {as : List (Action τ F J)} {next : ControlState τ F J}
    (h : ControlInv st) (hrun : runs (controlStep name) st as = some next) : ControlInv next :=
  runs_invariant (controlStep name) (fun _ _ _ hinv hstep => controlStep_inv hinv hstep) h hrun

/-! ### After an unload -/

/-- How many `Load`s of the model have been sent. -/
def loads (modelId : Text) (sent : List (BackendRequest F J)) : Nat :=
  sent.countP fun request => isLoad request && about modelId request

/-- The model is not in the map, and no `load` of it waits to put it there. -/
structure Absent (st : ControlState τ F J) (modelId : Text) : Prop where
  forgotten : st.loaded.lookup modelId = none
  unasked : ∀ thread op stage, st.calls thread = some (op, stage) →
    awaitsLoad op stage = true → op.modelId ≠ modelId

/-- From there the model comes back only after another `Load` of it. -/
structure AbsentSince (n : Nat) (modelId : Text) (st : ControlState τ F J) : Prop where
  sound : ControlInv st
  grown : n ≤ loads modelId st.sent
  absent : loads modelId st.sent = n → Absent st modelId

theorem loads_cons (modelId : Text) (request : BackendRequest F J)
    (sent : List (BackendRequest F J)) :
    loads modelId sent ≤ loads modelId (request :: sent) := by
  rw [loads, loads, List.countP_cons]
  exact Nat.le_add_right _ _

theorem loads_cons_load (modelId path digest : Text) (nCtx : UInt32)
    (sent : List (BackendRequest F J)) :
    loads modelId (.load modelId path digest nCtx :: sent) = loads modelId sent + 1 := by
  simp [loads, isLoad, about]

variable {modelId : Text}

theorem Absent.enter (h : Absent st modelId)
    (hasks : awaitsLoad op stage = true → op.modelId ≠ modelId) :
    Absent (st.enter thread op stage) modelId where
  forgotten := h.forgotten
  unasked other op' stage' hcall hawaits := by
    rcases eq_or_ne other thread with rfl | hne
    · rw [enter_calls_self, Option.some.injEq, Prod.mk.injEq] at hcall
      obtain ⟨rfl, rfl⟩ := hcall
      exact hasks hawaits
    · rw [enter_calls_of_ne hne] at hcall
      exact h.unasked other op' stage' hcall hawaits

/-- A step that sends no `Load` of the model leaves it absent. -/
theorem Absent.step {name : Text} {next : ControlState τ F J} {a : Action τ F J}
    (h : Absent st modelId) (hinv : ControlInv st) (hstep : controlStep name st a = some next)
    (hloads : loads modelId next.sent = loads modelId st.sent) : Absent next modelId := by
  have idle : ∀ {op : Op} {stage : Stage}, awaitsLoad op stage = false →
      awaitsLoad op stage = true → op.modelId ≠ modelId := by
    intro op stage hfalse htrue
    rw [hfalse] at htrue
    cases htrue
  cases stepped_of_controlStep hstep with
  | call thread op hidle => exact h.enter (idle (by cases op <;> rfl))
  | hit thread op existing hcall hlookup => exact h.enter (idle (by cases op <;> rfl))
  | miss thread op hcall hlookup => exact h.enter (idle (by cases op <;> rfl))
  | lock thread op hcall hfree =>
    have hmoved : Absent (st.enter thread op op.entered) modelId :=
      h.enter (idle op.awaitsLoad_entered)
    exact ⟨hmoved.forgotten, hmoved.unasked⟩
  | hitAgain thread op existing hcall hlookup => exact h.enter (idle (by cases op <;> rfl))
  | missAgain thread op hcall hlookup => exact h.enter (idle (by cases op <;> rfl))
  | accept thread op hcall halive => exact h.enter (idle (by cases op <;> rfl))
  | refuse thread op hcall halive => exact h.enter (idle (by cases op <;> rfl))
  | write thread op hcall =>
    have hasks : awaitsLoad op .receiving = true → op.modelId ≠ modelId := by
      rintro hawaits rfl
      cases op with
      | load m path digest nCtx =>
        have hmore := loads_cons_load m path digest nCtx st.sent
        exact absurd (hmore.symm.trans hloads) (Nat.succ_ne_self _)
      | unload m => cases hawaits
    have hmoved : Absent (st.enter thread op .receiving) modelId := h.enter hasks
    exact ⟨hmoved.forgotten, hmoved.unasked⟩
  | unwritten thread op e hcall => exact h.enter (idle (by cases op <;> rfl))
  | receive thread op event rest hcall hcontrol =>
    have hmoved : Absent (st.enter thread op (op.reply event)) modelId :=
      h.enter fun hawaits => h.unasked _ _ _ hcall (Op.awaitsLoad_reply hawaits)
    exact ⟨hmoved.forgotten, hmoved.unasked⟩
  | expire thread op hcall => exact h.enter (idle (op.awaitsLoad_expired name))
  | insert thread op model hcall =>
    have hne : op.modelId ≠ modelId := h.unasked _ _ _ hcall (by cases op <;> rfl)
    have hid : model.modelId = op.modelId := ((hinv.calls _ _ _ hcall).told model rfl).1
    have hmoved : Absent (st.enter thread op (.returning (.loaded model))) modelId :=
      h.enter (idle (by cases op <;> rfl))
    refine ⟨?_, hmoved.unasked⟩
    rw [← h.forgotten]
    exact AList.lookup_insert_ne (hid ▸ hne.symm)
  | forget thread op outcome hcall =>
    have hmoved : Absent (st.enter thread op (.returning (.ofOutcome outcome))) modelId :=
      h.enter (idle (by cases op <;> rfl))
    refine ⟨?_, hmoved.unasked⟩
    rcases eq_or_ne modelId op.modelId with rfl | hne
    · exact AList.lookup_erase ..
    · exact (AList.lookup_erase_ne hne).trans h.forgotten
  | release thread op answer hcall =>
    have hmoved : Absent (st.enter thread op (.answered answer)) modelId :=
      h.enter (idle (by cases op <;> rfl))
    exact ⟨hmoved.forgotten, hmoved.unasked⟩
  | post request hother => exact ⟨h.forgotten, h.unasked⟩
  | arrive event hrouted => exact ⟨h.forgotten, h.unasked⟩
  | hangUp => exact ⟨h.forgotten, h.unasked⟩

/-- The log of requests only grows. -/
theorem controlStep_loads {name : Text} {next : ControlState τ F J} {a : Action τ F J}
    (hstep : controlStep name st a = some next) (modelId : Text) :
    loads modelId st.sent ≤ loads modelId next.sent := by
  cases stepped_of_controlStep hstep with
  | write thread op hcall => exact loads_cons ..
  | post request hother => exact loads_cons ..
  | _ => exact le_refl _

theorem absentSince_step {name : Text} {next : ControlState τ F J} {a : Action τ F J} {n : Nat}
    (h : AbsentSince n modelId st) (hstep : controlStep name st a = some next) :
    AbsentSince n modelId next where
  sound := controlStep_inv h.sound hstep
  grown := h.grown.trans (controlStep_loads hstep modelId)
  absent hn := by
    have hle := controlStep_loads hstep modelId
    have hsame : loads modelId st.sent = n := le_antisymm (hn ▸ hle) h.grown
    exact (h.absent hsame).step h.sound hstep (hn.trans hsame.symm)

/-- The thread is in `unload` of the model, has sent its request, and when it comes
    out of it the model is not in the map. -/
def Forgets (thread : τ) (modelId : Text) (st : ControlState τ F J) : Prop :=
  ∃ stage, st.calls thread = some (.unload modelId, stage) ∧
    (stage.inFlight = true ∨ (∃ answer, stage = .answered answer) ∨
      ∃ answer, stage = .returning answer ∧ st.loaded.lookup modelId = none)

/-- What another thread does is no business of this one's, unless it puts the model
    back. -/
theorem Forgets.enter (h : Forgets thread modelId st) {other : τ} (hne : thread ≠ other) (op : Op)
    (stage : Stage) : Forgets thread modelId (st.enter other op stage) := by
  obtain ⟨stage', hcall, hrest⟩ := h
  exact ⟨stage', (enter_calls_of_ne hne).trans hcall, hrest⟩

omit [DecidableEq τ] in
theorem Forgets.congr {next : ControlState τ F J} (h : Forgets thread modelId st)
    (hcalls : next.calls thread = st.calls thread)
    (hlookup : st.loaded.lookup modelId = none → next.loaded.lookup modelId = none) :
    Forgets thread modelId next := by
  obtain ⟨stage, hcall, hrest⟩ := h
  refine ⟨stage, hcalls.trans hcall, hrest.imp_right (Or.imp_right ?_)⟩
  rintro ⟨answer, hreturning, hnone⟩
  exact ⟨answer, hreturning, hlookup hnone⟩

omit [DecidableEq τ] in
/-- The thread itself is where it is, so of its own steps only those of that stage
    can be taken. -/
theorem Forgets.stage_of_self (h : Forgets thread modelId st)
    (hcall : st.calls thread = some (op, stage)) :
    op = .unload modelId ∧ (stage.inFlight = true ∨ (∃ answer, stage = .answered answer) ∨
      ∃ answer, stage = .returning answer ∧ st.loaded.lookup modelId = none) := by
  obtain ⟨stage', hcall', hrest⟩ := h
  rw [hcall, Option.some.injEq, Prod.mk.injEq] at hcall'
  obtain ⟨rfl, rfl⟩ := hcall'
  exact ⟨rfl, hrest⟩

omit [DecidableEq τ] in
/-- A thread at a stage before its request is another one. -/
theorem Forgets.ne (h : Forgets thread modelId st) {other : τ}
    (hcall : st.calls other = some (op, stage)) (hbefore : stage.asked = false) :
    thread ≠ other := by
  rintro rfl
  rcases (h.stage_of_self hcall).2 with hflight | ⟨answer, rfl⟩ | ⟨answer, rfl, -⟩
  · cases stage <;> simp_all [Stage.inFlight, Stage.asked]
  · cases hbefore
  · cases hbefore

theorem forgets_step {name : Text} {next : ControlState τ F J} {a : Action τ F J}
    (hinv : ControlInv st) (h : Forgets thread modelId st) (hcalls : ∀ op, a ≠ .call thread op)
    (hstep : controlStep name st a = some next) : Forgets thread modelId next := by
  cases stepped_of_controlStep hstep with
  | call other op hidle =>
    apply h.enter
    rintro rfl
    exact hcalls op rfl
  | hit other op existing hcall hlookup =>
    apply h.enter
    exact h.ne hcall rfl
  | miss other op hcall hlookup =>
    apply h.enter
    exact h.ne hcall rfl
  | lock other op hcall hfree =>
    have hne := h.ne hcall rfl
    exact (h.enter hne op op.entered).congr rfl id
  | hitAgain other op existing hcall hlookup =>
    apply h.enter
    exact h.ne hcall rfl
  | missAgain other op hcall hlookup =>
    apply h.enter
    exact h.ne hcall rfl
  | accept other op hcall halive =>
    apply h.enter
    exact h.ne hcall rfl
  | refuse other op hcall halive =>
    apply h.enter
    exact h.ne hcall rfl
  | write other op hcall =>
    have hne := h.ne hcall rfl
    exact (h.enter hne op .receiving).congr rfl id
  | unwritten other op e hcall =>
    apply h.enter
    exact h.ne hcall rfl
  | receive other op event rest hcall hcontrol =>
    rcases eq_or_ne thread other with rfl | hne
    · obtain ⟨rfl, -⟩ := h.stage_of_self hcall
      exact ⟨_, enter_calls_self, .inl (Op.reply_inFlight modelId event)⟩
    · exact (h.enter hne op (op.reply event)).congr rfl id
  | expire other op hcall =>
    rcases eq_or_ne thread other with rfl | hne
    · obtain ⟨rfl, -⟩ := h.stage_of_self hcall
      exact ⟨_, enter_calls_self, .inl rfl⟩
    · exact h.enter hne ..
  | insert other op model hcall =>
    -- the lock is in one hand only, so the thread is not about to return
    have hne := h.ne hcall rfl
    obtain ⟨stage, hcall', hrest⟩ := h
    refine ⟨stage, (enter_calls_of_ne hne).trans hcall', ?_⟩
    rcases hrest with hflight | hanswered | ⟨answer, rfl, -⟩
    · exact .inl hflight
    · exact .inr (.inl hanswered)
    · exact absurd (hinv.unique hcall rfl hcall' rfl) hne
  | forget other op outcome hcall =>
    rcases eq_or_ne thread other with rfl | hne
    · obtain ⟨rfl, -⟩ := h.stage_of_self hcall
      exact ⟨_, enter_calls_self, .inr (.inr ⟨_, rfl, AList.lookup_erase ..⟩)⟩
    · refine (h.enter hne op (.returning (.ofOutcome outcome))).congr rfl fun hnone => ?_
      rcases eq_or_ne modelId op.modelId with rfl | hother
      · exact AList.lookup_erase ..
      · exact (AList.lookup_erase_ne hother).trans hnone
  | release other op answer hcall =>
    rcases eq_or_ne thread other with rfl | hne
    · obtain ⟨rfl, -⟩ := h.stage_of_self hcall
      exact ⟨_, enter_calls_self, .inr (.inl ⟨answer, rfl⟩)⟩
    · exact (h.enter hne op (.answered answer)).congr rfl id
  | post request hother => exact h.congr rfl id
  | arrive event hrouted => exact h.congr rfl id
  | hangUp => exact h.congr rfl id

theorem forgets_run {name : Text} {as : List (Action τ F J)} {next : ControlState τ F J}
    (hinv : ControlInv st) (h : Forgets thread modelId st) (hcalls : ∀ op, .call thread op ∉ as)
    (hrun : runs (controlStep name) st as = some next) : Forgets thread modelId next := by
  have hrunning := runs_invariant_along (controlStep name)
    (P := fun s => ControlInv s ∧ Forgets thread modelId s)
    (C := fun _ a => ∀ op, a ≠ .call thread op)
    (fun s a s' hs hC hstep => ⟨controlStep_inv hs.1 hstep, forgets_step hs.1 hs.2 hC hstep⟩)
    ⟨hinv, h⟩ ?_ hrun
  · exact hrunning.2
  · apply along_of_forall
    rintro a ha op rfl
    exact hcalls op ha

/-- When `unload` returns, nobody is about to put the model back. -/
theorem Forgets.absentSince (h : Forgets thread modelId st) (hinv : ControlInv st) {answer : Answer}
    (hcall : st.calls thread = some (op, .returning answer)) :
    AbsentSince (loads modelId st.sent) modelId
      { st.enter thread op (.answered answer) with controlOp := none } where
  sound := hinv.release hcall
  grown := le_refl _
  absent _ := by
    have hnone : st.loaded.lookup modelId = none := by
      rcases (h.stage_of_self hcall).2 with hflight | ⟨answer, hanswered⟩ | ⟨answer, -, hnone⟩
      · cases hflight
      · cases hanswered
      · exact hnone
    refine ⟨hnone, fun other op' stage' hcall' hawaits => ?_⟩
    rcases eq_or_ne other thread with rfl | hne
    · rw [enter_calls_self, Option.some.injEq, Prod.mk.injEq] at hcall'
      obtain ⟨rfl, rfl⟩ := hcall'
      cases op <;> cases hawaits
    · rw [enter_calls_of_ne hne] at hcall'
      exact absurd (hinv.unique hcall rfl hcall' (awaitsLoad_holding hawaits)) hne

/-! ### What one step does to the calls and to the requests -/

/-- `load` has its model, whether or not it has let go of the lock. -/
def Stage.settled : Stage → Bool
  | returning (.loaded _) | answered (.loaded _) => true
  | _ => false

theorem Op.reply_settled (op : Op) (event : BackendEvent F) : (op.reply event).settled = false := by
  cases op <;> cases event <;> first | rfl | (simp only [Op.reply]; split <;> rfl)

omit [DecidableEq τ] in
/-- Under the lock no other thread has a model on its way out. -/
theorem ControlInv.not_unloading (h : ControlInv st) (hcall : st.calls thread = some (op, stage))
    (hholds : stage.holding = true) (hflight : stage.inFlight = false) (other : τ)
    (modelId : Text) :
    ¬ Unloading st other modelId := by
  rintro ⟨stage', hcall', hflight'⟩
  have hholds' :
    stage'.holding = true := by cases stage' <;> simp_all [Stage.inFlight, Stage.holding]
  obtain rfl := h.unique hcall hholds hcall' hholds'
  exact Control.not_unloading hcall hflight modelId ⟨stage', hcall', hflight'⟩

/-- A call settles from the map or with what the backend was last asked for; only the
    look without the lock may find a model that is on its way out. -/
theorem settled_step {name : Text} {next : ControlState τ F J} {a : Action τ F J}
    (h : ControlInv st) (hstep : controlStep name st a = some next)
    (hcall : next.calls thread = some (op, stage)) (hsettled : stage.settled = true) :
    (∃ before, st.calls thread = some (op, before) ∧ before.settled = true) ∨
    (lastIsLoad op.modelId st.sent = true ∧ next.sent = st.sent) ∨
    (a = .look thread ∧ st.calls thread = some (op, .called) ∧
      (st.loaded.lookup op.modelId).isSome = true) := by
  cases stepped_of_controlStep hstep with
  | hit other op' existing hcalled hlookup =>
    rcases calls_of_enter hcall with ⟨rfl, rfl, rfl⟩ | ⟨-, hbefore⟩
    · exact .inr (.inr ⟨rfl, hcalled, by simp [hlookup]⟩)
    · exact .inl ⟨stage, hbefore, hsettled⟩
  | hitAgain other op' existing hlocked hlookup =>
    rcases calls_of_enter hcall with ⟨rfl, rfl, rfl⟩ | ⟨-, hbefore⟩
    · have hnone := fun third => h.not_unloading hlocked rfl rfl third op.modelId
      exact .inr (.inl ⟨h.inStep _ _ hlookup hnone, rfl⟩)
    · exact .inl ⟨stage, hbefore, hsettled⟩
  | insert other op' model hinserting =>
    rcases calls_of_enter hcall with ⟨rfl, rfl, rfl⟩ | ⟨-, hbefore⟩
    · exact .inr (.inl ⟨(h.calls _ _ _ hinserting).asked (by cases op <;> rfl), rfl⟩)
    · exact .inl ⟨stage, hbefore, hsettled⟩
  | release other op' answer hreturning =>
    rcases calls_of_enter hcall with ⟨rfl, rfl, rfl⟩ | ⟨-, hbefore⟩
    · exact .inl ⟨.returning answer, hreturning, by cases answer <;> simp_all [Stage.settled]⟩
    · exact .inl ⟨stage, hbefore, hsettled⟩
  | post request hother => exact .inl ⟨stage, hcall, hsettled⟩
  | arrive event hrouted => exact .inl ⟨stage, hcall, hsettled⟩
  | hangUp => exact .inl ⟨stage, hcall, hsettled⟩
  | forget other op' outcome hforgetting =>
    rcases calls_of_enter hcall with ⟨rfl, rfl, rfl⟩ | ⟨-, hbefore⟩
    · cases outcome <;> cases hsettled
    · exact .inl ⟨stage, hbefore, hsettled⟩
  | receive other op' event rest hreceiving hcontrol =>
    rcases calls_of_enter hcall with ⟨rfl, rfl, rfl⟩ | ⟨-, hbefore⟩
    · rw [Op.reply_settled] at hsettled
      cases hsettled
    · exact .inl ⟨stage, hbefore, hsettled⟩
  | _ =>
    rcases calls_of_enter hcall with ⟨rfl, rfl, rfl⟩ | ⟨-, hbefore⟩
    · first | cases hsettled | (cases op <;> cases hsettled)
    · exact .inl ⟨stage, hbefore, hsettled⟩

/-- A thread keeps its operation until it makes another call. -/
theorem op_step {name : Text} {next : ControlState τ F J} {a : Action τ F J}
    (hstep : controlStep name st a = some next) (hcalls : ∀ op, a ≠ .call thread op) :
    (next.calls thread).map Prod.fst = (st.calls thread).map Prod.fst := by
  have moved : ∀ {other : τ} {op : Op} {before : Stage} (stage : Stage),
      st.calls other = some (op, before) →
      ((st.enter other op stage).calls thread).map Prod.fst = (st.calls thread).map Prod.fst := by
    intro other op before stage hcall
    rcases eq_or_ne thread other with rfl | hne
    · rw [enter_calls_self, hcall]
      rfl
    · rw [enter_calls_of_ne hne]
  cases stepped_of_controlStep hstep with
  | call other op hidle =>
    rw [enter_calls_of_ne]
    rintro rfl
    exact hcalls op rfl
  | hit other op existing hcall hlookup => exact moved _ hcall
  | miss other op hcall hlookup => exact moved _ hcall
  | lock other op hcall hfree => exact moved _ hcall
  | hitAgain other op existing hcall hlookup => exact moved _ hcall
  | missAgain other op hcall hlookup => exact moved _ hcall
  | accept other op hcall halive => exact moved _ hcall
  | refuse other op hcall halive => exact moved _ hcall
  | write other op hcall => exact moved .receiving hcall
  | unwritten other op e hcall => exact moved _ hcall
  | receive other op event rest hcall hcontrol => exact moved (op.reply event) hcall
  | expire other op hcall => exact moved _ hcall
  | insert other op model hcall => exact moved (.returning (.loaded model)) hcall
  | forget other op outcome hcall => exact moved (.returning (.ofOutcome outcome)) hcall
  | release other op answer hcall => exact moved (.answered answer) hcall
  | post request hother => rfl
  | arrive event hrouted => rfl
  | hangUp => rfl

theorem call_step {name : Text} {next : ControlState τ F J}
    (hstep : controlStep name st (.call thread op) = some next) :
    next = st.enter thread op op.start := by
  cases stepped_of_controlStep hstep with
  | call thread op hidle => rfl

/-- What a step adds to the requests. -/
theorem sent_step {name : Text} {next : ControlState τ F J} {a : Action τ F J}
    (hstep : controlStep name st a = some next) :
    next.sent = st.sent ∨
    (∃ thread op, a = .write thread (.ok ()) ∧ st.calls thread = some (op, .writing) ∧
      next.sent = op.request :: st.sent) ∨
    ∃ request, a = .post request ∧ isControl request = false ∧ next.sent = request :: st.sent := by
  cases stepped_of_controlStep hstep with
  | write thread op hcall => exact .inr (.inl ⟨thread, op, rfl, hcall, rfl⟩)
  | post request hother => exact .inr (.inr ⟨request, rfl, hother, rfl⟩)
  | _ => exact .inl rfl

/-! ### In step -/

/-- In every state of every interleaving `load` has answered with what the backend said
    about that model, so has the map, and a model in the map is one the backend was
    last asked to load, but for an `unload` of it under way.  After an `unload` that
    sent its request the model is absent until another `Load` of it is sent. -/
theorem load_unload_in_step {name : Text} {as : List (Action τ F J)} {st : ControlState τ F J}
    (hrun : runs (controlStep name) .new as = some st) :
    (∀ thread modelId path digest nCtx model,
      st.calls thread = some (.load modelId path digest nCtx, .answered (.loaded model)) →
        Told st.arrived modelId model) ∧
    (∀ modelId model, st.loaded.lookup modelId = some model → Told st.arrived modelId model) ∧
    (∀ modelId, (∀ thread, ¬ Unloading st thread modelId) →
      (st.loaded.lookup modelId).isSome = true → lastIsLoad modelId st.sent = true) ∧
    ∀ thread modelId, st.calls thread = some (.unload modelId, .receiving) →
      ∀ during returning returned later last,
        runs (controlStep name) st during = some returning →
        (∀ op, .call thread op ∉ during) →
        controlStep name returning (.release thread) = some returned →
        runs (controlStep name) returned later = some last →
        loads modelId last.sent = loads modelId returned.sent →
        last.loaded.lookup modelId = none := by
  have hinv : ControlInv st := run_inv controlInv_new hrun
  refine ⟨?_, hinv.loaded, ?_, ?_⟩
  · intro thread modelId path digest nCtx model hcall
    exact (hinv.calls _ _ _ hcall).told model rfl
  · intro modelId hnone hsome
    obtain ⟨model, hlookup⟩ := Option.isSome_iff_exists.mp hsome
    exact hinv.inStep modelId model hlookup hnone
  · intro thread modelId hcall during returning returned later last hduring hcalls hrelease hlater
      hloads
    have hforgets : Forgets thread modelId returning :=
      forgets_run hinv ⟨_, hcall, .inl rfl⟩ hcalls hduring
    have hreturning : ControlInv returning := run_inv hinv hduring
    have hsince : AbsentSince (loads modelId returned.sent) modelId returned := by
      cases stepped_of_controlStep hrelease with
      | release thread op answer hcall => exact hforgets.absentSince hreturning hcall
    have hlast := runs_invariant (controlStep name)
      (fun _ _ _ hs hstep => absentSince_step hs hstep) hsince hlater
    exact (hlast.absent hloads).forgotten

/-- A `load` that gives up, and one whose answer comes after one about the other's
    model. -/
def givesUpThenLoads : List (Action Nat Unit Unit) :=
  [.call 0 (.load "n".toList "/n".toList [] 512), .look 0, .lock 0, .lookAgain 0, .check 0,
    .write 0 (.ok ()), .expire 0, .release 0,
    .call 1 (.load "m".toList "/m".toList [] 4096), .look 1, .lock 1, .lookAgain 1, .check 1,
    .write 1 (.ok ()), .arrive (.loaded "n".toList 3 512), .arrive (.loaded "m".toList 7 4096),
    .receive 1, .receive 1, .insert 1, .release 1]

/-- The late answer passes for nothing, and an `unload` that gets no answer at all
    leaves nothing behind. -/
theorem late_answers_discarded :
    ∃ st returned : ControlState Nat Unit Unit,
      runs (controlStep "gpu".toList) .new
        (givesUpThenLoads ++ [.call 0 (.unload "m".toList), .lock 0, .check 0, .write 0 (.ok ())]) =
          some st ∧
      Told st.arrived "m".toList ⟨"m".toList, 7, 4096⟩ ∧
      runs (controlStep "gpu".toList) st [.expire 0, .forget 0, .release 0] = some returned ∧
      returned.loaded.lookup "m".toList = none :=
  have hrun := rfl
  have hreturn := rfl
  ⟨_, _, hrun, (load_unload_in_step hrun).1 1 _ "/m".toList [] 4096 _ rfl, hreturn,
    (load_unload_in_step hrun).2.2.2 0 _ rfl [.expire 0, .forget 0] _ _ [] _ rfl (by simp) rfl
      rfl rfl⟩

end AiDaemon.Control
