import AiDaemon.Control

/-!
# The janitor and the turns (`state.rs`: `unload_idle_models`)

When the daemon has been idle for long enough its janitor takes the models of the open
sessions, lists what each backend has loaded and unloads the models that no session
names and nobody has pinned.  A session opened in between is not in the snapshot, and
its first turn goes on beside the sweep: load the model, begin the generation.

The daemon here is one backend with the threads that load and unload on it: the workers
of the sessions, the loads of pinned models, and the janitor.  `Control` says what each
of their calls does.

A turn whose load is answered while the model is going, or whose model goes before it
begins, generates on a model the backend has dropped (`sweep_under_new_session`).  In
every other run each generation has its model (`generations_have_models`).
-/

namespace AiDaemon.Janitor

open Control Ledger Proto Routing Transition

variable {F J : Type}

/-! ### The source -/

inductive Thread where
  | worker (session : Text)
  | preload (call : Nat)
  | janitor
deriving DecidableEq, Repr

/-- Where a session's worker stands with its turn: before `load`, in it, between its
    answer and `begin`. -/
inductive Turn where
  | waiting
  | loading
  | loaded
deriving DecidableEq, Repr

inductive Sweep where
  | asleep
  /-- With the models in use. -/
  | listing (inUse : List Text)
  /-- With the models it has yet to look at. -/
  | sweeping (inUse todo : List Text)
  | unloading (inUse todo : List Text)
deriving DecidableEq, Repr

structure Daemon (F J : Type) where
  control : ControlState Thread F J
  /-- The model of each open session. -/
  sessions : Table Text Text
  pinned : List Text
  /-- The workers, which may outlive the entry above. -/
  workers : Table Text (Text × Turn)
  janitor : Sweep

def Daemon.new : Daemon F J where
  control := .new
  sessions := ∅
  pinned := []
  workers := ∅
  janitor := .asleep

inductive Act (F J : Type) where
  | openSession (session model : Text)
  | close (session : Text)
  | load (session path digest : Text) (nCtx : UInt32)
  | answer (session : Text)
  | giveUp (session : Text)
  | begin (session : Text) (request : BackendRequest F J) (result : Except Text Unit)
  | pin (model : Text) (pinned : Bool)
  | preload (call : Nat) (model path digest : Text) (nCtx : UInt32)
  | wake (idleFor : Nat)
  | list (models : List Text)
  | next
  | unloaded
  | post (request : BackendRequest F J)
  /-- A step inside `load` or `unload`, or of the backend's reader. -/
  | inner (action : Control.Action Thread F J)

/-- The model a `Generate` names. -/
def generates : BackendRequest F J → Option Text
  | .generate _ modelId _ _ _ _ _ _ _ => some modelId
  | _ => none

/-- Calls and other requests are made by the threads' own steps. -/
def isInner : Control.Action Thread F J → Bool
  | .call _ _ | .post _ => false
  | _ => true

/-- The answer of the call a thread has made last. -/
def answerOf (st : Daemon F J) (thread : Thread) : Option Answer :=
  match st.control.calls thread with
  | some (_, .answered answer) => some answer
  | _ => none

def Daemon.setTurn (st : Daemon F J) (session model : Text) (turn : Turn) : Daemon F J :=
  { st with workers := st.workers.insert session (model, turn) }

/-- A step of the control operations. -/
def Daemon.controls (name : Text) (st : Daemon F J) (action : Control.Action Thread F J) :
    Option (Daemon F J) :=
  (controlStep name st.control action).map fun control => { st with control := control }

def daemonStep (name : Text) (modelIdleUnloadSeconds : Nat) (st : Daemon F J) :
    Act F J → Option (Daemon F J)
  | .openSession session model =>
    match st.workers.lookup session with
    | none => some { st.setTurn session model .waiting with
        sessions := st.sessions.insert session model }
    | some _ => none
  | .close session => some { st with sessions := st.sessions.erase session }
  | .load session path digest nCtx =>
    match st.workers.lookup session with
    | some (model, .waiting) =>
      (st.setTurn session model .loading).controls name
        (.call (.worker session) (.load model path digest nCtx))
    | _ => none
  | .answer session =>
    match st.workers.lookup session, answerOf st (.worker session) with
    | some (model, .loading), some (.loaded _) => some (st.setTurn session model .loaded)
    | some (model, .loading), some _ => some (st.setTurn session model .waiting)
    | _, _ => none
  | .giveUp session =>
    -- the prompt is too long, or there is no room for it
    match st.workers.lookup session with
    | some (model, .loaded) => some (st.setTurn session model .waiting)
    | _ => none
  | .begin session request result =>
    match st.workers.lookup session with
    | some (model, .loaded) =>
      if generates request = some model then
        match result with
        | .ok () => (st.setTurn session model .waiting).controls name (.post request)
        | .error _ => some (st.setTurn session model .waiting)
      else none
    | _ => none
  | .pin model pinned =>
    some { st with
      pinned := if pinned then model :: st.pinned else st.pinned.filter (· ≠ model) }
  | .preload call model path digest nCtx =>
    st.controls name (.call (.preload call) (.load model path digest nCtx))
  | .wake idleFor =>
    match st.janitor with
    | .asleep =>
      if modelIdleUnloadSeconds = 0 then none
      else if idleFor < modelIdleUnloadSeconds then none
      else some { st with janitor := .listing (values st.sessions) }
    | _ => none
  | .list models =>
    match st.janitor with
    | .listing inUse =>
      if models.Perm ((values st.control.loaded).map (·.modelId)) then
        some { st with janitor := .sweeping inUse models }
      else none
    | _ => none
  | .next =>
    match st.janitor with
    | .sweeping inUse (model :: todo) =>
      if model ∈ inUse ∨ model ∈ st.pinned then
        some { st with janitor := .sweeping inUse todo }
      else
        Daemon.controls name { st with janitor := .unloading inUse todo }
          (.call .janitor (.unload model))
    | .sweeping _ [] => some { st with janitor := .asleep }
    | _ => none
  | .unloaded =>
    match st.janitor, answerOf st .janitor with
    -- an error is a warning
    | .unloading inUse todo, some _ => some { st with janitor := .sweeping inUse todo }
    | _, _ => none
  | .post request => if generates request = none then st.controls name (.post request) else none
  | .inner action => if isInner action then st.controls name action else none

/-! ### Generations and their models -/

/-- Every `Generate`, when it was sent, was about a model whose last `Load` or `Unload`
    had been a `Load`. -/
def Served (sent : List (BackendRequest F J)) : Prop :=
  ∀ newer request older model, sent = newer ++ request :: older →
    generates request = some model → lastIsLoad model older = true

/-- The load of the turn is answered, and the turn has not begun. -/
def primed (st : Daemon F J) (session : Text) : Turn → Bool
  | .waiting => false
  | .loading => (st.control.calls (.worker session)).any fun call => call.2.settled
  | .loaded => true

/-- The janitor's `unload` of the model has sent its request and has not forgotten the
    model. -/
def sweeps (st : Daemon F J) (model : Text) : Bool :=
  (st.control.calls .janitor).any fun call => decide (call.1.modelId = model) && call.2.inFlight

/-- No `Unload` is sent of a model that a turn is about to generate on, and no turn
    takes a model from the map while the janitor's `unload` of it is under way. -/
def Clear (st : Daemon F J) : Act F J → Prop
  | .inner (.write thread (.ok ())) =>
    ∀ call ∈ st.control.calls thread, call.1 = .unload call.1.modelId →
      ∀ row ∈ st.workers.entries, row.2.1 = call.1.modelId → primed st row.1 row.2.2 = false
  | .inner (.look (.worker session)) =>
    ∀ call ∈ st.control.calls (.worker session), call.2 = .called →
      (st.control.loaded.lookup call.1.modelId).isSome = true → sweeps st call.1.modelId = false
  | _ => True

structure DaemonInv (st : Daemon F J) : Prop where
  control : ControlInv st.control
  /-- A turn in `load` is in the `load` of its model. -/
  loading : ∀ session model, st.workers.lookup session = some (model, .loading) →
    ∃ path digest nCtx stage,
      st.control.calls (.worker session) = some (.load model path digest nCtx, stage)
  unloader : ∀ thread model stage, st.control.calls thread = some (.unload model, stage) →
    thread = .janitor
  primed : ∀ session model turn, st.workers.lookup session = some (model, turn) →
    primed st session turn = true → lastIsLoad model st.control.sent = true
  served : Served st.control.sent

theorem daemonInv_new : DaemonInv (Daemon.new : Daemon F J) where
  control := controlInv_new
  loading := by simp [Daemon.new]
  unloader := by simp [Daemon.new, ControlState.new]
  primed := by simp [Daemon.new]
  served := by
    intro newer request older model hsent
    simp [Daemon.new, ControlState.new] at hsent

theorem Served.cons {sent : List (BackendRequest F J)} (h : Served sent)
    {request : BackendRequest F J}
    (hrequest : ∀ model, generates request = some model → lastIsLoad model sent = true) :
    Served (request :: sent) := by
  intro newer other older model hsent hgenerates
  cases newer with
  | nil =>
    simp only [List.nil_append, List.cons.injEq] at hsent
    obtain ⟨rfl, rfl⟩ := hsent
    exact hrequest model hgenerates
  | cons newest newer =>
    simp only [List.cons_append, List.cons.injEq] at hsent
    exact h newer other older model hsent.2 hgenerates

theorem generates_request (op : Op) : generates (op.request : BackendRequest F J) = none := by
  cases op <;> rfl

/-- Only an `Unload` of the model makes it unloaded. -/
theorem lastIsLoad_cons {sent : List (BackendRequest F J)} {model : Text} {op : Op}
    (h : lastIsLoad model sent = true) (hop : op ≠ .unload model) :
    lastIsLoad model (op.request :: sent) = true := by
  rcases eq_or_ne op.modelId model with rfl | hne
  · cases op with
    | load modelId path digest nCtx => exact lastIsLoad_cons_load ..
    | unload modelId => exact absurd rfl hop
  · exact (lastIsLoad_cons_request hne sent).trans h

variable {st : Daemon F J}

/-- A turn takes the place it has, or one from which it does not begin. -/
theorem DaemonInv.setTurn (h : DaemonInv st) {session model : Text} {turn : Turn}
    (hloading : turn = .loading → ∃ path digest nCtx stage,
      st.control.calls (.worker session) = some (.load model path digest nCtx, stage))
    (hprimed : Janitor.primed st session turn = true → lastIsLoad model st.control.sent = true) :
    DaemonInv (st.setTurn session model turn) where
  control := h.control
  loading other m hlookup := by
    rcases eq_or_ne other session with rfl | hne
    · rw [Daemon.setTurn, AList.lookup_insert, Option.some.injEq, Prod.mk.injEq] at hlookup
      obtain ⟨rfl, rfl⟩ := hlookup
      exact hloading rfl
    · rw [Daemon.setTurn, AList.lookup_insert_ne hne] at hlookup
      exact h.loading other m hlookup
  unloader := h.unloader
  primed other m t hlookup ht := by
    rcases eq_or_ne other session with rfl | hne
    · rw [Daemon.setTurn, AList.lookup_insert, Option.some.injEq, Prod.mk.injEq] at hlookup
      obtain ⟨rfl, rfl⟩ := hlookup
      exact hprimed ht
    · rw [Daemon.setTurn, AList.lookup_insert_ne hne] at hlookup
      exact h.primed other m t hlookup ht
  served := h.served

/-- A call by a thread that is not a turn in `load`. -/
theorem DaemonInv.call (h : DaemonInv st) {name : Text} {thread : Thread} {op : Op}
    {control : ControlState Thread F J}
    (hstep : controlStep name st.control (.call thread op) = some control)
    (hidle : ∀ session model, st.workers.lookup session = some (model, .loading) →
      thread ≠ .worker session)
    (hunload : ∀ model, op = .unload model → thread = .janitor) :
    DaemonInv { st with control } := by
  have hcontrol := controlStep_inv h.control hstep
  obtain rfl := call_step hstep
  refine ⟨hcontrol, fun session model hlookup => ?_, fun other model stage hcall => ?_,
    fun session model turn hlookup hprimed => ?_, h.served⟩
  · have hne : .worker session ≠ thread := (hidle session model hlookup).symm
    obtain ⟨path, digest, nCtx, stage, hcall⟩ := h.loading session model hlookup
    exact ⟨path, digest, nCtx, stage, (enter_calls_of_ne hne).trans hcall⟩
  · rcases calls_of_enter hcall with ⟨rfl, hop, -⟩ | ⟨-, hbefore⟩
    · exact hunload model hop.symm
    · exact h.unloader other model stage hbefore
  · refine h.primed session model turn hlookup ?_
    cases turn with
    | waiting => exact hprimed
    | loading =>
      have hne : .worker session ≠ thread := (hidle session model hlookup).symm
      simp only [Janitor.primed] at hprimed ⊢
      rwa [enter_calls_of_ne hne] at hprimed
    | loaded => exact hprimed

/-- Another request is sent; a generation only on a model that is there. -/
theorem DaemonInv.post (h : DaemonInv st) {name : Text} {request : BackendRequest F J}
    {control : ControlState Thread F J}
    (hstep : controlStep name st.control (.post request) = some control)
    (hserved : ∀ model, generates request = some model →
      lastIsLoad model st.control.sent = true) :
    DaemonInv { st with control } := by
  have hcontrol := controlStep_inv h.control hstep
  cases stepped_of_controlStep hstep with
  | post request hother =>
    refine ⟨hcontrol, h.loading, h.unloader, fun session model turn hlookup hprimed => ?_,
      h.served.cons hserved⟩
    rw [lastIsLoad_cons_of_not_about (about_of_not_isControl hother model)]
    exact h.primed session model turn hlookup hprimed

/-- Only the janitor unloads. -/
theorem DaemonInv.not_unloading (h : DaemonInv st) {model : Text}
    (hsweeps : sweeps st model = false)
    (thread : Thread) : ¬ Unloading st.control thread model := by
  rintro ⟨stage, hcall, hflight⟩
  obtain rfl := h.unloader thread model stage hcall
  simp [sweeps, hcall, Op.modelId, hflight] at hsweeps

/-- A turn that has its model after a step inside the operations is told so by the
    backend's last request about it. -/
theorem DaemonInv.primed_inner (h : DaemonInv st) {name : Text}
    {action : Control.Action Thread F J} {control : ControlState Thread F J}
    (hinner : isInner action = true) (hclear : Clear st (.inner action))
    (hstep : controlStep name st.control action = some control) {session model : Text} {turn : Turn}
    (hlookup : st.workers.lookup session = some (model, turn))
    (hprimed : Janitor.primed { st with control } session turn = true) :
    lastIsLoad model control.sent = true := by
  have hrow : (⟨session, model, turn⟩ : Row Text (Text × Turn)) ∈ st.workers.entries :=
    mem_entries_iff.mpr hlookup
  have kept : Janitor.primed st session turn = true → lastIsLoad model control.sent = true := by
    intro hbefore
    have hlast := h.primed session model turn hlookup hbefore
    rcases sent_step hstep with hsent | ⟨thread, op, rfl, hcall, hsent⟩ | ⟨request, rfl, -, -⟩
    · rwa [hsent]
    · rw [hsent]
      apply lastIsLoad_cons hlast
      rintro rfl
      have hfree := hclear (.unload model, .writing) hcall rfl _ hrow rfl
      rw [hbefore] at hfree
      cases hfree
    · cases hinner
  cases turn with
  | waiting => cases hprimed
  | loaded => exact kept rfl
  | loading =>
    simp only [Janitor.primed, Option.any_eq_true] at hprimed
    obtain ⟨⟨op, stage⟩, hcall, hsettled⟩ := hprimed
    obtain ⟨path, digest, nCtx, before, hbefore⟩ := h.loading session model hlookup
    have hop : op = .load model path digest nCtx := by
      have hkept : (control.calls (.worker session)).map Prod.fst =
          (st.control.calls (.worker session)).map Prod.fst :=
        op_step hstep (by rintro op rfl; cases hinner)
      rw [hbefore, hcall] at hkept
      exact Option.some.inj hkept
    subst hop
    rcases settled_step h.control hstep hcall hsettled with
      ⟨earlier, hearlier, hearly⟩ | ⟨hlast, hsent⟩ | ⟨rfl, hcalled, hsome⟩
    · apply kept
      simp only [Janitor.primed, Option.any_eq_true]
      exact ⟨_, hearlier, hearly⟩
    · rwa [hsent]
    · -- the look without the lock
      obtain ⟨found, hfound⟩ := Option.isSome_iff_exists.mp hsome
      have hlast : lastIsLoad model st.control.sent = true := by
        refine h.control.inStep model found hfound fun thread hunloading => ?_
        have hsweeps := hclear _ hcalled rfl hsome
        exact h.not_unloading hsweeps thread hunloading
      rcases sent_step hstep with hsent | ⟨thread, op, hlook, -, -⟩ | ⟨request, hlook, -, -⟩
      · rwa [hsent]
      · cases hlook
      · cases hlook

theorem DaemonInv.inner (h : DaemonInv st) {name : Text} {action : Control.Action Thread F J}
    {control : ControlState Thread F J} (hinner : isInner action = true)
    (hclear : Clear st (.inner action))
    (hstep : controlStep name st.control action = some control) :
    DaemonInv { st with control } := by
  have kept :
    ∀ thread, (control.calls thread).map Prod.fst = (st.control.calls thread).map Prod.fst :=
    fun thread => op_step hstep (by rintro op rfl; cases hinner)
  refine ⟨controlStep_inv h.control hstep, fun session model hlookup => ?_,
    fun thread model stage hcall => ?_,
    fun session model turn hlookup hprimed =>
      h.primed_inner hinner hclear hstep hlookup hprimed, ?_⟩
  · obtain ⟨path, digest, nCtx, before, hbefore⟩ := h.loading session model hlookup
    have hkept := kept (.worker session)
    rw [hbefore] at hkept
    obtain ⟨⟨op, stage⟩, hcall, hop⟩ := Option.map_eq_some_iff.mp hkept
    obtain rfl : op = .load model path digest nCtx := hop
    exact ⟨path, digest, nCtx, stage, hcall⟩
  · have hkept := kept thread
    rw [hcall] at hkept
    obtain ⟨⟨op, before⟩, hbefore, hop⟩ := Option.map_eq_some_iff.mp hkept.symm
    obtain rfl : op = .unload model := hop
    exact h.unloader thread model before hbefore
  · rcases sent_step hstep with hsent | ⟨thread, op, -, -, hsent⟩ | ⟨request, rfl, -, -⟩
    · rw [show ({ st with control } : Daemon F J).control.sent = st.control.sent from hsent]
      exact h.served
    · rw [show ({ st with control } : Daemon F J).control.sent =
        op.request :: st.control.sent from hsent]
      apply h.served.cons
      simp [generates_request]
    · cases hinner

theorem settled_of_answerOf {thread : Thread} {model : LoadedModel}
    (h : answerOf st thread = some (.loaded model)) :
    ((st.control.calls thread).any fun call => call.2.settled) = true := by
  simp only [answerOf] at h
  split at h <;> simp only [Option.some.injEq, reduceCtorEq] at h
  rename_i op answer hcall
  simp [hcall, h, Stage.settled]

theorem daemonStep_inv {name : Text} {modelIdleUnloadSeconds : Nat} {next : Daemon F J}
    {a : Act F J}
    (h : DaemonInv st) (hclear : Clear st a)
    (hstep : daemonStep name modelIdleUnloadSeconds st a = some next) : DaemonInv next := by
  cases a with
  | openSession session model =>
    simp only [daemonStep] at hstep
    split at hstep <;> simp only [Option.some.injEq, reduceCtorEq] at hstep
    subst hstep
    have hset : DaemonInv (st.setTurn session model .waiting) := by
      apply h.setTurn
      · simp
      · simp [Janitor.primed]
    exact ⟨hset.control, hset.loading, hset.unloader, hset.primed, hset.served⟩
  | close session =>
    simp only [daemonStep, Option.some.injEq] at hstep
    subst hstep
    exact ⟨h.control, h.loading, h.unloader, h.primed, h.served⟩
  | load session path digest nCtx =>
    simp only [daemonStep] at hstep
    split at hstep
    case h_2 => simp at hstep
    rename_i model hworker
    obtain ⟨control, hcall, rfl⟩ := Option.map_eq_some_iff.mp hstep
    have hcalled : DaemonInv { st with control } := by
      apply h.call hcall
      · rintro other m hlookup heq
        cases heq
        rw [hworker] at hlookup
        cases hlookup
      · simp
    obtain rfl := call_step hcall
    apply hcalled.setTurn
    · intro _
      exact ⟨path, digest, nCtx, _, enter_calls_self⟩
    · intro hprimed
      simp [Janitor.primed, Op.start, Stage.settled] at hprimed
  | answer session =>
    simp only [daemonStep] at hstep
    split at hstep
    · rename_i model answered hworker hanswer
      simp only [Option.some.injEq] at hstep
      subst hstep
      apply h.setTurn
      · simp
      · intro _
        exact h.primed session model .loading hworker (settled_of_answerOf hanswer)
    · rename_i model answer hworker hanswer hother
      simp only [Option.some.injEq] at hstep
      subst hstep
      apply h.setTurn
      · simp
      · simp [Janitor.primed]
    · simp at hstep
  | giveUp session =>
    simp only [daemonStep] at hstep
    split at hstep <;> simp only [Option.some.injEq, reduceCtorEq] at hstep
    subst hstep
    apply h.setTurn
    · simp
    · simp [Janitor.primed]
  | begin session request result =>
    simp only [daemonStep] at hstep
    split at hstep
    case h_2 => simp at hstep
    rename_i model hworker
    split at hstep
    case isFalse => simp at hstep
    rename_i hgenerates
    have hset : DaemonInv (st.setTurn session model .waiting) := by
      apply h.setTurn
      · simp
      · simp [Janitor.primed]
    cases result with
    | ok =>
      obtain ⟨control, hpost, rfl⟩ := Option.map_eq_some_iff.mp hstep
      apply hset.post hpost
      intro m hm
      rw [hgenerates, Option.some.injEq] at hm
      subst hm
      exact h.primed session model .loaded hworker rfl
    | error e =>
      simp only [Option.some.injEq] at hstep
      exact hstep ▸ hset
  | pin model pinned =>
    simp only [daemonStep, Option.some.injEq] at hstep
    subst hstep
    exact ⟨h.control, h.loading, h.unloader, h.primed, h.served⟩
  | preload call model path digest nCtx =>
    obtain ⟨control, hcall, rfl⟩ := Option.map_eq_some_iff.mp hstep
    apply h.call hcall
    · simp
    · simp
  | wake idleFor =>
    simp only [daemonStep] at hstep
    split at hstep
    case h_2 => simp at hstep
    split at hstep
    · simp at hstep
    split at hstep <;> simp only [Option.some.injEq, reduceCtorEq] at hstep
    subst hstep
    exact ⟨h.control, h.loading, h.unloader, h.primed, h.served⟩
  | list models =>
    simp only [daemonStep] at hstep
    split at hstep
    case h_2 => simp at hstep
    split at hstep <;> simp only [Option.some.injEq, reduceCtorEq] at hstep
    subst hstep
    exact ⟨h.control, h.loading, h.unloader, h.primed, h.served⟩
  | next =>
    simp only [daemonStep] at hstep
    split at hstep
    · rename_i inUse model todo hjanitor
      split at hstep
      · simp only [Option.some.injEq] at hstep
        subst hstep
        exact ⟨h.control, h.loading, h.unloader, h.primed, h.served⟩
      · obtain ⟨control, hcall, rfl⟩ := Option.map_eq_some_iff.mp hstep
        have hcalled : DaemonInv { st with control } := by
          apply h.call hcall
          · simp
          · simp
        exact ⟨hcalled.control, hcalled.loading, hcalled.unloader, hcalled.primed, hcalled.served⟩
    · simp only [Option.some.injEq] at hstep
      subst hstep
      exact ⟨h.control, h.loading, h.unloader, h.primed, h.served⟩
    · simp at hstep
  | unloaded =>
    simp only [daemonStep] at hstep
    split at hstep <;> simp only [Option.some.injEq, reduceCtorEq] at hstep
    subst hstep
    exact ⟨h.control, h.loading, h.unloader, h.primed, h.served⟩
  | post request =>
    simp only [daemonStep] at hstep
    split at hstep
    case isFalse => simp at hstep
    rename_i hgenerates
    obtain ⟨control, hpost, rfl⟩ := Option.map_eq_some_iff.mp hstep
    apply h.post hpost
    simp [hgenerates]
  | inner action =>
    simp only [daemonStep] at hstep
    split at hstep
    case isFalse => simp at hstep
    rename_i hinner
    obtain ⟨control, hcontrol, rfl⟩ := Option.map_eq_some_iff.mp hstep
    exact h.inner hinner hclear hcontrol

/-- In every run in which no `Unload` is sent of a model that a turn has loaded and not
    begun on, and no turn takes its model from the map while the janitor's `unload` of
    it is under way, each generation is on a model the backend was last asked to
    load. -/
theorem generations_have_models {name : Text} {modelIdleUnloadSeconds : Nat} {as : List (Act F J)}
    {st : Daemon F J} (hclear : along (daemonStep name modelIdleUnloadSeconds) Clear .new as)
    (hrun : runs (daemonStep name modelIdleUnloadSeconds) .new as = some st) :
    Served st.control.sent := by
  have hinv : DaemonInv st := runs_invariant_along (daemonStep name modelIdleUnloadSeconds)
    (fun s a s' hs hC hstep => daemonStep_inv hs hC hstep) daemonInv_new hclear hrun
  exact hinv.served

instance decidableClear (st : Daemon F J) : ∀ a, Decidable (Clear st a)
  | .inner (.write thread (.ok ())) => inferInstanceAs (Decidable
      (∀ call ∈ st.control.calls thread, call.1 = .unload call.1.modelId →
        ∀ row ∈ st.workers.entries, row.2.1 = call.1.modelId → primed st row.1 row.2.2 = false))
  | .inner (.look (.worker session)) => inferInstanceAs (Decidable
      (∀ call ∈ st.control.calls (.worker session), call.2 = .called →
        (st.control.loaded.lookup call.1.modelId).isSome = true → sweeps st call.1.modelId = false))
  | .inner (.write _ (.error _)) | .inner (.look (.preload _)) | .inner (.look .janitor)
  | .inner (.call _ _) | .inner (.lock _) | .inner (.lookAgain _) | .inner (.check _)
  | .inner (.receive _) | .inner (.expire _) | .inner (.insert _) | .inner (.forget _)
  | .inner (.release _) | .inner (.post _) | .inner (.arrive _) | .inner .hangUp
  | .openSession _ _ | .close _ | .load _ _ _ _ | .answer _ | .giveUp _ | .begin _ _ _ | .pin _ _
  | .preload _ _ _ _ _ | .wake _ | .list _ | .next | .unloaded | .post _ =>
    inferInstanceAs (Decidable True)

/-- A `Generate` of the model. -/
def generateOf (model : Text) : BackendRequest Unit Unit :=
  .generate 1 model [] [] .default none none false []

/-- A session is opened and its turn generates; the model is not loaded yet. -/
def coldTurn (session : Text) : List (Act Unit Unit) :=
  [.openSession session "m".toList, .load session [] [] 512, .inner (.look (.worker session)),
    .inner (.lock (.worker session)), .inner (.lookAgain (.worker session)),
    .inner (.check (.worker session)), .inner (.write (.worker session) (.ok ())),
    .inner (.arrive (.loaded "m".toList 1 512)), .inner (.receive (.worker session)),
    .inner (.insert (.worker session)), .inner (.release (.worker session)), .answer session,
    .begin session (generateOf "m".toList) (.ok ())]

/-- The janitor unloads the model between two sessions. -/
theorem sweep_between_sessions :
    ∃ st, runs (daemonStep "gpu".toList 600) .new
        (coldTurn "a".toList ++ [.close "a".toList, .wake 600, .list ["m".toList], .next,
          .inner (.lock .janitor), .inner (.check .janitor), .inner (.write .janitor (.ok ())),
          .inner (.expire .janitor), .inner (.forget .janitor), .inner (.release .janitor),
          .unloaded, .next] ++ coldTurn "b".toList) = some st ∧
      Served st.control.sent :=
  have hrun := rfl
  ⟨_, hrun, generations_have_models (by decide +kernel) hrun⟩

/-- A session opened after the snapshot generates on the model the janitor has just
    sent away. -/
theorem sweep_under_new_session :
    ¬ ∀ (name : Text) (modelIdleUnloadSeconds : Nat) (as : List (Act Unit Unit))
      (st : Daemon Unit Unit),
      runs (daemonStep name modelIdleUnloadSeconds) .new as = some st → Served st.control.sent := by
  intro hall
  have hserved := hall "gpu".toList 600
    (coldTurn "a".toList ++ [.close "a".toList, .wake 600, .openSession "b".toList "m".toList,
      .list ["m".toList], .next, .inner (.lock .janitor), .inner (.check .janitor),
      .load "b".toList [] [] 512, .inner (.look (.worker "b".toList)), .answer "b".toList,
      .inner (.write .janitor (.ok ())), .begin "b".toList (generateOf "m".toList) (.ok ())]) _ rfl
  have hlast := hserved [] (generateOf "m".toList) _ "m".toList rfl rfl
  revert hlast
  decide +kernel

end AiDaemon.Janitor
