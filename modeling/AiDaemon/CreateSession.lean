import AiDaemon.Attenuate
import AiDaemon.IdentityOf
import AiDaemon.Sched

/-!
# Opening and retiring sessions (`dbusapi.rs`: `create_session`, `SessionSlot`)

`create_session` identifies the caller, looks up what it may do, takes one slot
of its session count and then builds the session in steps each of which can
fail.  It waits for a backend in the middle, so it is two functions here:
`beginSession` is everything before that wait, `finishSession` everything after,
and `createSession` is one and then the other.  What the outside world answers
to each fallible step is an `Outcome`.

A `SessionSlot` undoes a half-built session when it goes out of scope armed.
The two arms that handle a failed backend lookup close the session themselves
and then leave with the slot still armed, so they give the count back twice
(`finishSession_cases`).

The checks come before the narrowing.  They compare with the limits the identity
holds, and the narrowed ones are only handed to the session, so an option that
rules out the model or the session being opened is not noticed
(`createSession_enforces_iff`).
-/

namespace AiDaemon

open Ledger Policy

/-! ### Data -/

/-- What `create_session` reads of a manifest. `maxCtx` is zero where the model
    sets no limit of its own. -/
structure Manifest where
  name : Text
  digest : Text
  capabilities : List Text
  maxCtx : Nat
deriving DecidableEq

structure Backend where
  name : Text
  capabilities : List Text
  isLocal : Bool
deriving DecidableEq

def Backend.can (backend : Backend) (capability : Text) : Bool :=
  backend.capabilities.any fun c => c = capability

structure Session where
  id : Text
  objectPath : Text
  identity : Identity
  model : Text
  digest : Text
  backend : Text
  capabilities : List Text
  isLocal : Bool
  cls : Sched.Class
  maxContext : Nat
deriving DecidableEq

inductive AuditRecord where
  | denied (identity capability reason : Text)
  | sessionStart (identity session model digest : Text) (isLocal : Bool)
  | sessionEnd (identity session model : Text)
deriving DecidableEq

/-- What creating and retiring sessions changes: the engine's session counts,
    the session map, the counter of ids, the objects on the bus and the audit
    log. -/
structure Daemon where
  counts : Table Text Nat
  sessions : Table Text Session
  nextSession : Nat
  objects : List Text
  audit : List AuditRecord

/-- A `CreateSession` message, with the files and the model registry as they
    stand when it is handled. -/
structure Call where
  host : Host
  answer : Except BusError Manager.BusCredentials
  resolve : Text → UInt32 → Except Text Manifest
  model : Text
  options : Options

/-- What the fallible steps of `create_session` meet. A lookup that is `none`
    panicked. -/
structure Outcome where
  backend : Option (Except Text Backend)
  socketpair : Except Text Unit
  objectPath : Except Text Unit
  register : Except Text Unit
  spawn : Except Text Unit

def Daemon.new : Daemon := ⟨∅, ∅, 1, [], []⟩

namespace Daemon

def log (d : Daemon) (record : AuditRecord) : Daemon := { d with audit := d.audit ++ [record] }

def closeSession (d : Daemon) (identity : Identity) : Daemon :=
  { d with counts := Policy.closeSession d.counts identity }

/-- `next_session_id` and the counter after it. -/
def nextSessionId (d : Daemon) : Text × Daemon :=
  ('s' :: Text.ofNat d.nextSession, { d with nextSession := d.nextSession + 1 })

def insertSession (d : Daemon) (session : Session) : Daemon :=
  { d with sessions := d.sessions.insert session.id session }

end Daemon

def sessionPath (id : Text) : Text := "/io/github/agraves/AIDaemon1/session/".toList ++ id

/-- `session::retire`. -/
def retire (d : Daemon) (session : Session) : Daemon :=
  let d := d.log (.sessionEnd session.identity.key session.id session.model)
  let d := d.closeSession session.identity
  { d with
    sessions := d.sessions.erase session.id
    objects := d.objects.filter fun path => path ≠ session.objectPath }

structure SessionSlot where
  identity : Identity
  session : Option Session
  armed : Bool

/-- `Drop for SessionSlot`. -/
def SessionSlot.drop (slot : SessionSlot) (d : Daemon) : Daemon :=
  if slot.armed then
    match slot.session with
    | some session => retire d session
    | none => d.closeSession slot.identity
  else d

/-! ### Before the backend is there -/

/-- What `create_session` holds while it waits for a backend. -/
structure Opening where
  identity : Identity
  limits : Limits
  cls : Sched.Class
  maxContext : Nat
  manifest : Manifest

def priorityOf (options : Options) : Sched.Class :=
  ((options.string "priority").map Sched.Class.parse).getD .interactive

def contextOf (limits : Limits) (manifest : Manifest) (options : Options) : Nat :=
  let requested := ((options.u32 "max_context").map UInt32.toNat).getD limits.maxContext
  min (min requested limits.maxContext)
    (if manifest.maxCtx = 0 then 2 ^ 32 - 1 else manifest.maxCtx)

def mayNotUseText (identity : Identity) (model : Text) : Text :=
  identity.key ++ " may not use ".toList ++ model

/-- Up to and including `open_session`, `attenuate` and the two options read
    after it. The checks read the limits the identity holds; what the options
    narrowed them to goes into the session. -/
def beginSession (config : Config) (d : Daemon) (call : Call) :
    Daemon × Except BusError Opening :=
  match Manager.credentials call.answer with
  | .error e => (d, .error e)
  | .ok (uid, pid) =>
    match Manager.identityOf call.host config.policy uid pid call.options with
    | .error e => (d, .error e)
    | .ok identity =>
      match gate call.host config.policy identity with
      | .error reason =>
        (d.log (.denied identity.key "gate".toList reason), .error (.accessDenied reason))
      | .ok () =>
        let limits := limitsFor config identity
        match call.resolve call.model identity.uid with
        | .error e => (d, .error (.failed e))
        | .ok manifest =>
          if limits.permitsModel manifest.name = false then
            let reason := mayNotUseText identity manifest.name
            (d.log (.denied identity.key "generate".toList reason), .error (.accessDenied reason))
          else
            match openSession d.counts identity limits with
            | (counts, .error reason) => ({ d with counts }, .error (.accessDenied reason))
            | (counts, .ok ()) =>
              let limits := attenuate limits call.options
              ({ d with counts },
                .ok ⟨identity, limits, priorityOf call.options,
                  contextOf limits manifest call.options, manifest⟩)

/-! ### After it -/

def sessionOf (opening : Opening) (backend : Backend) (id : Text) : Session where
  id
  objectPath := sessionPath id
  identity := opening.identity
  model := opening.manifest.name
  digest := opening.manifest.digest
  backend := backend.name
  capabilities := opening.manifest.capabilities.filter backend.can
  isLocal := backend.isLocal
  cls := opening.cls
  maxContext := opening.maxContext

/-- The steps from the session's insertion into the map on, when the guard owns
    it. -/
def startSession (d : Daemon) (session : Session) (outcome : Outcome) :
    Daemon × Except BusError Session :=
  let d := d.log (.sessionStart session.identity.key session.id session.model session.digest
    session.isLocal)
  let d := d.insertSession session
  let slot : SessionSlot := ⟨session.identity, some session, true⟩
  match outcome.register with
  | .error e =>
    (slot.drop d, .error (.failed ("registering the session object: ".toList ++ e)))
  | .ok () =>
    let d := { d with objects := d.objects ++ [session.objectPath] }
    match outcome.spawn with
    | .error e => (slot.drop d, .error (.failed e))
    | .ok () => ({ slot with armed := false }.drop d, .ok session)

def finishSession (d : Daemon) (opening : Opening) (outcome : Outcome) :
    Daemon × Except BusError Session :=
  let slot : SessionSlot := ⟨opening.identity, none, true⟩
  match outcome.backend with
  | some (.ok backend) =>
    match outcome.socketpair with
    | .error e => (slot.drop d, .error (.failed ("socketpair: ".toList ++ e)))
    | .ok () =>
      let (id, d) := d.nextSessionId
      match outcome.objectPath with
      | .error e => (slot.drop d, .error (.failed e))
      | .ok () => startSession d (sessionOf opening backend id) outcome
  | some (.error e) => (slot.drop (d.closeSession opening.identity), .error (.failed e))
  | none =>
    (slot.drop (d.closeSession opening.identity),
      .error (.failed "backend startup panicked".toList))

def createSession (config : Config) (d : Daemon) (call : Call) (outcome : Outcome) :
    Daemon × Except BusError Session :=
  match beginSession config d call with
  | (d, .error e) => (d, .error e)
  | (d, .ok opening) => finishSession d opening outcome

/-! ### What a call did -/

/-- A caller that got past `open_session` passed every check before it. -/
structure Began (config : Config) (d : Daemon) (call : Call) (d' : Daemon) (o : Opening) :
    Prop where
  permitted : (limitsFor config o.identity).permitsModel o.manifest.name = true
  opened : (openSession d.counts o.identity (limitsFor config o.identity)).2 = .ok ()
  state : d' =
    { d with counts := (openSession d.counts o.identity (limitsFor config o.identity)).1 }
  narrowed : o.limits = attenuate (limitsFor config o.identity) call.options

/-- A call refused before the wait leaves the counts and the map alone. -/
structure Refused (d d' : Daemon) : Prop where
  counts : ∀ key, countOf d'.counts key = countOf d.counts key
  sessions : d'.sessions = d.sessions
  nextSession : d'.nextSession = d.nextSession

theorem beginSession_cases (config : Config) (d : Daemon) (call : Call) :
    (∃ d' e, beginSession config d call = (d', .error e) ∧ Refused d d') ∨
      ∃ d' o, beginSession config d call = (d', .ok o) ∧ Began config d call d' o := by
  have hsame : ∀ audit : List AuditRecord, Refused d { d with audit } :=
    fun _ => ⟨fun _ => rfl, rfl, rfl⟩
  unfold beginSession
  split
  · exact Or.inl ⟨_, _, rfl, hsame _⟩
  split
  · exact Or.inl ⟨_, _, rfl, hsame _⟩
  rename_i identity _
  split
  · exact Or.inl ⟨_, _, rfl, hsame _⟩
  dsimp only
  split
  · exact Or.inl ⟨_, _, rfl, hsame _⟩
  split
  · exact Or.inl ⟨_, _, rfl, hsame _⟩
  rename_i hpermits
  split
  · rename_i counts reason hopen
    refine Or.inl ⟨_, _, rfl, ?_, rfl, rfl⟩
    intro key
    have hcount := countOf_openSession_error (congrArg Prod.snd hopen) key
    rw [hopen] at hcount
    exact hcount
  · rename_i counts hopen
    refine Or.inr ⟨_, _, rfl, by simpa using hpermits, ?_, ?_, rfl⟩
    · rw [hopen]
    · rw [hopen]

def Outcome.lookupOk (outcome : Outcome) : Bool :=
  match outcome.backend with
  | some (.ok _) => true
  | _ => false

/-- The session is in the map and its count is kept. -/
structure Started (d : Daemon) (o : Opening) (d' : Daemon) (session : Session) : Prop where
  id : session.id = 's' :: Text.ofNat d.nextSession
  identity : session.identity = o.identity
  model : session.model = o.manifest.name
  counts : d'.counts = d.counts
  sessions : d'.sessions = d.sessions.insert session.id session
  nextSession : d'.nextSession = d.nextSession + 1

/-- The map is as it was and one count was given back. -/
structure Undone (d : Daemon) (o : Opening) (d' : Daemon) : Prop where
  counts : d'.counts = closeSession d.counts o.identity
  sessions : d'.sessions = d.sessions
  nextSession : d.nextSession ≤ d'.nextSession

theorem startSession_cases (d : Daemon) (session : Session) (outcome : Outcome)
    (hfresh : d.sessions.lookup session.id = none) :
    (∃ d' e, startSession d session outcome = (d', .error e) ∧
        d'.counts = closeSession d.counts session.identity ∧ d'.sessions = d.sessions ∧
        d'.nextSession = d.nextSession) ∨
      ∃ d', startSession d session outcome = (d', .ok session) ∧ d'.counts = d.counts ∧
        d'.sessions = d.sessions.insert session.id session ∧ d'.nextSession = d.nextSession := by
  have herase := erase_insert_self hfresh session
  unfold startSession
  dsimp only
  split
  · exact Or.inl ⟨_, _, rfl, rfl, herase, rfl⟩
  split
  · exact Or.inl ⟨_, _, rfl, rfl, herase, rfl⟩
  · exact Or.inr ⟨_, rfl, rfl, rfl, rfl⟩

/-- **One count back** for every failure but a failed backend lookup, which
    gives back two. -/
theorem finishSession_cases (d : Daemon) (o : Opening) (outcome : Outcome)
    (hfresh : d.sessions.lookup ('s' :: Text.ofNat d.nextSession) = none) :
    (∃ d' session, finishSession d o outcome = (d', .ok session) ∧ Started d o d' session) ∨
      (∃ d' e, finishSession d o outcome = (d', .error e) ∧ outcome.lookupOk = true ∧
        Undone d o d') ∨
      ∃ d' e, finishSession d o outcome = (d', .error e) ∧ outcome.lookupOk = false ∧
        Undone (d.closeSession o.identity) o d' := by
  unfold finishSession
  dsimp only
  split
  · rename_i backend hbackend
    have hok : outcome.lookupOk = true := by simp [Outcome.lookupOk, hbackend]
    split
    · exact Or.inr (Or.inl ⟨_, _, rfl, hok, rfl, rfl, le_rfl⟩)
    split
    · exact Or.inr (Or.inl ⟨_, _, rfl, hok, rfl, rfl, Nat.le_succ _⟩)
    · rcases startSession_cases d.nextSessionId.2 (sessionOf o backend d.nextSessionId.1) outcome
        hfresh with ⟨d', e, heq, hcounts, hsessions, hnext⟩ | ⟨d', heq, hcounts, hsessions, hnext⟩
      · refine Or.inr (Or.inl ⟨d', e, heq, hok, hcounts, hsessions, ?_⟩)
        rw [hnext]
        exact Nat.le_succ _
      · exact Or.inl ⟨d', _, heq, rfl, rfl, rfl, hcounts, hsessions, hnext⟩
  · rename_i e hbackend
    have hno : outcome.lookupOk = false := by simp [Outcome.lookupOk, hbackend]
    exact Or.inr (Or.inr ⟨_, _, rfl, hno, rfl, rfl, le_rfl⟩)
  · rename_i hbackend
    have hno : outcome.lookupOk = false := by simp [Outcome.lookupOk, hbackend]
    exact Or.inr (Or.inr ⟨_, _, rfl, hno, rfl, rfl, le_rfl⟩)

/-! ### Limits a new session is held to -/

theorem finishSession_ok {d : Daemon} {o : Opening} {outcome : Outcome} {session : Session}
    (h : (finishSession d o outcome).2 = .ok session) :
    session.identity = o.identity ∧ session.model = o.manifest.name := by
  have hstart : ∀ (d : Daemon) (built : Session),
      (startSession d built outcome).2 = .ok session → session = built := by
    intro d built hbuilt
    unfold startSession at hbuilt
    dsimp only at hbuilt
    split at hbuilt
    · cases hbuilt
    split at hbuilt
    · cases hbuilt
    · exact (Except.ok.inj hbuilt).symm
  unfold finishSession at h
  dsimp only at h
  split at h
  · split at h
    · cases h
    split at h
    · cases h
    · rw [hstart _ _ h]
      exact ⟨rfl, rfl⟩
  · cases h
  · cases h

/-- What the calls that succeed have passed, in the identity's own limits. -/
theorem createSession_ok {config : Config} {d : Daemon} {call : Call} {outcome : Outcome}
    {session : Session} (h : (createSession config d call outcome).2 = .ok session) :
    (limitsFor config session.identity).permitsModel session.model = true ∧
      countOf d.counts session.identity.key < (limitsFor config session.identity).maxSessions := by
  unfold createSession at h
  rcases beginSession_cases config d call with ⟨d', e, hbegin, -⟩ | ⟨d', o, hbegin, hbegan⟩
  · rw [hbegin] at h
    cases h
  · rw [hbegin] at h
    obtain ⟨hidentity, hmodel⟩ := finishSession_ok h
    rw [hidentity, hmodel]
    exact ⟨hbegan.permitted, (countOf_openSession_ok hbegan.opened).1⟩

theorem attenuate_permits_iff {limits : Limits} {options : Options} {m : Text}
    (h : limits.permitsModel m = true) :
    (attenuate limits options).permitsModel m = true ↔
      ∀ models, options.strings "allowed_models" = some models → ['*'] ∈ models ∨ m ∈ models := by
  rw [permitsModel_iff, attenuate_allowedModels]
  rw [permitsModel_iff] at h
  cases hmodels : options.strings "allowed_models" with
  | none => simpa [narrowModels, hmodels] using h
  | some models =>
    simp only [mem_narrowModels hmodels, true_or, or_true, and_true, Option.some.injEq,
      forall_eq']
    constructor
    · rintro (hstar | ⟨hm, -⟩)
      · exact Or.inl hstar
      · exact Or.inr hm
    · rintro (hstar | hm)
      · exact Or.inl hstar
      · refine Or.inr ⟨hm, ?_⟩
        rcases h with h | h
        · exact Or.inl h
        · exact Or.inr (Or.inr h)

theorem lt_attenuate_maxSessions_iff {limits : Limits} {options : Options} {count : Nat}
    (h : count < limits.maxSessions) :
    count < (attenuate limits options).maxSessions ↔
      ∀ v, options.u32 "max_sessions" = some v → count < v.toNat := by
  rw [attenuate_maxSessions]
  cases hv : options.u32 "max_sessions" with
  | none => simpa [narrowSessions, hv] using h
  | some v => simp [narrowSessions, hv, h]

/-- **A session is within its narrowed limits** exactly when the options that
    narrow them leave the model in and the open sessions below the ceiling. -/
theorem createSession_enforces_iff (config : Config) (d : Daemon) (call : Call)
    (outcome : Outcome) (session : Session)
    (h : (createSession config d call outcome).2 = .ok session) :
    ((attenuate (limitsFor config session.identity) call.options).permitsModel session.model =
    true ∧
        countOf d.counts session.identity.key <
          (attenuate (limitsFor config session.identity) call.options).maxSessions) ↔
      (∀ models, call.options.strings "allowed_models" = some models →
          ['*'] ∈ models ∨ session.model ∈ models) ∧
        ∀ v, call.options.u32 "max_sessions" = some v →
          countOf d.counts session.identity.key < v.toNat := by
  obtain ⟨hpermitted, hcount⟩ := createSession_ok h
  rw [attenuate_permits_iff hpermitted, lt_attenuate_maxSessions_iff hcount]

/-- The shipped policy with no gate, one user's terminal, one model. -/
def openConfig : Config := ⟨{ defaultPolicy with gateGroup := [] }, []⟩

def openCall (options : Options) : Call where
  host := Manager.desktop "app.slice/app-gnome-org.gnome.TextEditor-4242.scope"
  answer := .ok ⟨some 1000, some 77⟩
  resolve name _ := .ok ⟨name, "sha256:0".toList, ["generate".toList], 0⟩
  model := "small".toList
  options

def allWell : Outcome := ⟨some (.ok ⟨"mock".toList, ["generate".toList], true⟩), .ok (), .ok (),
  .ok (), .ok ()⟩

/-- The session `openCall` leads to. -/
def editorSession (id : String) : Session where
  id := id.toList
  objectPath := sessionPath id.toList
  identity := ⟨.native, 1000, 1000, 77, some "org.gnome.TextEditor".toList, none, none, none, false⟩
  model := "small".toList
  digest := "sha256:0".toList
  backend := "mock".toList
  capabilities := ["generate".toList]
  isLocal := true
  cls := .interactive
  maxContext := 131072

def modelsOption (models : List Text) : Options :=
  (∅ : Options).insert "allowed_models".toList (.ofStrings models)

theorem small_session_within_limits :
    (createSession openConfig Daemon.new (openCall (modelsOption ["small".toList])) allWell).2 =
        .ok (editorSession "s1") ∧
      (attenuate (limitsFor openConfig (editorSession "s1").identity)
        (modelsOption ["small".toList])).permitsModel (editorSession "s1").model = true ∧
      countOf Daemon.new.counts (editorSession "s1").identity.key <
        (attenuate (limitsFor openConfig (editorSession "s1").identity)
          (modelsOption ["small".toList])).maxSessions := by
  refine ⟨rfl, (createSession_enforces_iff openConfig Daemon.new
    (openCall (modelsOption ["small".toList])) allWell (editorSession "s1") rfl).mpr ⟨?_, ?_⟩⟩
  · intro models hmodels
    cases hmodels
    decide
  · intro v hv
    cases hv

/-- The caller allows its session another model only, and gets the session. -/
theorem session_outside_narrowed_models :
    ¬ ∀ (config : Config) (d : Daemon) (call : Call) (outcome : Outcome) (session : Session),
      (createSession config d call outcome).2 = .ok session →
      (attenuate (limitsFor config session.identity) call.options).permitsModel session.model =
          true ∧
        countOf d.counts session.identity.key <
          (attenuate (limitsFor config session.identity) call.options).maxSessions := by
  intro hall
  have hpermits := (hall openConfig Daemon.new (openCall (modelsOption ["large".toList])) allWell
    (editorSession "s1") rfl).1
  revert hpermits
  decide

end AiDaemon
