import AiDaemon.SessionCount

/-!
# Sessions from start to end (`dbusapi.rs`: `create_session`; `session.rs`: `spawn`, `retire`)

Once `create_session` has a backend it logs the session's start and builds the
rest of it in steps: map, guard, bus object, thread.  A thread of its own then
serves the session.  Whoever is left with it undoes all of that in `retire`,
which is again several steps, between any two of which other sessions go on.

At every moment just one of the guard and the thread has the clean-up still to
do (`Life.Custody`).  So the end of a session is logged once, its count goes
back once, and it leaves the map and the KV table for good.  Its object leaves
the bus where the daemon knows its connection by then.  `main` records that
after the manager has begun to serve, and `unregister` returns without a word
where it is missing (`sessions_end_iff`).
-/

namespace AiDaemon

open Ledger Policy Transition

/-! ### Data -/

/-- The steps of `retire`, in order. -/
inductive RetireStep where
  | audit | kv | count | map | bus
deriving DecidableEq

def RetireStep.next : RetireStep → Option RetireStep
  | .audit => some .kv
  | .kv => some .count
  | .count => some .map
  | .map => some .bus
  | .bus => none

/-- What `create_session` does next, from the start of the session on. -/
inductive Creator where
  | logging | inserting | owning | registering | spawning | disarming | leaving
  | retiring (next : RetireStep)
  | left
deriving DecidableEq

/-- What the session's thread does next. -/
inductive Serving where
  | dup | reader | frames
  | retiring (next : RetireStep)
  | gone
deriving DecidableEq

structure Life where
  session : Session
  slot : SessionSlot
  creator : Creator
  thread : Option Serving
  closed : Bool

/-- What the sessions share. `bus` says whether `main` has recorded the
    connection, and `givenBack` which sessions have given their count back. -/
structure Shared where
  daemon : Daemon
  inner : Sched.Inner
  bus : Bool
  givenBack : List Text

structure LifeState where
  shared : Shared
  opening : List Opening
  lives : List Life

def LifeState.new : LifeState := ⟨⟨Daemon.new, Sched.Inner.new, false, []⟩, [], []⟩

/-! ### The steps of one session -/

def Shared.giveBack (s : Shared) (session : Session) : Shared :=
  { s with
    daemon := s.daemon.closeSession session.identity
    givenBack := s.givenBack ++ [session.id] }

/-- `dbusapi::unregister`. -/
def Shared.unregister (s : Shared) (path : Text) : Shared :=
  if s.bus then
    { s with daemon := { s.daemon with objects := s.daemon.objects.filter fun p => p ≠ path } }
  else s

def retireStep (s : Shared) (session : Session) : RetireStep → Shared
  | .audit => { s with
      daemon := s.daemon.log (.sessionEnd session.identity.key session.id session.model) }
  | .kv => { s with inner := (Sched.releaseKv s.inner session.id).val }
  | .count => s.giveBack session
  | .map => { s with
      daemon := { s.daemon with sessions := s.daemon.sessions.erase session.id } }
  | .bus => s.unregister session.objectPath

/-- The next step of `create_session`, which `result` says the outcome of where
    it can fail. -/
def creatorStep (s : Shared) (l : Life) (result : Except Text Unit) : Option (Shared × Life) :=
  match l.creator with
  | .logging =>
    let d := s.daemon.log (.sessionStart l.session.identity.key l.session.id l.session.model
      l.session.digest l.session.isLocal)
    some ({ s with daemon := d }, { l with creator := .inserting })
  | .inserting =>
    some ({ s with daemon := s.daemon.insertSession l.session }, { l with creator := .owning })
  | .owning =>
    some (s, { l with slot := { l.slot with session := some l.session }, creator := .registering })
  | .registering =>
    match result with
    | .ok () =>
      let d := { s.daemon with objects := s.daemon.objects ++ [l.session.objectPath] }
      some ({ s with daemon := d }, { l with creator := .spawning })
    | .error _ => some (s, { l with creator := .leaving })
  | .spawning =>
    match result with
    | .ok () => some (s, { l with creator := .disarming, thread := some .dup })
    | .error _ => some (s, { l with creator := .leaving })
  | .disarming =>
    some (s, { l with slot := { l.slot with armed := false }, creator := .leaving })
  | .leaving =>
    -- `Drop for SessionSlot`
    if l.slot.armed then
      match l.slot.session with
      | some _ => some (s, { l with creator := .retiring .audit })
      | none =>
        some ({ s with daemon := s.daemon.closeSession l.slot.identity },
          { l with creator := .left })
    else some (s, { l with creator := .left })
  | .retiring step =>
    some (retireStep s l.session step,
      { l with creator := (step.next.map Creator.retiring).getD .left })
  | .left => none

/-- The next step of the thread outside its loop. -/
def threadStep (s : Shared) (session : Session) (result : Except Text Unit) :
    Serving → Option (Shared × Serving)
  | .dup =>
    match result with
    | .ok () => some (s, .reader)
    | .error _ => some (s, .retiring .audit)
  | .reader =>
    match result with
    | .ok () => some (s, .frames)
    | .error _ => some (s, .retiring .audit)
  | .frames => none
  | .retiring step =>
    some (retireStep s session step, (step.next.map Serving.retiring).getD .gone)
  | .gone => none

/-- How `Worker::run` returns. -/
inductive Exit where
  | closed | readerGone | blob | fatal
deriving DecidableEq

/-- What a turn asks of the scheduler. -/
inductive TurnCall where
  | enqueue
  | admitTurn (ticket : Nat)
  | attach (ticket reqId : Nat)
  | release (ticket : Nat)
  | charge (now tokens : Nat)
  | reserveKv (order : IterOrder (Row Text Sched.KvEntry)) (now bytes : Nat)
  | markIdle (now : Nat)

def TurnCall.of (session : Session) : TurnCall → Sched.Call
  | .enqueue => .enqueue session.id session.cls
  | .admitTurn ticket => .admitTurn ticket
  | .attach ticket reqId => .attach ticket session.backend reqId
  | .release ticket => .release ticket
  | .charge now tokens => .charge now session.id tokens
  | .reserveKv order now bytes => .reserveKv order now session.id session.backend session.cls bytes
  | .markIdle now => .markIdle now session.id

/-! ### All of them -/

inductive LifeStep where
  | attachBus
  | begin (call : Call)
  | answer (index : Nat) (backend : Option (Except Text Backend))
      (socketpair objectPath : Except Text Unit)
  | create (index : Nat) (result : Except Text Unit)
  | thread (index : Nat) (result : Except Text Unit)
  | turn (index : Nat) (call : TurnCall)
  | exit (index : Nat) (why : Exit)
  | close (index : Nat)

def newLife (opening : Opening) (backend : Backend) (id : Text) : Life where
  session := sessionOf opening backend id
  slot := ⟨opening.identity, none, true⟩
  creator := .logging
  thread := none
  closed := false

/-- From the end of the wait for a backend to the start of the session. -/
def answerStep (st : LifeState) (opening : Opening) (backend : Option (Except Text Backend))
    (socketpair objectPath : Except Text Unit) : LifeState :=
  let slot : SessionSlot := ⟨opening.identity, none, true⟩
  let withDaemon d : LifeState := { st with shared := { st.shared with daemon := d } }
  match backend with
  | some (.ok backend) =>
    match socketpair with
    | .error _ => withDaemon (slot.drop st.shared.daemon)
    | .ok () =>
      let (id, d) := st.shared.daemon.nextSessionId
      match objectPath with
      | .error _ => withDaemon (slot.drop d)
      | .ok () =>
        { withDaemon d with lives := st.lives ++ [newLife opening backend id] }
  | _ => withDaemon (slot.drop (st.shared.daemon.closeSession opening.identity))

section Steps

variable (config : Config) (scheduler : Sched.Scheduler)

def lifeStep (st : LifeState) : LifeStep → Option LifeState
  | .attachBus => some { st with shared := { st.shared with bus := true } }
  | .begin call =>
    match beginSession config st.shared.daemon call with
    | (d, .ok o) =>
      some { st with shared := { st.shared with daemon := d }, opening := st.opening ++ [o] }
    | (d, .error _) => some { st with shared := { st.shared with daemon := d } }
  | .answer index backend socketpair objectPath =>
    (st.opening[index]?).map fun o =>
      answerStep { st with opening := st.opening.eraseIdx index } o backend socketpair objectPath
  | .create index result => do
    let l ← st.lives[index]?
    let (shared, l) ← creatorStep st.shared l result
    some { st with shared, lives := st.lives.set index l }
  | .thread index result => do
    let l ← st.lives[index]?
    let serving ← l.thread
    let (shared, serving) ← threadStep st.shared l.session result serving
    some { st with shared, lives := st.lives.set index { l with thread := some serving } }
  | .turn index call => do
    let l ← st.lives[index]?
    if l.thread = some .frames then
      let inner := (Sched.step scheduler st.shared.inner (call.of l.session)).val
      some { st with shared := { st.shared with inner } }
    else none
  | .exit index why => do
    let l ← st.lives[index]?
    if l.thread = some .frames ∧ (why = .closed → l.closed = true) then
      some { st with lives := st.lives.set index { l with thread := some (.retiring .audit) } }
    else none
  | .close index => do
    let l ← st.lives[index]?
    some { st with lives := st.lives.set index { l with closed := true } }

end Steps

/-! ### One session with nobody in between -/

def RetireStep.all : List RetireStep := [.audit, .kv, .count, .map, .bus]

/-- With the connection recorded, the steps of `retire` are `retire`. -/
theorem retire_alone {s : Shared} (hbus : s.bus = true) (session : Session) :
    (RetireStep.all.foldl (fun s step => retireStep s session step) s).daemon =
      retire s.daemon session := by
  simp [RetireStep.all, retireStep, Shared.giveBack, Shared.unregister, hbus, retire,
    Daemon.log, Daemon.closeSession]

def Outcome.of (outcome : Outcome) : Creator → Except Text Unit
  | .registering => outcome.register
  | .spawning => outcome.spawn
  | _ => .ok ()

def createAlone (outcome : Outcome) : Nat → Shared → Life → Shared × Life
  | 0, s, l => (s, l)
  | n + 1, s, l =>
    match creatorStep s l (outcome.of l.creator) with
    | some (s, l) => createAlone outcome n s l
    | none => (s, l)

/-- And the steps of `create_session` are `startSession`. -/
theorem create_alone {s : Shared} (hbus : s.bus = true) (opening : Opening) (backend : Backend)
    (id : Text) (outcome : Outcome) :
    (createAlone outcome 11 s (newLife opening backend id)).1.daemon =
        (startSession s.daemon (sessionOf opening backend id) outcome).1 ∧
      (createAlone outcome 11 s (newLife opening backend id)).2.creator = .left := by
  cases hregister : outcome.register with
  | error e =>
    simp [createAlone, creatorStep, newLife, Outcome.of, hregister, startSession,
      SessionSlot.drop, retireStep, RetireStep.next, Shared.giveBack, Shared.unregister, hbus,
      retire, Daemon.log, Daemon.closeSession]
  | ok _ =>
    cases hspawn : outcome.spawn with
    | error e =>
      simp [createAlone, creatorStep, newLife, Outcome.of, hregister, hspawn, startSession,
        SessionSlot.drop, retireStep, RetireStep.next, Shared.giveBack, Shared.unregister, hbus,
        retire, Daemon.log, Daemon.closeSession]
    | ok _ =>
      simp [createAlone, creatorStep, newLife, Outcome.of, hregister, hspawn, startSession,
        SessionSlot.drop]

/-! ### The record of a session -/

/-- What the log, the map and the counts have of a session. -/
structure SessionRecord where
  starts : Nat
  ends : Nat
  givenBack : Nat
  held : Option Session

def AuditRecord.starts (id : Text) : AuditRecord → Bool
  | .sessionStart _ session _ _ _ => session = id
  | _ => false

def AuditRecord.ends (id : Text) : AuditRecord → Bool
  | .sessionEnd _ session _ => session = id
  | _ => false

def Shared.record (s : Shared) (id : Text) : SessionRecord where
  starts := s.daemon.audit.countP (AuditRecord.starts id)
  ends := s.daemon.audit.countP (AuditRecord.ends id)
  givenBack := s.givenBack.count id
  held := s.daemon.sessions.lookup id

/-- A step of the session `id` leaves the others alone, but for what it may
    evict of theirs. -/
structure Shared.Frame (s s' : Shared) (id : Text) : Prop where
  record : ∀ other, other ≠ id → s'.record other = s.record other
  kv : ∀ other, other ≠ id → s.inner.kv.lookup other = none → s'.inner.kv.lookup other = none
  nextSession : s'.daemon.nextSession = s.daemon.nextSession

/-! ### Who cleans up -/

def RetireStep.index : RetireStep → Nat
  | .audit => 0
  | .kv => 1
  | .count => 2
  | .map => 3
  | .bus => 4

def Serving.cleaned : Serving → Nat
  | .retiring step => step.index
  | .gone => 5
  | .dup | .reader | .frames => 0

def Creator.cleaned (armed : Bool) : Creator → Nat
  | .retiring step => step.index
  | .left => if armed then 5 else 0
  | _ => 0

/-- How far the clean-up has come. -/
def Life.cleaned (l : Life) : Nat :=
  l.creator.cleaned l.slot.armed + (l.thread.map Serving.cleaned).getD 0

/-- The clean-up has one owner: the guard while it is armed, and from its
    disarming on the thread. In between the guard only gets disarmed. -/
def Life.Custody (l : Life) : Prop :=
  match l.creator with
  | .logging | .inserting | .owning | .registering | .spawning | .retiring _ =>
    l.thread = none ∧ l.slot.armed = true
  | .disarming => l.thread ≠ none ∧ l.slot.armed = true
  | .leaving | .left => l.thread = none ↔ l.slot.armed = true

/-- The guard knows the session by the time it can meet a failure. -/
def Life.Guarded (l : Life) : Prop :=
  match l.creator with
  | .logging | .inserting | .owning => True
  | _ => l.slot.session = some l.session

def Creator.started : Creator → Bool
  | .logging => false
  | _ => true

def Creator.inserted : Creator → Bool
  | .logging | .inserting => false
  | _ => true

theorem Creator.started_of_inserted {creator : Creator} (h : creator.inserted = true) :
    creator.started = true := by
  cases creator <;> first | rfl | cases h

/-- The record of a session that has come that far. -/
def Life.record (l : Life) : SessionRecord where
  starts := if l.creator.started then 1 else 0
  ends := if 0 < l.cleaned then 1 else 0
  givenBack := if 2 < l.cleaned then 1 else 0
  held := if l.creator.inserted ∧ l.cleaned ≤ 3 then some l.session else none

structure LifeInv (s : Shared) (l : Life) : Prop where
  custody : l.Custody
  guarded : l.Guarded
  record : s.record l.session.id = l.record
  kv : 1 < l.cleaned → s.inner.kv.lookup l.session.id = none

/-! ### Each step -/

theorem Shared.Frame.refl (s : Shared) (id : Text) : s.Frame s id :=
  ⟨fun _ _ => rfl, fun _ _ h => h, rfl⟩

/-- What a step of `retire` does to the record of its session. -/
def SessionRecord.after (r : SessionRecord) : RetireStep → SessionRecord
  | .audit => { r with ends := r.ends + 1 }
  | .kv => r
  | .count => { r with givenBack := r.givenBack + 1 }
  | .map => { r with held := none }
  | .bus => r

theorem lookup_releaseKv (inner : Sched.Inner) (id other : Text) :
    (Sched.releaseKv inner id).val.kv.lookup other =
      if other = id then none else inner.kv.lookup other := by
  unfold Sched.releaseKv
  cases hlookup : inner.kv.lookup id with
  | none =>
    by_cases hother : other = id
    · subst hother
      simp [hlookup]
    · simp [hother]
  | some entry =>
    by_cases hother : other = id
    · subst hother
      simp
    · simp [hother, AList.lookup_erase_ne hother]

theorem retireStep_record (s : Shared) (session : Session) (step : RetireStep) :
    (retireStep s session step).record session.id = (s.record session.id).after step := by
  cases step with
  | audit =>
    simp [retireStep, Shared.record, Daemon.log, List.countP_append, AuditRecord.starts,
      AuditRecord.ends, SessionRecord.after]
  | kv => rfl
  | count =>
    simp [retireStep, Shared.record, Shared.giveBack, Daemon.closeSession, SessionRecord.after]
  | map => simp [retireStep, Shared.record, SessionRecord.after]
  | bus =>
    simp only [retireStep, Shared.unregister, SessionRecord.after]
    split <;> rfl

theorem retireStep_frame (s : Shared) (session : Session) (step : RetireStep) :
    s.Frame (retireStep s session step) session.id := by
  cases step with
  | audit =>
    refine ⟨?_, fun _ _ h => h, rfl⟩
    intro other hother
    simp [retireStep, Shared.record, Daemon.log, List.countP_append, AuditRecord.starts,
      AuditRecord.ends, hother.symm]
  | kv =>
    refine ⟨fun _ _ => rfl, ?_, rfl⟩
    intro other hother hnone
    simp only [retireStep, lookup_releaseKv, if_neg hother, hnone]
  | count =>
    refine ⟨?_, fun _ _ h => h, rfl⟩
    intro other hother
    simp [retireStep, Shared.record, Shared.giveBack, Daemon.closeSession, hother.symm]
  | map =>
    refine ⟨?_, fun _ _ h => h, rfl⟩
    intro other hother
    simp [retireStep, Shared.record, AList.lookup_erase_ne hother]
  | bus =>
    simp only [retireStep, Shared.unregister]
    split
    · exact ⟨fun _ _ => rfl, fun _ _ h => h, rfl⟩
    · exact Shared.Frame.refl s _

/-- The clean-up goes on by one step, whoever does it. -/
theorem LifeInv.retire {s : Shared} {l l' : Life} (hinv : LifeInv s l) {step : RetireStep}
    (hsession : l'.session = l.session) (hcustody : l'.Custody) (hguarded : l'.Guarded)
    (hinserted : l.creator.inserted = true) (hinserted' : l'.creator.inserted = true)
    (hcleaned : l.cleaned = step.index) (hcleaned' : l'.cleaned = step.index + 1) :
    LifeInv (retireStep s l.session step) l' := by
  refine ⟨hcustody, hguarded, ?_, ?_⟩
  · rw [hsession, retireStep_record, hinv.record]
    simp only [Life.record, hinserted, hinserted', Creator.started_of_inserted hinserted,
      Creator.started_of_inserted hinserted', hcleaned, hcleaned', hsession]
    cases step <;> simp [SessionRecord.after, RetireStep.index]
  · intro hafter
    rw [hsession]
    have hbefore := hinv.kv
    rw [hcleaned] at hbefore
    rw [hcleaned'] at hafter
    cases step with
    | audit => simp [RetireStep.index] at hafter
    | kv => simp [retireStep, lookup_releaseKv]
    | count => exact hbefore (by decide)
    | map => exact hbefore (by decide)
    | bus =>
      have hnone := hbefore (by decide)
      simp only [retireStep, Shared.unregister]
      split <;> exact hnone

/-- A step that changes nothing that the sessions share, nor how far this one's
    clean-up has come. -/
theorem LifeInv.move {s : Shared} {l l' : Life} (hinv : LifeInv s l)
    (hsession : l'.session = l.session) (hcustody : l'.Custody) (hguarded : l'.Guarded)
    (hinserted : l.creator.inserted = true) (hinserted' : l'.creator.inserted = true)
    (hcleaned : l'.cleaned = l.cleaned) : LifeInv s l' := by
  refine ⟨hcustody, hguarded, ?_, ?_⟩
  · rw [hsession, hinv.record]
    simp only [Life.record, hinserted, hinserted', Creator.started_of_inserted hinserted,
      Creator.started_of_inserted hinserted', hcleaned, hsession]
  · rw [hsession, hcleaned]
    exact hinv.kv

theorem creatorStep_inv {s s' : Shared} {l l' : Life} {result : Except Text Unit}
    (hinv : LifeInv s l) (h : creatorStep s l result = some (s', l')) :
    LifeInv s' l' ∧ s.Frame s' l.session.id ∧ l'.session = l.session := by
  have hcustody := hinv.custody
  have hguarded := hinv.guarded
  have hrecord := hinv.record
  obtain ⟨session, slot, creator, thread, closed⟩ := l
  unfold creatorStep at h
  cases creator with
  | logging =>
    obtain ⟨rfl, harmed⟩ := hcustody
    simp only [Option.some.injEq, Prod.mk.injEq] at h
    obtain ⟨rfl, rfl⟩ := h
    refine ⟨⟨⟨rfl, harmed⟩, hguarded, ?_, ?_⟩, ⟨?_, fun _ _ h => h, rfl⟩, rfl⟩
    · simpa [Life.record, Life.cleaned, Creator.cleaned, Shared.record, Daemon.log,
        List.countP_append, AuditRecord.starts, AuditRecord.ends, Creator.started,
        Creator.inserted] using hrecord
    · simp [Life.cleaned, Creator.cleaned]
    · intro other hother
      simp [Shared.record, Daemon.log, List.countP_append, AuditRecord.starts, AuditRecord.ends,
        Ne.symm hother]
  | inserting =>
    obtain ⟨rfl, harmed⟩ := hcustody
    simp only [Option.some.injEq, Prod.mk.injEq] at h
    obtain ⟨rfl, rfl⟩ := h
    refine ⟨⟨⟨rfl, harmed⟩, hguarded, ?_, ?_⟩, ⟨?_, fun _ _ h => h, rfl⟩, rfl⟩
    · simp only [Life.record, Life.cleaned, Creator.cleaned, Shared.record, Creator.started,
        SessionRecord.mk.injEq] at hrecord
      simp only [Life.record, Life.cleaned, Creator.cleaned, Shared.record, Creator.started,
        Daemon.insertSession, SessionRecord.mk.injEq]
      exact ⟨hrecord.1, hrecord.2.1, hrecord.2.2.1, AList.lookup_insert _⟩
    · simp [Life.cleaned, Creator.cleaned]
    · intro other hother
      simp [Shared.record, Daemon.insertSession, AList.lookup_insert_ne hother]
  | owning =>
    obtain ⟨rfl, harmed⟩ := hcustody
    simp only [Option.some.injEq, Prod.mk.injEq] at h
    obtain ⟨rfl, rfl⟩ := h
    exact ⟨hinv.move rfl ⟨rfl, harmed⟩ rfl rfl rfl rfl, Shared.Frame.refl s _, rfl⟩
  | registering =>
    obtain ⟨rfl, harmed⟩ := hcustody
    cases result with
    | error e =>
      simp only [Option.some.injEq, Prod.mk.injEq] at h
      obtain ⟨rfl, rfl⟩ := h
      exact ⟨hinv.move rfl (iff_of_true rfl harmed) hguarded rfl rfl rfl,
        Shared.Frame.refl s _, rfl⟩
    | ok _ =>
      simp only [Option.some.injEq, Prod.mk.injEq] at h
      obtain ⟨rfl, rfl⟩ := h
      have hmoved : LifeInv s ⟨session, slot, .spawning, none, closed⟩ :=
        hinv.move rfl ⟨rfl, harmed⟩ hguarded rfl rfl rfl
      exact ⟨⟨hmoved.custody, hmoved.guarded, hmoved.record, hmoved.kv⟩,
        ⟨fun _ _ => rfl, fun _ _ h => h, rfl⟩, rfl⟩
  | spawning =>
    obtain ⟨rfl, harmed⟩ := hcustody
    cases result with
    | error e =>
      simp only [Option.some.injEq, Prod.mk.injEq] at h
      obtain ⟨rfl, rfl⟩ := h
      exact ⟨hinv.move rfl (iff_of_true rfl harmed) hguarded rfl rfl rfl,
        Shared.Frame.refl s _, rfl⟩
    | ok _ =>
      simp only [Option.some.injEq, Prod.mk.injEq] at h
      obtain ⟨rfl, rfl⟩ := h
      exact ⟨hinv.move rfl ⟨by simp, harmed⟩ hguarded rfl rfl rfl,
        Shared.Frame.refl s _, rfl⟩
  | disarming =>
    obtain ⟨hthread, harmed⟩ := hcustody
    simp only [Option.some.injEq, Prod.mk.injEq] at h
    obtain ⟨rfl, rfl⟩ := h
    exact ⟨hinv.move rfl (iff_of_false hthread Bool.false_ne_true) hguarded rfl rfl rfl,
      Shared.Frame.refl s _, rfl⟩
  | leaving =>
    have hsession : slot.session = some session := hguarded
    simp only [hsession] at h
    split at h
    · rename_i harmed
      simp only [Option.some.injEq, Prod.mk.injEq] at h
      obtain ⟨rfl, rfl⟩ := h
      exact ⟨hinv.move rfl ⟨hcustody.mpr harmed, harmed⟩ hguarded rfl rfl rfl,
        Shared.Frame.refl s _, rfl⟩
    · rename_i hdisarmed
      simp only [Option.some.injEq, Prod.mk.injEq] at h
      obtain ⟨rfl, rfl⟩ := h
      exact ⟨hinv.move rfl hcustody hguarded rfl rfl
        (by simp [Life.cleaned, Creator.cleaned, hdisarmed]), Shared.Frame.refl s _, rfl⟩
  | retiring step =>
    obtain ⟨rfl, harmed⟩ := hcustody
    have hnow : slot.armed = true := harmed
    simp only [Option.some.injEq, Prod.mk.injEq] at h
    obtain ⟨rfl, rfl⟩ := h
    refine ⟨?_, retireStep_frame s session step, rfl⟩
    apply hinv.retire
    · rfl
    · cases step <;> simp [RetireStep.next, Life.Custody, hnow]
    · cases step <;> exact hguarded
    · rfl
    · cases step <;> rfl
    · cases step <;> rfl
    · cases step <;> simp [RetireStep.next, Life.cleaned, Creator.cleaned, RetireStep.index, hnow]
  | left => cases h

/-- The life of a session with a thread, as its thread goes on. -/
structure Threaded (l : Life) (serving : Serving) : Prop where
  custody : ∀ serving', ({ l with thread := some serving' } : Life).Custody
  inserted : l.creator.inserted = true
  guarded : l.Guarded
  cleaned : ∀ serving', ({ l with thread := some serving' } : Life).cleaned = serving'.cleaned
  now : l.cleaned = serving.cleaned

theorem LifeInv.threaded {s : Shared} {l : Life} (hinv : LifeInv s l) {serving : Serving}
    (hthread : l.thread = some serving) : Threaded l serving := by
  have hcustody := hinv.custody
  have hguarded := hinv.guarded
  obtain ⟨session, slot, creator, thread, closed⟩ := l
  cases hthread
  cases creator with
  | logging | inserting | owning | registering | spawning | retiring => cases hcustody.1
  | disarming =>
    refine ⟨?_, rfl, hguarded, ?_, ?_⟩
    · intro serving'
      exact ⟨by simp, hcustody.2⟩
    · intro serving'
      exact Nat.zero_add _
    · exact Nat.zero_add _
  | leaving | left =>
    have hdisarmed : slot.armed = false := by simpa [Life.Custody] using hcustody
    refine ⟨?_, rfl, hguarded, ?_, ?_⟩
    · intro serving'
      simp [Life.Custody, hdisarmed]
    · intro serving'
      simp [Life.cleaned, Creator.cleaned, hdisarmed]
    · simp [Life.cleaned, Creator.cleaned, hdisarmed]

/-- A step of the thread leaves everything as it is, or takes one step of the
    clean-up. -/
theorem threadStep_cases {s s' : Shared} {session : Session} {serving serving' : Serving}
    {result : Except Text Unit} (h : threadStep s session result serving = some (s', serving')) :
    (s' = s ∧ serving'.cleaned = serving.cleaned ∧ ∀ step, serving ≠ .retiring step) ∨
      ∃ step, serving = .retiring step ∧ s' = retireStep s session step ∧
        serving' = (step.next.map Serving.retiring).getD .gone := by
  cases serving with
  | dup =>
    left
    cases result <;> cases h <;> exact ⟨rfl, rfl, fun _ => nofun⟩
  | reader =>
    left
    cases result <;> cases h <;> exact ⟨rfl, rfl, fun _ => nofun⟩
  | frames => cases h
  | retiring step =>
    right
    simp only [threadStep, Option.some.injEq, Prod.mk.injEq] at h
    exact ⟨step, rfl, h.1.symm, h.2.symm⟩
  | gone => cases h

theorem threadStep_inv {s s' : Shared} {l : Life} {serving serving' : Serving}
    {result : Except Text Unit} (hinv : LifeInv s l) (hthread : l.thread = some serving)
    (h : threadStep s l.session result serving = some (s', serving')) :
    LifeInv s' { l with thread := some serving' } ∧ s.Frame s' l.session.id := by
  have hlife := hinv.threaded hthread
  have hmove : ∀ next : Serving, next.cleaned = serving.cleaned →
      LifeInv s { l with thread := some next } := by
    intro next hnext
    exact hinv.move rfl (hlife.custody next) hlife.guarded hlife.inserted hlife.inserted
      ((hlife.cleaned next).trans (hnext.trans hlife.now.symm))
  rcases threadStep_cases h with ⟨rfl, hmoved, -⟩ | ⟨step, rfl, rfl, rfl⟩
  · exact ⟨hmove serving' hmoved, Shared.Frame.refl s' _⟩
  · refine ⟨?_, retireStep_frame s l.session step⟩
    have hnext : ({ l with thread := some ((step.next.map Serving.retiring).getD .gone) } :
        Life).cleaned = step.index + 1 := by
      rw [hlife.cleaned]
      cases step <;> rfl
    exact hinv.retire rfl (hlife.custody _) hlife.guarded hlife.inserted hlife.inserted hlife.now
      hnext

/-! ### The scheduler -/

theorem lookup_commit_none (id : Text) (victims : List Sched.Victim) (kv : Table Text Sched.KvEntry)
    (used : Nat) (h : kv.lookup id = none) :
    (Sched.commit victims kv used).val.1.lookup id = none := by
  induction victims generalizing kv used with
  | nil => exact h
  | cons v victims ih =>
    apply ih
    by_cases hid : id = v.id
    · subst hid
      exact AList.lookup_erase _ _
    · rw [AList.lookup_erase_ne hid]
      exact h

theorem lookup_insert_none {id other : Text} (hother : other ≠ id) {kv : Table Text Sched.KvEntry}
    (entry : Sched.KvEntry) (h : kv.lookup other = none) :
    (kv.insert id entry).lookup other = none := by
  rw [AList.lookup_insert_ne hother]
  exact h

/-- A turn makes no KV entry for any session but its own. -/
theorem turn_kv (scheduler : Sched.Scheduler) (inner : Sched.Inner) (session : Session)
    (call : TurnCall) {other : Text} (hother : other ≠ session.id)
    (h : inner.kv.lookup other = none) :
    (Sched.step scheduler inner (call.of session)).val.kv.lookup other = none := by
  cases call with
  | enqueue => exact h
  | admitTurn ticket =>
    cases hturn : Sched.admitTurn scheduler inner ticket with
    | none => simpa [TurnCall.of, Sched.step, hturn] using h
    | some next =>
      obtain ⟨me, -, hadmitted⟩ := Sched.admitTurn_cases hturn
      simpa [TurnCall.of, Sched.step, hturn, hadmitted.kv] using h
  | attach ticket reqId => exact h
  | release ticket =>
    simp only [TurnCall.of, Sched.step, Sched.release]
    split <;> exact h
  | charge now tokens =>
    simp only [TurnCall.of, Sched.step, Sched.charge]
    split
    · exact lookup_insert_none hother _ h
    · exact h
  | reserveKv order now bytes =>
    simp only [TurnCall.of, Sched.step, Sched.reserveKv]
    split
    · split
      · exact h
      · simp only [Machine.Traced.val_bind]
        split
        · exact h
        · exact lookup_insert_none hother _ (lookup_commit_none _ _ _ _ h)
    · exact lookup_insert_none hother _ h
  | markIdle now =>
    simp only [TurnCall.of, Sched.step, Sched.markIdle]
    split
    · exact lookup_insert_none hother _ h
    · exact h

/-! ### All sessions -/

/-- A step of no session: it may only take ids. -/
structure Shared.Quiet (s s' : Shared) : Prop where
  record : ∀ id, s'.record id = s.record id
  kv : s'.inner = s.inner
  nextSession : s.daemon.nextSession ≤ s'.daemon.nextSession

structure LivesInv (s : Shared) (lives : List Life) : Prop where
  each : ∀ (i : Nat) l, lives[i]? = some l → LifeInv s l
  named : ∀ (i : Nat) l, lives[i]? = some l → l.session.objectPath = sessionPath l.session.id ∧
    ∃ n < s.daemon.nextSession, l.session.id = 's' :: Text.ofNat n
  distinct : ∀ (i j : Nat) l m, lives[i]? = some l → lives[j]? = some m →
    l.session.id = m.session.id → i = j
  fresh : ∀ n, s.daemon.nextSession ≤ n → s.record ('s' :: Text.ofNat n) = ⟨0, 0, 0, none⟩

theorem LifeInv.frame {s s' : Shared} {l : Life} {id : Text} (hinv : LifeInv s l)
    (hframe : s.Frame s' id) (hother : l.session.id ≠ id) : LifeInv s' l := by
  refine ⟨hinv.custody, hinv.guarded, ?_, ?_⟩
  · rw [hframe.record _ hother]
    exact hinv.record
  · intro hcleaned
    exact hframe.kv _ hother (hinv.kv hcleaned)

theorem LivesInv.quiet {s s' : Shared} {lives : List Life} (hinv : LivesInv s lives)
    (hquiet : s.Quiet s') : LivesInv s' lives := by
  refine ⟨?_, ?_, hinv.distinct, ?_⟩
  · intro i l hl
    have hlife := hinv.each i l hl
    refine ⟨hlife.custody, hlife.guarded, ?_, ?_⟩
    · rw [hquiet.record]
      exact hlife.record
    · rw [hquiet.kv]
      exact hlife.kv
  · intro i l hl
    obtain ⟨hpath, n, hn, hid⟩ := hinv.named i l hl
    exact ⟨hpath, n, Nat.lt_of_lt_of_le hn hquiet.nextSession, hid⟩
  · intro n hn
    rw [hquiet.record]
    exact hinv.fresh n (hquiet.nextSession.trans hn)

theorem getElem?_set_cases {α : Type} {l : List α} {i j : Nat} {a b : α}
    (h : (l.set i a)[j]? = some b) : (j = i ∧ b = a) ∨ (j ≠ i ∧ l[j]? = some b) := by
  rw [List.getElem?_set] at h
  grind

theorem set_getElem?_self {α : Type} {l : List α} {i : Nat} {a : α} (h : l[i]? = some a) :
    l.set i a = l := by
  obtain ⟨hi, rfl⟩ := List.getElem?_eq_some_iff.mp h
  exact List.set_getElem_self hi

theorem LivesInv.update {s s' : Shared} {lives : List Life} (hinv : LivesInv s lives) {i : Nat}
    {l l' : Life} (hl : lives[i]? = some l) (hlife : LifeInv s' l')
    (hframe : s.Frame s' l.session.id) (hsession : l'.session = l.session) :
    LivesInv s' (lives.set i l') := by
  have hold : ∀ (j : Nat) (m : Life), (lives.set i l')[j]? = some m →
      ∃ k, lives[j]? = some k ∧ m.session = k.session := by
    intro j m hm
    rcases getElem?_set_cases hm with ⟨rfl, rfl⟩ | ⟨-, hm⟩
    · exact ⟨l, hl, hsession⟩
    · exact ⟨m, hm, rfl⟩
  obtain ⟨-, n, hn, hid⟩ := hinv.named i l hl
  refine ⟨?_, ?_, ?_, ?_⟩
  · intro j m hm
    rcases getElem?_set_cases hm with ⟨rfl, rfl⟩ | ⟨hne, hm⟩
    · exact hlife
    · apply (hinv.each j m hm).frame hframe
      intro hsame
      exact hne (hinv.distinct j i m l hm hl hsame)
  · intro j m hm
    obtain ⟨k, hk, hsame⟩ := hold j m hm
    rw [hsame, hframe.nextSession]
    exact hinv.named j k hk
  · intro j k m₁ m₂ h₁ h₂ hsame
    obtain ⟨k₁, hk₁, heq₁⟩ := hold j m₁ h₁
    obtain ⟨k₂, hk₂, heq₂⟩ := hold k m₂ h₂
    exact hinv.distinct j k k₁ k₂ hk₁ hk₂ (by rw [← heq₁, ← heq₂, hsame])
  · intro m hm
    rw [hframe.nextSession] at hm
    rw [hframe.record]
    · exact hinv.fresh m hm
    · intro hsame
      have heq := Text.ofNat_injective (List.cons.inj (hsame.trans hid)).2
      omega

/-- A session that starts has an id nobody has had. -/
theorem LivesInv.start {s s' : Shared} {lives : List Life} (hinv : LivesInv s lives)
    (hquiet : s.Quiet s') (hnext : s'.daemon.nextSession = s.daemon.nextSession + 1)
    (opening : Opening) (backend : Backend) :
    LivesInv s' (lives ++ [newLife opening backend ('s' :: Text.ofNat s.daemon.nextSession)]) := by
  have hold := hinv.quiet hquiet
  have hcases : ∀ (j : Nat) m, (lives ++ [newLife opening backend
      ('s' :: Text.ofNat s.daemon.nextSession)])[j]? = some m → lives[j]? = some m ∨
        (j = lives.length ∧
          m = newLife opening backend ('s' :: Text.ofNat s.daemon.nextSession)) := by
    intro j m hm
    rw [List.getElem?_append] at hm
    grind
  have hfresh : ∀ (j : Nat) m, lives[j]? = some m →
      m.session.id ≠ 's' :: Text.ofNat s.daemon.nextSession := by
    intro j m hm hsame
    obtain ⟨-, n, hn, hid⟩ := hinv.named j m hm
    have heq := Text.ofNat_injective (List.cons.inj (hid.symm.trans hsame)).2
    omega
  refine ⟨?_, ?_, ?_, hold.fresh⟩
  · intro j m hm
    rcases hcases j m hm with hm | ⟨-, rfl⟩
    · exact hold.each j m hm
    · refine ⟨⟨rfl, rfl⟩, trivial, ?_, fun hcleaned => (Nat.not_lt_zero 1 hcleaned).elim⟩
      exact (hquiet.record _).trans (hinv.fresh _ le_rfl)
  · intro j m hm
    rcases hcases j m hm with hm | ⟨-, rfl⟩
    · exact hold.named j m hm
    · exact ⟨rfl, _, by omega, rfl⟩
  · intro i j l m hl hm hsame
    rcases hcases i l hl with hl | ⟨rfl, rfl⟩
    · rcases hcases j m hm with hm | ⟨-, rfl⟩
      · exact hinv.distinct i j l m hl hm hsame
      · exact absurd hsame (hfresh i l hl)
    · rcases hcases j m hm with hm | ⟨rfl, -⟩
      · exact absurd hsame.symm (hfresh j m hm)
      · rfl

/-! ### Runs -/

theorem starts_of_denied (id identity capability reason : Text) :
    AuditRecord.starts id (.denied identity capability reason) = false := rfl

theorem ends_of_denied (id identity capability reason : Text) :
    AuditRecord.ends id (.denied identity capability reason) = false := rfl

/-- Nothing of any session changes before the wait for a backend, whatever
    becomes of the call. -/
theorem beginSession_quiet (config : Config) (s : Shared) (call : Call) :
    s.Quiet { s with daemon := (beginSession config s.daemon call).1 } ∧
      (beginSession config s.daemon call).1.objects = s.daemon.objects := by
  have hsame : s.Quiet s := ⟨fun _ => rfl, rfl, le_rfl⟩
  have hdenied : ∀ identity capability reason,
      s.Quiet { s with daemon := s.daemon.log (.denied identity capability reason) } := by
    intro identity capability reason
    refine ⟨?_, rfl, le_rfl⟩
    intro id
    simp [Shared.record, Daemon.log, List.countP_append, starts_of_denied, ends_of_denied]
  unfold beginSession
  split
  · exact ⟨hsame, rfl⟩
  split
  · exact ⟨hsame, rfl⟩
  split
  · exact ⟨hdenied _ _ _, rfl⟩
  dsimp only
  split
  · exact ⟨hsame, rfl⟩
  split
  · exact ⟨hdenied _ _ _, rfl⟩
  split
  · exact ⟨⟨fun _ => rfl, rfl, le_rfl⟩, rfl⟩
  · exact ⟨⟨fun _ => rfl, rfl, le_rfl⟩, rfl⟩

/-- Whoever has finished cleaning up has taken the object off the bus. -/
def OffBus (s : Shared) (lives : List Life) : Prop :=
  ∀ (i : Nat) l, lives[i]? = some l → l.cleaned = 5 → l.session.objectPath ∉ s.daemon.objects

theorem OffBus.same {s s' : Shared} {lives : List Life} (h : OffBus s lives)
    (hobjects : s'.daemon.objects = s.daemon.objects) : OffBus s' lives := by
  intro i l hl hcleaned
  rw [hobjects]
  exact h i l hl hcleaned

theorem sessionPath_injective : Function.Injective sessionPath := by
  intro a b h
  exact List.append_cancel_left h

theorem LivesInv.path_ne {s : Shared} {lives : List Life} (hinv : LivesInv s lives) {i j : Nat}
    {l m : Life} (hl : lives[i]? = some l) (hm : lives[j]? = some m) (hne : j ≠ i) :
    m.session.objectPath ≠ l.session.objectPath := by
  rw [(hinv.named i l hl).1, (hinv.named j m hm).1]
  intro hsame
  exact hne (hinv.distinct j i m l hm hl (sessionPath_injective hsame))

/-- A step of one session leaves it to that session whether all are still off. -/
theorem LivesInv.offBus_update {s s' : Shared} {lives : List Life} (hinv : LivesInv s lives)
    (hoff : OffBus s lives) {i : Nat} {l l' : Life} (hl : lives[i]? = some l)
    (hsession : l'.session = l.session)
    (hothers : ∀ path, path ≠ l.session.objectPath →
      (path ∈ s'.daemon.objects ↔ path ∈ s.daemon.objects)) :
    OffBus s' (lives.set i l') ↔
      (l'.cleaned = 5 → l.session.objectPath ∉ s'.daemon.objects) := by
  have hi : i < lives.length := (List.getElem?_eq_some_iff.mp hl).1
  constructor
  · intro hall hcleaned
    rw [← hsession]
    exact hall i l' (by simp [hi]) hcleaned
  · intro hown j m hm hcleaned
    rcases getElem?_set_cases hm with ⟨rfl, rfl⟩ | ⟨hne, hm⟩
    · rw [hsession]
      exact hown hcleaned
    · rw [hothers _ (hinv.path_ne hl hm hne)]
      exact hoff j m hm hcleaned

/-- What a step of a session does on the bus: it takes its object off in the
    last step of its clean-up, and where it has cleaned up it does nothing. -/
structure BusSpec (s s' : Shared) (l l' : Life) (takesOff : Prop) : Prop where
  others : ∀ path, path ≠ l.session.objectPath →
    (path ∈ s'.daemon.objects ↔ path ∈ s.daemon.objects)
  off : takesOff → l'.cleaned = 5 ∧ s' = s.unregister l.session.objectPath
  idle : ¬ takesOff → l'.cleaned = 5 → l.cleaned = 5 ∧ s'.daemon.objects = s.daemon.objects

theorem mem_unregister (s : Shared) (path p : Text) :
    p ∈ (s.unregister path).daemon.objects ↔
      p ∈ s.daemon.objects ∧ (p = path → s.bus = false) := by
  unfold Shared.unregister
  cases s.bus <;> simp

theorem retireStep_bus {s : Shared} {l l' : Life} {step : RetireStep}
    (hcleaned' : l'.cleaned = step.index + 1) :
    BusSpec s (retireStep s l.session step) l l' (step = .bus) := by
  refine ⟨?_, ?_, ?_⟩
  · intro path hpath
    cases step with
    | audit | kv | count | map => rfl
    | bus => simp [retireStep, mem_unregister, hpath]
  · rintro rfl
    exact ⟨hcleaned', rfl⟩
  · intro hstep hdone
    cases step with
    | bus => exact absurd rfl hstep
    | audit | kv | count | map => simp [hcleaned', RetireStep.index] at hdone

/-- A step of a session that cleans nothing up. -/
theorem BusSpec.of_unfinished {s s' : Shared} {l l' : Life} {takesOff : Prop}
    (hothers : ∀ path, path ≠ l.session.objectPath →
      (path ∈ s'.daemon.objects ↔ path ∈ s.daemon.objects))
    (htakes : ¬ takesOff) (hunfinished : l'.cleaned ≠ 5) : BusSpec s s' l l' takesOff :=
  ⟨hothers, fun h => absurd h htakes, fun _ h => absurd h hunfinished⟩

theorem BusSpec.of_same {s s' : Shared} {l l' : Life} {takesOff : Prop}
    (hobjects : s'.daemon.objects = s.daemon.objects) (htakes : ¬ takesOff)
    (hcleaned : l'.cleaned = l.cleaned) : BusSpec s s' l l' takesOff := by
  refine ⟨fun _ _ => by rw [hobjects], fun h => absurd h htakes, ?_⟩
  intro _ hdone
  exact ⟨hcleaned ▸ hdone, hobjects⟩

theorem creatorStep_bus {s s' : Shared} {l l' : Life} {result : Except Text Unit}
    (hinv : LifeInv s l) (h : creatorStep s l result = some (s', l')) :
    BusSpec s s' l l' (l.creator = .retiring .bus) := by
  have hcustody := hinv.custody
  have hguarded := hinv.guarded
  obtain ⟨session, slot, creator, thread, closed⟩ := l
  unfold creatorStep at h
  cases creator with
  | logging =>
    cases h
    exact BusSpec.of_same rfl (by simp) rfl
  | inserting =>
    cases h
    exact BusSpec.of_same rfl (by simp) rfl
  | owning =>
    cases h
    exact BusSpec.of_same rfl (by simp) rfl
  | registering =>
    obtain ⟨rfl, -⟩ := hcustody
    cases result with
    | error e =>
      cases h
      exact BusSpec.of_same rfl (by simp) rfl
    | ok _ =>
      cases h
      refine BusSpec.of_unfinished ?_ (by simp) (by simp [Life.cleaned, Creator.cleaned])
      intro path hpath
      simp [hpath]
  | spawning =>
    obtain ⟨rfl, -⟩ := hcustody
    cases result with
    | error e =>
      cases h
      exact BusSpec.of_same rfl (by simp) rfl
    | ok _ =>
      cases h
      exact BusSpec.of_same rfl (by simp) rfl
  | disarming =>
    cases h
    exact BusSpec.of_same rfl (by simp) rfl
  | leaving =>
    have hsession : slot.session = some session := hguarded
    simp only [hsession] at h
    split at h
    · cases h
      exact BusSpec.of_same rfl (by simp) rfl
    · rename_i hdisarmed
      cases h
      exact BusSpec.of_same rfl (by simp) (by simp [Life.cleaned, Creator.cleaned, hdisarmed])
  | retiring step =>
    obtain ⟨rfl, harmed⟩ := hcustody
    have hnow : slot.armed = true := harmed
    cases h
    simp only [Creator.retiring.injEq]
    have hlast : (⟨session, slot, (step.next.map Creator.retiring).getD .left, none, closed⟩ :
        Life).cleaned = step.index + 1 := by
      cases step <;> simp [RetireStep.next, Life.cleaned, Creator.cleaned, RetireStep.index, hnow]
    exact @retireStep_bus s ⟨session, slot, .retiring step, none, closed⟩ _ step hlast
  | left => cases h

theorem threadStep_bus {s s' : Shared} {l : Life} {serving serving' : Serving}
    {result : Except Text Unit} (hinv : LifeInv s l) (hthread : l.thread = some serving)
    (h : threadStep s l.session result serving = some (s', serving')) :
    BusSpec s s' l { l with thread := some serving' } (serving = .retiring .bus) := by
  have hlife := hinv.threaded hthread
  have hmove : ∀ next : Serving, next.cleaned = serving.cleaned →
      ({ l with thread := some next } : Life).cleaned = l.cleaned := by
    intro next hnext
    rw [hlife.cleaned, hnext, hlife.now]
  rcases threadStep_cases h with ⟨rfl, hmoved, hserves⟩ | ⟨step, rfl, rfl, rfl⟩
  · exact BusSpec.of_same rfl (hserves .bus) (hmove serving' hmoved)
  · simp only [Serving.retiring.injEq]
    apply retireStep_bus
    rw [hlife.cleaned]
    cases step <;> rfl

/-! ### What holds -/

/-- A session is over when its clean-up is, or when nobody is left to clean up. -/
def Life.Over (l : Life) : Prop :=
  l.cleaned = 5 ∨ l.creator = .left ∧ (l.thread = none ∨ l.thread = some .gone)

instance (l : Life) : Decidable l.Over :=
  inferInstanceAs (Decidable (_ ∨ _))

/-- One session-end record, no place in the map, no object, no KV entry, and
    one count given back. -/
structure EndedOnce (s : Shared) (session : Session) : Prop where
  ended : (s.record session.id).ends = 1
  held : (s.record session.id).held = none
  object : session.objectPath ∉ s.daemon.objects
  kv : s.inner.kv.lookup session.id = none
  givenBack : (s.record session.id).givenBack = 1

/-- Every session whose start is in the log ends once. -/
def SessionsEnd (st : LifeState) : Prop :=
  ∀ l ∈ st.lives, 0 < (st.shared.record l.session.id).starts → l.Over →
    EndedOnce st.shared l.session

theorem LifeInv.cleaned_of_over {s : Shared} {l : Life} (hinv : LifeInv s l) (hover : l.Over) :
    l.cleaned = 5 := by
  rcases hover with hdone | ⟨hleft, hthread⟩
  · exact hdone
  · have hcustody := hinv.custody
    simp only [Life.Custody, hleft] at hcustody
    rcases hthread with hnone | hgone
    · simp [Life.cleaned, Creator.cleaned, hleft, hnone, hcustody.mp hnone]
    · have hdisarmed : l.slot.armed = false := by simpa [hgone] using hcustody
      simp [Life.cleaned, Creator.cleaned, Serving.cleaned, hleft, hgone, hdisarmed]

/-- All but the bus is settled by the clean-up alone. -/
theorem LifeInv.endedOnce {s : Shared} {l : Life} (hinv : LifeInv s l) (hdone : l.cleaned = 5)
    (hobject : l.session.objectPath ∉ s.daemon.objects) : EndedOnce s l.session := by
  refine ⟨?_, ?_, hobject, hinv.kv (by omega), ?_⟩
  · rw [hinv.record]
    simp [Life.record, hdone]
  · rw [hinv.record]
    simp [Life.record, hdone]
  · rw [hinv.record]
    simp [Life.record, hdone]

theorem LifeInv.started_of_cleaned {s : Shared} {l : Life} (hinv : LifeInv s l)
    (hdone : l.cleaned = 5) : 0 < (s.record l.session.id).starts := by
  have hstarted : l.creator.started = true := by
    have hcustody := hinv.custody
    cases hcreator : l.creator with
    | logging =>
      simp only [Life.Custody, hcreator] at hcustody
      simp [Life.cleaned, Creator.cleaned, hcreator, hcustody.1] at hdone
    | _ => rfl
  rw [hinv.record]
  simp [Life.record, hstarted]

theorem sessionsEnd_iff {st : LifeState} (hinv : LivesInv st.shared st.lives) :
    SessionsEnd st ↔ OffBus st.shared st.lives := by
  constructor
  · intro hall i l hl hdone
    have hlife := hinv.each i l hl
    exact (hall l (List.mem_of_getElem? hl) (hlife.started_of_cleaned hdone) (Or.inl hdone)).object
  · intro hoff l hmem _ hover
    obtain ⟨i, hl⟩ := List.mem_iff_getElem?.mp hmem
    have hlife := hinv.each i l hl
    have hdone := hlife.cleaned_of_over hover
    exact hlife.endedOnce hdone (hoff i l hl hdone)

section Runs

variable (config : Config) (scheduler : Sched.Scheduler)

/-- The session whose object the step is to take off the bus. -/
def takesOff (st : LifeState) : LifeStep → Option Life
  | .create index _ => (st.lives[index]?).filter fun l => l.creator = .retiring .bus
  | .thread index _ => (st.lives[index]?).filter fun l => l.thread = some (.retiring .bus)
  | _ => none

/-- An object is taken off the bus only once `main` has recorded the
    connection. -/
def BusRecorded (st : LifeState) (a : LifeStep) : Prop :=
  ∀ l ∈ takesOff st a, l.session.objectPath ∈ st.shared.daemon.objects → st.shared.bus = true

/-- What a step keeps: the invariant, and that all are off the bus if it takes
    none off too early. -/
structure Kept (st st' : LifeState) (recorded : Prop) : Prop where
  inv : LivesInv st'.shared st'.lives
  off : OffBus st.shared st.lives → (OffBus st'.shared st'.lives ↔ recorded)

theorem Kept.of_quiet {st st' : LifeState} (hinv : LivesInv st.shared st.lives)
    (hquiet : st.shared.Quiet st'.shared) (hlives : st'.lives = st.lives)
    (hobjects : st'.shared.daemon.objects = st.shared.daemon.objects) : Kept st st' True := by
  refine ⟨?_, ?_⟩
  · rw [hlives]
    exact hinv.quiet hquiet
  · intro hoff
    rw [hlives]
    exact iff_of_true (hoff.same hobjects) trivial

theorem answerStep_kept (st : LifeState) (hinv : LivesInv st.shared st.lives)
    (opening : Opening) (backend : Option (Except Text Backend))
    (socketpair objectPath : Except Text Unit) :
    Kept st (answerStep st opening backend socketpair objectPath) True := by
  have hquiet : ∀ (counts : Table Text Nat) (next : Nat), st.shared.daemon.nextSession ≤ next →
      st.shared.Quiet { st.shared with
        daemon := { st.shared.daemon with counts, nextSession := next } } :=
    fun _ _ hnext => ⟨fun _ => rfl, rfl, hnext⟩
  unfold answerStep
  dsimp only
  split
  · split
    · exact Kept.of_quiet hinv (hquiet _ _ le_rfl) rfl rfl
    split
    · exact Kept.of_quiet hinv (hquiet _ _ (Nat.le_succ _)) rfl rfl
    · refine ⟨hinv.start (hquiet _ _ (Nat.le_succ _)) rfl opening _, ?_⟩
      intro hoff
      refine iff_of_true ?_ trivial
      intro i l hl hdone
      rw [List.getElem?_append] at hl
      split at hl
      · exact hoff i l hl hdone
      · rw [List.getElem?_singleton] at hl
        split at hl
        · cases hl
          cases hdone
        · cases hl
  · exact Kept.of_quiet hinv (hquiet _ _ le_rfl) rfl rfl

theorem Kept.of_session {st : LifeState} (hinv : LivesInv st.shared st.lives) {i : Nat}
    {l l' : Life} {s' : Shared} (hl : st.lives[i]? = some l) (hlife : LifeInv s' l')
    (hframe : st.shared.Frame s' l.session.id) (hsession : l'.session = l.session)
    {takesOff : Prop} (hbus : BusSpec st.shared s' l l' takesOff) :
    Kept st { st with shared := s', lives := st.lives.set i l' }
      (takesOff → l.session.objectPath ∈ st.shared.daemon.objects → st.shared.bus = true) := by
  refine ⟨hinv.update hl hlife hframe hsession, ?_⟩
  intro hoff
  rw [hinv.offBus_update hoff hl hsession hbus.others]
  by_cases htakes : takesOff
  · obtain ⟨hdone, rfl⟩ := hbus.off htakes
    simp only [hdone, htakes, mem_unregister, forall_true_left, not_and,
      Bool.not_eq_false]
  · refine iff_of_true ?_ fun h => absurd h htakes
    intro hdone
    obtain ⟨hbefore, hobjects⟩ := hbus.idle htakes hdone
    rw [hobjects]
    exact hoff i l hl hbefore

theorem busRecorded_create {st : LifeState} {index : Nat} {l : Life}
    (hl : st.lives[index]? = some l) (result : Except Text Unit) :
    BusRecorded st (.create index result) ↔ (l.creator = .retiring .bus →
      l.session.objectPath ∈ st.shared.daemon.objects → st.shared.bus = true) := by
  simp only [BusRecorded, takesOff, hl]
  by_cases hcreator : l.creator = .retiring .bus <;> simp [Option.filter, hcreator]

theorem busRecorded_thread {st : LifeState} {index : Nat} {l : Life} {serving : Serving}
    (hl : st.lives[index]? = some l) (hthread : l.thread = some serving)
    (result : Except Text Unit) :
    BusRecorded st (.thread index result) ↔ (serving = .retiring .bus →
      l.session.objectPath ∈ st.shared.daemon.objects → st.shared.bus = true) := by
  simp only [BusRecorded, takesOff, hl]
  by_cases hserving : serving = .retiring .bus <;> simp [Option.filter, hthread, hserving]

theorem lifeStep_kept {st st' : LifeState} {a : LifeStep} (hinv : LivesInv st.shared st.lives)
    (h : lifeStep config scheduler st a = some st') : Kept st st' (BusRecorded st a) := by
  have hnone : takesOff st a = none → BusRecorded st a = True := by
    intro hnone
    simp [BusRecorded, hnone]
  cases a with
  | attachBus =>
    cases h
    rw [hnone rfl]
    exact Kept.of_quiet hinv ⟨fun _ => rfl, rfl, le_rfl⟩ rfl rfl
  | begin call =>
    rw [hnone rfl]
    obtain ⟨hquiet, hobjects⟩ := beginSession_quiet config st.shared call
    simp only [lifeStep] at h
    split at h
    · rename_i hbegin
      cases h
      rw [hbegin] at hquiet hobjects
      exact Kept.of_quiet hinv hquiet rfl hobjects
    · rename_i hbegin
      cases h
      rw [hbegin] at hquiet hobjects
      exact Kept.of_quiet hinv hquiet rfl hobjects
  | answer index backend socketpair objectPath =>
    rw [hnone rfl]
    obtain ⟨o, -, rfl⟩ := Option.map_eq_some_iff.mp h
    have hkept := answerStep_kept { st with opening := st.opening.eraseIdx index } hinv o backend
      socketpair objectPath
    exact ⟨hkept.inv, hkept.off⟩
  | create index result =>
    simp only [lifeStep, Option.bind_eq_bind, Option.bind_eq_some_iff] at h
    obtain ⟨l, hl, ⟨s', l'⟩, hstep, h⟩ := h
    cases h
    obtain ⟨hlife, hframe, hsession⟩ := creatorStep_inv (hinv.each index l hl) hstep
    have hkept := Kept.of_session hinv hl hlife hframe hsession
      (creatorStep_bus (hinv.each index l hl) hstep)
    exact ⟨hkept.inv, fun hoff => (hkept.off hoff).trans (busRecorded_create hl result).symm⟩
  | thread index result =>
    simp only [lifeStep, Option.bind_eq_bind, Option.bind_eq_some_iff] at h
    obtain ⟨l, hl, serving, hthread, ⟨s', serving'⟩, hstep, h⟩ := h
    cases h
    obtain ⟨hlife, hframe⟩ := threadStep_inv (hinv.each index l hl) hthread hstep
    have hkept := Kept.of_session hinv hl hlife hframe rfl
      (threadStep_bus (hinv.each index l hl) hthread hstep)
    exact ⟨hkept.inv,
      fun hoff => (hkept.off hoff).trans (busRecorded_thread hl hthread result).symm⟩
  | turn index call =>
    rw [hnone rfl]
    simp only [lifeStep, Option.bind_eq_bind, Option.bind_eq_some_iff] at h
    obtain ⟨l, hl, h⟩ := h
    split at h
    case isFalse => cases h
    rename_i hthread
    cases h
    have hlife := hinv.each index l hl
    have hcleaned : l.cleaned = 0 := (hlife.threaded hthread).now
    have hturn : LifeInv { st.shared with
        inner := (Sched.step scheduler st.shared.inner (call.of l.session)).val } l :=
      ⟨hlife.custody, hlife.guarded, hlife.record, fun hafter => by omega⟩
    have hkept := Kept.of_session hinv hl hturn
      ⟨fun _ _ => rfl, fun other hother => turn_kv scheduler _ _ call hother, rfl⟩ rfl
      (BusSpec.of_same rfl not_false rfl)
    rw [set_getElem?_self hl] at hkept
    exact ⟨hkept.inv, fun hoff => (hkept.off hoff).trans (by simp)⟩
  | exit index why =>
    rw [hnone rfl]
    simp only [lifeStep, Option.bind_eq_bind, Option.bind_eq_some_iff] at h
    obtain ⟨l, hl, h⟩ := h
    split at h
    case isFalse => cases h
    rename_i hexit
    cases h
    have hlife := (hinv.each index l hl).threaded hexit.1
    have hcleaned : ({ l with thread := some (.retiring .audit) } : Life).cleaned = l.cleaned :=
      (hlife.cleaned _).trans hlife.now.symm
    have hmoved : LifeInv st.shared { l with thread := some (.retiring .audit) } :=
      (hinv.each index l hl).move rfl (hlife.custody _) hlife.guarded hlife.inserted
        hlife.inserted hcleaned
    have hkept := Kept.of_session hinv hl hmoved (Shared.Frame.refl _ _) rfl
      (BusSpec.of_same rfl not_false hcleaned)
    exact ⟨hkept.inv, fun hoff => (hkept.off hoff).trans (by simp)⟩
  | close index =>
    rw [hnone rfl]
    simp only [lifeStep, Option.bind_eq_bind, Option.bind_eq_some_iff] at h
    obtain ⟨l, hl, h⟩ := h
    cases h
    have hlife := hinv.each index l hl
    have hclosed : LifeInv st.shared { l with closed := true } :=
      ⟨hlife.custody, hlife.guarded, hlife.record, hlife.kv⟩
    have hkept := Kept.of_session hinv hl hclosed (Shared.Frame.refl _ _) rfl
      (BusSpec.of_same rfl not_false rfl)
    exact ⟨hkept.inv, fun hoff => (hkept.off hoff).trans (by simp)⟩

theorem livesInv_new : LivesInv LifeState.new.shared LifeState.new.lives := by
  refine ⟨?_, ?_, ?_, fun _ _ => rfl⟩ <;> simp [LifeState.new]

/-- The last step of a clean-up can always be taken. -/
theorem busRecorded_of_disabled {st : LifeState} {a : LifeStep}
    (h : lifeStep config scheduler st a = none) : BusRecorded st a := by
  intro l hl hmem
  cases a with
  | create index result =>
    obtain ⟨hlife, hcreator⟩ := Option.filter_eq_some_iff.mp hl
    have hretiring : l.creator = .retiring .bus := of_decide_eq_true hcreator
    simp [lifeStep, hlife, creatorStep, hretiring] at h
  | thread index result =>
    obtain ⟨hlife, hthread⟩ := Option.filter_eq_some_iff.mp hl
    have hretiring : l.thread = some (.retiring .bus) := of_decide_eq_true hthread
    simp [lifeStep, hlife, threadStep, hretiring] at h
  | attachBus | begin | answer | turn | exit | close => cases hl

/-- **Every session that starts ends once**, in every state of exactly the runs
    in which an object is taken off the bus only once the connection is
    recorded. -/
theorem sessions_end_iff (as : List LifeStep) :
    along (lifeStep config scheduler) (Keeps (lifeStep config scheduler) SessionsEnd) .new as ↔
      along (lifeStep config scheduler) BusRecorded .new as := by
  apply along_keeps_iff_of_invariant (lifeStep config scheduler)
    (I := fun st => LivesInv st.shared st.lives)
  · intro st a st' hinv hstep
    exact (lifeStep_kept config scheduler hinv hstep).inv
  · intro st a hinv hends
    have hoff := (sessionsEnd_iff hinv).mp hends
    constructor
    · intro hkeeps
      cases hnext : lifeStep config scheduler st a with
      | none => exact busRecorded_of_disabled config scheduler hnext
      | some st' =>
        have hkept := lifeStep_kept config scheduler hinv hnext
        exact (hkept.off hoff).mp ((sessionsEnd_iff hkept.inv).mp (hkeeps st' hnext))
    · intro hrecorded st' hnext
      have hkept := lifeStep_kept config scheduler hinv hnext
      exact (sessionsEnd_iff hkept.inv).mpr ((hkept.off hoff).mpr hrecorded)
  · exact livesInv_new
  · simp [SessionsEnd, LifeState.new]

/-- In every run, all but the object is settled when a session is over. -/
theorem over_settled {as : List LifeStep} {st : LifeState}
    (hrun : runs (lifeStep config scheduler) .new as = some st) {l : Life} (hl : l ∈ st.lives)
    (hover : l.Over) :
    st.shared.record l.session.id = ⟨1, 1, 1, none⟩ ∧
      st.shared.inner.kv.lookup l.session.id = none := by
  have hinv : LivesInv st.shared st.lives := by
    refine runs_invariant (lifeStep config scheduler)
      (P := fun st => LivesInv st.shared st.lives) ?_ livesInv_new hrun
    intro st a st' hinv hstep
    exact (lifeStep_kept config scheduler hinv hstep).inv
  obtain ⟨i, hi⟩ := List.mem_iff_getElem?.mp hl
  have hlife := hinv.each i l hi
  have hdone := hlife.cleaned_of_over hover
  refine ⟨?_, hlife.kv (by omega)⟩
  have hstarted := hlife.started_of_cleaned hdone
  rw [hlife.record] at hstarted ⊢
  have hlogged : l.creator.started = true := by
    by_contra hnot
    simp [Life.record, hnot] at hstarted
  simp [Life.record, hdone, hlogged]

end Runs

/-- A call whose thread cannot be started, and its clean-up. -/
def failedSpawn : List LifeStep :=
  [.begin (openCall ∅), .answer 0 (some (.ok ⟨"mock".toList, ["generate".toList], true⟩)) (.ok ())
      (.ok ()),
    .create 0 (.ok ()), .create 0 (.ok ()), .create 0 (.ok ()), .create 0 (.ok ()),
    .create 0 (.error "could not start a thread for session: EAGAIN".toList)] ++
    List.replicate 6 (.create 0 (.ok ()))

/-- The call comes before `main` has recorded the connection. -/
theorem object_left_behind :
    ¬ ∀ (config : Config) (scheduler : Sched.Scheduler) (as : List LifeStep) (st : LifeState),
      runs (lifeStep config scheduler) .new as = some st → SessionsEnd st := by
  intro hall
  have hleft : ((runs (lifeStep openConfig (.new ⟨1000, 2, 1, by decide⟩)) .new
      failedSpawn).any fun st => st.lives.any fun l =>
        decide (0 < (st.shared.record l.session.id).starts ∧ l.cleaned = 5 ∧
          l.session.objectPath ∈ st.shared.daemon.objects)) = true := by decide
  obtain ⟨st, hrun, hlives⟩ := (Option.any_eq_true _ _).mp hleft
  obtain ⟨l, hl, hbad⟩ := List.any_eq_true.mp hlives
  obtain ⟨hstarted, hdone, hmem⟩ := of_decide_eq_true hbad
  exact (hall _ _ _ _ hrun l hl hstarted (Or.inl hdone)).object hmem

end AiDaemon
