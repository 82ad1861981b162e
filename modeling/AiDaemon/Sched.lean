import AiDaemon.Ledger
import AiDaemon.Machine
import AiDaemon.Text

/-!
# The scheduler (`sched.rs`)

Decode slots and the KV budget, as one state `Inner` behind one lock.  Every
function below is the part of the source function of the same name that runs
while the lock is held; what it sends to the backends after dropping the lock
is returned beside the new state (`SetPaused` and `DropCache` messages), so the
moment of sending is the caller's to schedule.

`admit` blocks, so it is two functions: `enqueue` takes a ticket and joins the
queue, `admitTurn` is one turn of the waiting loop and succeeds when `isTurn`
does.
`Instant::now()` is an argument.  Iteration over the KV hash map takes an
`IterOrder`, so nothing depends on the hasher.

Tickets and request ids are counters that only grow; they are unbounded here.
The KV arithmetic, which is what can drift, is `Traced`.
-/

namespace AiDaemon.Sched

open Machine Ledger

/-! ### Data -/

/-- Priority class. The order the source derives puts `interactive` first. -/
inductive Class where
  | interactive
  | background
deriving DecidableEq, Repr

def Class.parse (text : Text) : Class :=
  if text = "background".toList ∨ text = "batch".toList then .background else .interactive

def Class.rank : Class → Nat
  | .interactive => 0
  | .background => 1

structure Running where
  ticket : Nat
  session : Text
  cls : Class
  backend : Option Text
  reqId : Option Nat
  paused : Bool
deriving DecidableEq, Repr

structure Waiter where
  ticket : Nat
  session : Text
  cls : Class
deriving DecidableEq, Repr

structure KvEntry where
  bytes : Nat
  cls : Class
  lastUsed : Nat
  backend : Text
  active : Bool
deriving DecidableEq, Repr

structure Inner where
  running : List Running
  waiting : List Waiter
  served : Table Text Nat
  kv : Table Text KvEntry
  kvUsed : Nat
  nextTicket : Nat

/-- `config::Scheduler`. A TOML integer is a signed 64-bit number, so a
    configuration file cannot name a budget of `2^63` bytes or more. -/
structure Config where
  kvBudgetBytes : Nat
  maxConcurrentInteractive : UInt32
  maxConcurrentBackground : UInt32
  budget_toml : kvBudgetBytes < 2 ^ 63

/-- The constants of a scheduler, with the ranges `new` leaves them in. -/
structure Scheduler where
  maxInteractive : Nat
  maxBackground : Nat
  kvBudget : Nat
  interactive_u32 : maxInteractive < 2 ^ 32
  background_u32 : maxBackground < 2 ^ 32
  budget_lt : kvBudget < 2 ^ 63

/-- `Scheduler::new`: a cap of zero would admit nobody, so it is read as one. -/
def Scheduler.new (config : Config) : Scheduler where
  maxInteractive := max config.maxConcurrentInteractive.toNat 1
  maxBackground := max config.maxConcurrentBackground.toNat 1
  kvBudget := config.kvBudgetBytes
  interactive_u32 := by have := config.maxConcurrentInteractive.toNat_lt; omega
  background_u32 := by have := config.maxConcurrentBackground.toNat_lt; omega
  budget_lt := config.budget_toml

def Inner.new : Inner := ⟨[], [], ∅, ∅, 0, 1⟩

/-- The two methods of `Preemptor`, as messages to a backend. -/
structure SetPaused where
  backend : Text
  reqId : Nat
  paused : Bool
deriving DecidableEq, Repr

structure DropCache where
  backend : Text
  session : Text
deriving DecidableEq, Repr

/-! ### Decode slots -/

def Scheduler.cap (s : Scheduler) : Class → Nat
  | .interactive => s.maxInteractive
  | .background => s.maxBackground

def servedOf (inner : Inner) (session : Text) : Nat := (inner.served.lookup session).getD 0

def turnKey (inner : Inner) (w : Waiter) : Nat × Nat × Nat :=
  (w.cls.rank, servedOf inner w.session, w.ticket)

def keyLe (a b : Nat × Nat × Nat) : Bool :=
  a.1 < b.1 || (a.1 == b.1 && (a.2.1 < b.2.1 || (a.2.1 == b.2.1 && a.2.2 ≤ b.2.2)))

def runningIn (inner : Inner) (cls : Class) : Nat :=
  (inner.running.filter fun r => r.cls = cls).length

/-- `is_turn`: the waiter's class has a free slot (the count is cast to `u32`)
    and no waiter has a smaller key. -/
def isTurn (s : Scheduler) (inner : Inner) (ticket : Nat) : Bool :=
  match inner.waiting.find? (fun w => w.ticket = ticket) with
  | none => false
  | some me =>
    if runningIn inner me.cls % 2 ^ 32 ≥ s.cap me.cls then false
    else inner.waiting.all fun w => keyLe (turnKey inner me) (turnKey inner w)

def enqueue (inner : Inner) (session : Text) (cls : Class) : Inner :=
  { inner with
    nextTicket := inner.nextTicket + 1
    waiting := inner.waiting ++ [⟨inner.nextTicket, session, cls⟩] }

def Running.request (r : Running) : Option (Text × Nat) :=
  r.backend.bind fun backend => r.reqId.map fun reqId => (backend, reqId)

def pauseEntry (r : Running) : Running :=
  if r.cls = .background ∧ r.paused = false then { r with paused := true } else r

/-- The running entry a waiter becomes, not yet attached to a request. -/
def Waiter.entry (w : Waiter) : Running := ⟨w.ticket, w.session, w.cls, none, none, false⟩

def pauseMsg (r : Running) : Option SetPaused :=
  if r.cls = .background ∧ r.paused = false then r.request.map fun q => ⟨q.1, q.2, true⟩ else none

/-- One turn of `admit`'s loop. An interactive request pauses every background
    one, attached or not; only the attached ones can be sent a message. -/
def admitTurn (s : Scheduler) (inner : Inner) (ticket : Nat) : Option (Inner × List SetPaused) :=
  match inner.waiting.find? (fun w => w.ticket = ticket) with
  | none => none
  | some me =>
    if isTurn s inner ticket then
      let running := inner.running ++ [me.entry]
      let waiting := inner.waiting.filter fun w => w.ticket ≠ ticket
      if me.cls = .interactive then
        some ({ inner with waiting, running := running.map pauseEntry }, running.filterMap pauseMsg)
      else some ({ inner with waiting, running }, [])
    else none

/-- The first running entry that matches is rewritten, as `find` on `iter_mut`
    does. -/
def updateFirst (p : Running → Bool) (f : Running → Running) : List Running → List Running
  | [] => []
  | r :: rs => if p r then f r :: rs else r :: updateFirst p f rs

def shouldPause (inner : Inner) (ticket : Nat) : Bool :=
  inner.running.any fun r => r.cls = .interactive ∧ r.ticket ≠ ticket

def attachEntry (backend : Text) (reqId : Nat) (pause : Bool) (r : Running) : Running :=
  { r with
    backend := some backend
    reqId := some reqId
    paused := if r.cls = .background ∧ pause then true else r.paused }

/-- `Slot::attach`: a background request that starts under interactive load
    starts paused. -/
def attach (inner : Inner) (ticket : Nat) (backend : Text) (reqId : Nat) :
    Inner × List SetPaused :=
  let pause := shouldPause inner ticket
  let mine := inner.running.find? fun r => r.ticket = ticket
  let pauseNow := mine.any fun r => r.cls = .background ∧ pause
  ({ inner with
      running := updateFirst (fun r => r.ticket = ticket) (attachEntry backend reqId pause)
        inner.running },
    if pauseNow then [⟨backend, reqId, true⟩] else [])

def resumeEntry (r : Running) : Running := { r with paused := false }

def resumeMsg (r : Running) : Option SetPaused :=
  if r.paused then r.request.map fun q => ⟨q.1, q.2, false⟩ else none

def release (inner : Inner) (ticket : Nat) : Inner × List SetPaused :=
  let running := inner.running.filter fun r => r.ticket ≠ ticket
  if running.any fun r => r.cls = .interactive then ({ inner with running }, [])
  else ({ inner with running := running.map resumeEntry }, running.filterMap resumeMsg)

/-- `Slot::charge`. The served counter is a plain `u64` sum. -/
def charge (inner : Inner) (now : Nat) (session : Text) (tokens : Nat) : Inner :=
  { inner with
    served := inner.served.insert session ((servedOf inner session + tokens) % 2 ^ 64)
    kv := match inner.kv.lookup session with
      | some entry => inner.kv.insert session { entry with lastUsed := now }
      | none => inner.kv }

/-! ### The KV budget -/

structure Victim where
  id : Text
  backend : Text
  size : Nat
deriving DecidableEq, Repr

def victimOf (e : Row Text KvEntry) : Victim := ⟨e.1, e.2.backend, e.2.bytes⟩

structure Plan where
  freed : Nat
  victims : List Victim

/-- The caches one pass may take: other sessions', of the pass's class, idle,
    least recently used first. The sort is stable. -/
def candidates (kv : Table Text KvEntry) (order : IterOrder (Row Text KvEntry)) (session : Text)
    (pass : Class) : List (Row Text KvEntry) :=
  ((order.visit kv.entries).filter
    fun e => e.1 ≠ session ∧ e.2.cls = pass ∧ e.2.active = false).insertionSort
      fun a b => a.2.lastUsed ≤ b.2.lastUsed

/-- The test both loops break on: `kv_used.saturating_sub(freed) + extra`. -/
def needed (used freed extra : Nat) : Traced Nat := do
  let left ← satSub used freed
  add 64 left extra

def planPass (used extra budget : Nat) : List (Row Text KvEntry) → Plan → Traced Plan
  | [], plan => pure plan
  | e :: rest, plan => do
    let need ← needed used plan.freed extra
    if need ≤ budget then pure plan
    else do
      let freed ← add 64 plan.freed e.2.bytes
      planPass used extra budget rest ⟨freed, plan.victims ++ [victimOf e]⟩

def planPasses (used extra budget : Nat) (candidatesOf : Class → List (Row Text KvEntry)) :
    List Class → Plan → Traced Plan
  | [], plan => pure plan
  | pass :: passes, plan => do
    let need ← needed used plan.freed extra
    if need ≤ budget then pure plan
    else do
      let plan ← planPass used extra budget (candidatesOf pass) plan
      planPasses used extra budget candidatesOf passes plan

/-- The commit loop: drop every planned cache and give its bytes back. -/
def commit : List Victim → Table Text KvEntry → Nat → Traced (Table Text KvEntry × Nat)
  | [], kv, used => pure (kv, used)
  | v :: rest, kv, used => do
    let used ← satSub used v.size
    commit rest (kv.erase v.id) used

def overBudgetText (extra budget : Nat) : Text :=
  Text.ofNat extra ++ " bytes of context exceeds the whole ".toList ++ Text.ofNat budget ++
    " byte KV budget".toList

def exhaustedText (used budget freed extra : Nat) : Text :=
  "KV budget exhausted: ".toList ++ Text.ofNat used ++ " of ".toList ++ Text.ofNat budget ++
    " bytes in use, only ".toList ++ Text.ofNat freed ++ " of it evictable, and ".toList ++
    Text.ofNat extra ++ " more needed".toList

structure Reserved where
  result : Except Text (List Text)
  inner : Inner
  dropped : List DropCache

def previousBytes (inner : Inner) (session : Text) : Nat :=
  ((inner.kv.lookup session).map KvEntry.bytes).getD 0

/-- `reserve_kv`: plan, give up without touching anybody if the plan is not
    enough, then commit. -/
def reserveKv (s : Scheduler) (inner : Inner) (order : IterOrder (Row Text KvEntry)) (now : Nat)
    (session backend : Text) (cls : Class) (bytes : Nat) : Traced Reserved :=
  let previous := previousBytes inner session
  let entry : KvEntry := ⟨bytes, cls, now, backend, true⟩
  if bytes > previous then
    let extra := bytes - previous
    if extra > s.kvBudget then
      pure ⟨.error (overBudgetText extra s.kvBudget), inner, []⟩
    else do
      let plan ← planPasses inner.kvUsed extra s.kvBudget (candidates inner.kv order session)
        [.background, .interactive] ⟨0, []⟩
      let need ← needed inner.kvUsed plan.freed extra
      if need > s.kvBudget then
        pure ⟨.error (exhaustedText inner.kvUsed s.kvBudget plan.freed extra), inner, []⟩
      else do
        let (kv, used) ← commit plan.victims inner.kv inner.kvUsed
        let used ← add 64 used extra
        pure ⟨.ok (plan.victims.map Victim.id),
          { inner with kv := kv.insert session entry, kvUsed := used },
          plan.victims.map fun v => ⟨v.backend, v.id⟩⟩
  else do
    let used ← satSub inner.kvUsed (previous - bytes)
    pure ⟨.ok [], { inner with kv := inner.kv.insert session entry, kvUsed := used }, []⟩

def markIdle (inner : Inner) (now : Nat) (session : Text) : Inner :=
  match inner.kv.lookup session with
  | some entry =>
    { inner with kv := inner.kv.insert session { entry with active := false, lastUsed := now } }
  | none => inner

def releaseKv (inner : Inner) (session : Text) : Traced Inner :=
  match inner.kv.lookup session with
  | some entry => do
    let used ← satSub inner.kvUsed entry.bytes
    pure { inner with kv := inner.kv.erase session, kvUsed := used }
  | none => pure inner

/-! ### What a turn did -/

/-- What a successful turn of `admit`'s loop did for the waiter `me`. -/
structure Admitted (s : Scheduler) (inner : Inner) (me : Waiter) (next : Inner)
    (msgs : List SetPaused) : Prop where
  mem : me ∈ inner.waiting
  turn : isTurn s inner me.ticket = true
  below_cap : runningIn inner me.cls % 2 ^ 32 < s.cap me.cls
  waiting : next.waiting = inner.waiting.filter fun w => w.ticket ≠ me.ticket
  nextTicket : next.nextTicket = inner.nextTicket
  served : next.served = inner.served
  kv : next.kv = inner.kv
  kvUsed : next.kvUsed = inner.kvUsed
  running : (me.cls = .interactive ∧ next.running = (inner.running ++ [me.entry]).map pauseEntry ∧
      msgs = (inner.running ++ [me.entry]).filterMap pauseMsg) ∨
    (me.cls = .background ∧ next.running = inner.running ++ [me.entry] ∧ msgs = [])

theorem isTurn_below_cap {s : Scheduler} {inner : Inner} {me : Waiter} {ticket : Nat}
    (hfind : inner.waiting.find? (fun w => w.ticket = ticket) = some me)
    (hturn : isTurn s inner ticket = true) : runningIn inner me.cls % 2 ^ 32 < s.cap me.cls := by
  simp only [isTurn, hfind] at hturn
  by_contra hfull
  rw [if_pos (Nat.le_of_not_lt hfull)] at hturn
  cases hturn

theorem admitTurn_cases {s : Scheduler} {inner next : Inner} {ticket : Nat}
    {msgs : List SetPaused} (h : admitTurn s inner ticket = some (next, msgs)) :
    ∃ me, me.ticket = ticket ∧ Admitted s inner me next msgs := by
  unfold admitTurn at h
  cases hfind : inner.waiting.find? (fun w => w.ticket = ticket) with
  | none =>
    rw [hfind] at h
    cases h
  | some me =>
    rw [hfind] at h
    have hmem := List.mem_of_find?_eq_some hfind
    have hticket : me.ticket = ticket := by simpa using List.find?_some hfind
    by_cases hturn : isTurn s inner ticket = true
    · have hcap := isTurn_below_cap hfind hturn
      subst hticket
      refine ⟨me, rfl, ?_⟩
      simp only [hturn, if_true] at h
      cases hcls : me.cls with
      | interactive =>
        simp only [hcls, if_true, Option.some.injEq, Prod.mk.injEq] at h
        obtain ⟨rfl, rfl⟩ := h
        exact ⟨hmem, hturn, hcap, rfl, rfl, rfl, rfl, rfl, Or.inl ⟨hcls, rfl, rfl⟩⟩
      | background =>
        simp only [hcls, reduceCtorEq, if_false, Option.some.injEq, Prod.mk.injEq] at h
        obtain ⟨rfl, rfl⟩ := h
        exact ⟨hmem, hturn, hcap, rfl, rfl, rfl, rfl, rfl, Or.inr ⟨hcls, rfl, rfl⟩⟩
    · rw [Bool.not_eq_true] at hturn
      simp [hturn] at h

/-! ### Runs -/

/-- A call that takes the scheduler's lock. -/
inductive Call where
  | enqueue (session : Text) (cls : Class)
  | admitTurn (ticket : Nat)
  | attach (ticket : Nat) (backend : Text) (reqId : Nat)
  | release (ticket : Nat)
  | charge (now : Nat) (session : Text) (tokens : Nat)
  | reserveKv (order : IterOrder (Row Text KvEntry)) (now : Nat) (session backend : Text)
      (cls : Class) (bytes : Nat)
  | markIdle (now : Nat) (session : Text)
  | releaseKv (session : Text)

/-- The state after a call. A waiter whose turn it is not keeps waiting. -/
def step (s : Scheduler) (inner : Inner) : Call → Traced Inner
  | .enqueue session cls => pure (enqueue inner session cls)
  | .admitTurn ticket => pure (((admitTurn s inner ticket).map Prod.fst).getD inner)
  | .attach ticket backend reqId => pure (attach inner ticket backend reqId).1
  | .release ticket => pure (release inner ticket).1
  | .charge now session tokens => pure (charge inner now session tokens)
  | .reserveKv order now session backend cls bytes => do
    let reserved ← reserveKv s inner order now session backend cls bytes
    pure reserved.inner
  | .markIdle now session => pure (markIdle inner now session)
  | .releaseKv session => releaseKv inner session

def run (s : Scheduler) (inner : Inner) : List Call → Traced Inner
  | [] => pure inner
  | call :: calls => do
    let inner ← step s inner call
    run s inner calls

/-- What one call preserves, a run of calls preserves. -/
theorem run_induction {s : Scheduler} {P : Inner → Prop}
    (hstep : ∀ inner call, P inner → P (step s inner call).val) {inner : Inner} (h : P inner)
    (calls : List Call) : P (run s inner calls).val := by
  induction calls generalizing inner with
  | nil => exact h
  | cons call calls ih => exact ih (hstep inner call h)

end AiDaemon.Sched
