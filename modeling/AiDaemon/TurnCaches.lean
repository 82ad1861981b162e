import AiDaemon.SchedKv
import AiDaemon.Transition
import AiDaemon.WholeTurn

/-!
# The caches that turns leave behind (`session.rs`: `turn`; `sched.rs`: `mark_idle`)

A turn's cache is active from its reservation on, and an active cache is never evicted.
`mark_idle` makes it idle again, and stands where the event loop has ended.  A turn can
leave before that, when its attachments are refused and when its request cannot be begun,
and then nobody marks the cache.

Any number of sessions take turns here at once, each of them one step after another, and
every step takes the scheduler's lock once at most.  The runs in which no session is left
with an active cache and no turn are those in which no turn leaves early
(`caches_evictable_iff`).
-/

namespace AiDaemon.WholeTurn

open Grants Json Ledger Machine Proto Rate Settlement Transition Turn
open Sched (Inner KvEntry KvInv Reserved Scheduler)

/-! ### One turn -/

section Steps

variable {R N F : Type}

/-- A turn up to its reservation. -/
def Call.reserving (call : Call R N F) : Except ErrorBody (Reserving R N F) :=
  match hprepares : call.prepare with
  | .error body => .error body
  | .ok prepared =>
    match hallowed : (call.checked prepared).result with
    | .error body => .error body
    | .ok reserve => .ok ⟨call, prepared, reserve, hprepares, hallowed⟩

/-- From the reservation to the scheduler's queue. -/
def Reserving.cleared (t : Reserving R N F) : Except ErrorBody (Cleared R N F) :=
  match hcarries : t.call.attachmentCheck t.prepared.backend with
  | .error body => .error body
  | .ok () => .ok ⟨t, hcarries⟩

def Reserving.reserveKv (t : Reserving R N F) (s : Scheduler) (inner : Inner)
    (order : IterOrder (Row Text KvEntry)) (now : Nat) : Reserved :=
  (Sched.reserveKv s inner order now t.call.sessionId t.call.worker.backend t.call.cls
    (Call.kvBytes t.prepared t.reserve).toNat).val

/-- The loop of a turn before its first event. -/
def Cleared.loop (t : Cleared R N F) : TurnState F where
  meter := t.call.meter
  history := t.call.history
  pendingToolCalls := t.call.pendingToolCalls
  usage := { Usage.default with
    attachmentTokens := (t.call.attachments.map estimateAttachmentTokens).sum }
  emittedToolCall := false
  sent := []

end Steps

/-- Where the worker of a session is in a turn. -/
inductive Stage (R N F : Type) where
  | reserved (t : Reserving R N F)
  | waiting (t : Cleared R N F) (ticket : Nat)
  | admitted (t : Cleared R N F) (ticket : Nat)
  | running (t : Cleared R N F) (ticket : Nat) (loop : TurnState F)
  | leaving (ticket : Nat)
  | settling

/-! ### All sessions -/

/-- The scheduler, and where every session is. -/
structure State (R N F : Type) where
  inner : Inner
  stages : Text → Option (Stage R N F)

def State.new {R N F : Type} : State R N F := ⟨Inner.new, fun _ => none⟩

/-- What the worker of a session does next. Between turns it also generates media and
    embeds, for which it takes decode slots, and `generate_media` marks the cache idle. -/
inductive Action (R N F : Type) where
  | start (call : Call R N F) (order : IterOrder (Row Text KvEntry)) (now : Nat)
  | check (session : Text)
  | admitTurn (session : Text)
  | begin (session : Text) (begun : Except Text UInt64)
  | arrival (session : Text) (x : Arrival F) (now : Nat)
  | leave (session : Text)
  | settle (session : Text) (now : Nat)
  | retire (session : Text)
  | between (session : Text) (call : Sched.Call)

section System

variable {R N F : Type} (s : Scheduler)

def Action.session : Action R N F → Text
  | .start call _ _ => call.sessionId
  | .check session | .admitTurn session | .begin session _ | .arrival session _ _
  | .leave session | .settle session _ | .retire session | .between session _ => session

def State.put (st : State R N F) (session : Text) (stage : Option (Stage R N F))
    (inner : Inner) : State R N F :=
  ⟨inner, Function.update st.stages session stage⟩

/-- What a session asks of the scheduler between its turns. -/
def mayCall (session : Text) : Sched.Call → Bool
  | .enqueue id _ | .charge _ id _ | .markIdle _ id => id = session
  | .admitTurn _ | .attach _ _ _ | .release _ => true
  | .reserveKv _ _ _ _ _ _ | .releaseKv _ => false

/-- `turn` up to and with its reservation. -/
def startStep (st : State R N F) (call : Call R N F) (order : IterOrder (Row Text KvEntry))
    (now : Nat) : State R N F :=
  match call.reserving with
  | .error _ => st
  | .ok t =>
    let reserved := t.reserveKv s st.inner order now
    match reserved.result with
    | .error _ => st.put call.sessionId none reserved.inner
    | .ok _ => st.put call.sessionId (some (.reserved t)) reserved.inner

/-- The attachments, and the first half of `admit`. -/
def checkStep (st : State R N F) (session : Text) (t : Reserving R N F) : State R N F :=
  match t.cleared with
  | .error _ => st.put session none st.inner
  | .ok t =>
    st.put session (some (.waiting t st.inner.nextTicket))
      (Sched.enqueue st.inner session t.call.cls)

/-- `begin`. Where it fails the slot is dropped. -/
def beginStep (st : State R N F) (session : Text) (t : Cleared R N F) (ticket : Nat)
    (begun : Except Text UInt64) : State R N F :=
  match begun with
  | .error _ => st.put session none (Sched.release st.inner ticket).1
  | .ok reqId =>
    st.put session (some (.running t ticket t.loop))
      (Sched.attach st.inner ticket t.prepared.backend.name reqId.toNat).1

/-- One round of the event loop. -/
def arrivalStep (st : State R N F) (session : Text) (t : Cleared R N F) (ticket : Nat)
    (loop : TurnState F) (x : Arrival F) (now : Nat) : State R N F :=
  let inner := if x.isToken then Sched.charge st.inner now session 1 else st.inner
  let next := turnArm t.call.worker (estimatePromptTokens t.call.history) loop x
  if next.2 then st.put session (some (.leaving ticket)) inner
  else st.put session (some (.running t ticket next.1)) inner

def step (st : State R N F) : Action R N F → Option (State R N F)
  | .start call order now =>
    match st.stages call.sessionId with
    | none => some (startStep s st call order now)
    | some _ => none
  | .check session =>
    match st.stages session with
    | some (.reserved t) => some (checkStep st session t)
    | _ => none
  | .admitTurn session =>
    match st.stages session with
    | some (.waiting t ticket) =>
      (Sched.admitTurn s st.inner ticket).map fun next =>
        st.put session (some (.admitted t ticket)) next.1
    | _ => none
  | .begin session begun =>
    match st.stages session with
    | some (.admitted t ticket) => some (beginStep st session t ticket begun)
    | _ => none
  | .arrival session x now =>
    match st.stages session with
    | some (.running t ticket loop) => some (arrivalStep st session t ticket loop x now)
    | _ => none
  | .leave session =>
    match st.stages session with
    | some (.leaving ticket) =>
      some (st.put session (some .settling) (Sched.release st.inner ticket).1)
    | _ => none
  | .settle session now =>
    match st.stages session with
    | some .settling => some (st.put session none (Sched.markIdle st.inner now session))
    | _ => none
  | .retire session =>
    match st.stages session with
    | none => some (st.put session none (Sched.releaseKv st.inner session).val)
    | some _ => none
  | .between session call =>
    match st.stages session with
    | none =>
      if mayCall session call then some (st.put session none (Sched.step s st.inner call).val)
      else none
    | some _ => none

/-! ### What is to be shown -/

/-- The session's cache cannot be evicted. -/
def Active (inner : Inner) (session : Text) : Prop :=
  ∃ entry, inner.kv.lookup session = some entry ∧ entry.active = true

/-- No session has an active cache but for a turn, and while there are no turns a
    reservation finds room for whatever the budget has room for. -/
structure Evictable (st : State R N F) : Prop where
  idle : ∀ session, st.stages session = none → ¬ Active st.inner session
  room : (∀ session, st.stages session = none) → ∀ order now session backend cls bytes,
    (∃ ids, (Sched.reserveKv s st.inner order now session backend cls bytes).val.result =
      .ok ids) ↔ bytes ≤ s.kvBudget

/-- The turn returns between its reservation and its event loop. -/
def GivesUp (st : State R N F) : Action R N F → Prop
  | .check session => ∃ t, st.stages session = some (.reserved t) ∧
      t.call.attachmentCheck t.prepared.backend ≠ .ok ()
  | .begin session (.error _) => ∃ t ticket, st.stages session = some (.admitted t ticket)
  | _ => False

/-- The accounting is exact, and the cache of every turn is there and active. -/
structure Inv (st : State R N F) : Prop where
  kv : KvInv s st.inner
  busy : ∀ session, st.stages session ≠ none → Active st.inner session

end System

/-! ### What a call does to the caches -/

section Caches

variable {s : Scheduler} {inner : Inner} {session id : Text}

theorem active_congr {inner' : Inner} (h : inner'.kv = inner.kv) :
    Active inner' id ↔ Active inner id := by
  unfold Active
  rw [h]

theorem active_insert_ne {entry : KvEntry} {kv : Table Text KvEntry} (hne : id ≠ session) :
    (∃ found, (kv.insert session entry).lookup id = some found ∧ found.active = true) ↔
      ∃ found, kv.lookup id = some found ∧ found.active = true := by
  rw [AList.lookup_insert_ne hne]

theorem active_release (ticket : Nat) :
    Active (Sched.release inner ticket).1 id ↔ Active inner id := by
  apply active_congr
  unfold Sched.release
  dsimp only
  split
  · rfl
  · rfl

theorem active_charge (now tokens : Nat) :
    Active (Sched.charge inner now session tokens) id ↔ Active inner id := by
  unfold Active Sched.charge
  dsimp only
  cases hlook : inner.kv.lookup session with
  | none => exact Iff.rfl
  | some entry =>
    by_cases hid : id = session
    · subst hid
      simp [AList.lookup_insert, hlook]
    · exact active_insert_ne hid

theorem active_markIdle_self (now : Nat) : ¬ Active (Sched.markIdle inner now session) session := by
  unfold Active Sched.markIdle
  cases hlook : inner.kv.lookup session with
  | none => simp [hlook]
  | some entry => simp [AList.lookup_insert]

theorem active_markIdle_ne (now : Nat) (hne : id ≠ session) :
    Active (Sched.markIdle inner now session) id ↔ Active inner id := by
  unfold Active Sched.markIdle
  cases inner.kv.lookup session with
  | none => exact Iff.rfl
  | some entry => exact active_insert_ne hne

theorem kv_releaseKv : (Sched.releaseKv inner session).val.kv = inner.kv.erase session := by
  unfold Sched.releaseKv
  cases hlook : inner.kv.lookup session with
  | none =>
    have hnot : session ∉ inner.kv := AList.lookup_eq_none.mp hlook
    apply AList.ext
    exact (List.kerase_of_notMem_keys hnot).symm
  | some entry => rfl

theorem active_releaseKv_self : ¬ Active (Sched.releaseKv inner session).val session := by
  unfold Active
  rw [kv_releaseKv, AList.lookup_erase]
  rintro ⟨entry, hentry, -⟩
  cases hentry

theorem active_releaseKv_ne (hne : id ≠ session) :
    Active (Sched.releaseKv inner session).val id ↔ Active inner id := by
  unfold Active
  rw [kv_releaseKv, AList.lookup_erase_ne hne]

section Reserve

variable {order : IterOrder (Row Text KvEntry)} {now bytes : Nat} {backend : Text}
  {cls : Sched.Class}

theorem reserveKv_error (hinv : KvInv s inner) {text : Text}
    (h : (Sched.reserveKv s inner order now session backend cls bytes).val.result =
      .error text) :
    (Sched.reserveKv s inner order now session backend cls bytes).val.inner = inner := by
  by_cases hfits : Sched.Fits s inner session bytes
  · rw [(Sched.reserveKv_granted order now session backend cls bytes hinv hfits).2] at h
    cases h
  · obtain ⟨-, text', hval⟩ :=
      Sched.reserveKv_refused order now session backend cls bytes hinv hfits
    rw [hval]

/-- A reservation makes one cache active, and the caches it evicts were idle. -/
theorem reserveKv_active (hinv : KvInv s inner) {ids : List Text}
    (h : (Sched.reserveKv s inner order now session backend cls bytes).val.result = .ok ids) :
    Active (Sched.reserveKv s inner order now session backend cls bytes).val.inner session ∧
      ∀ id ≠ session,
        (Active (Sched.reserveKv s inner order now session backend cls bytes).val.inner id ↔
          Active inner id) := by
  by_cases hfits : Sched.Fits s inner session bytes
  · rw [(Sched.reserveKv_granted order now session backend cls bytes hinv hfits).2]
    refine ⟨⟨_, Sched.lookup_granted_self _ _ _ _, rfl⟩, ?_⟩
    intro id hne
    unfold Active
    dsimp only
    rw [Sched.lookup_granted_ne _ _ _ hne]
    split
    · rename_i hmem
      obtain ⟨e, he, rfl⟩ := List.mem_map.mp hmem
      obtain ⟨hlook, -, hidle⟩ := Sched.mem_evicted order session bytes he
      rw [hlook]
      simp [hidle]
    · rfl
  · obtain ⟨-, text, hval⟩ :=
      Sched.reserveKv_refused order now session backend cls bytes hinv hfits
    rw [hval] at h
    cases h

/-- With no cache active, a reservation is granted exactly when the budget has room for it. -/
theorem reserveKv_room (hinv : KvInv s inner) (hidle : ∀ id, ¬ Active inner id) :
    (∃ ids, (Sched.reserveKv s inner order now session backend cls bytes).val.result =
      .ok ids) ↔ bytes ≤ s.kvBudget := by
  have hnone : Sched.othersActive inner.kv session = [] := by
    apply List.filter_eq_nil_iff.mpr
    intro e he hactive
    rw [decide_eq_true_eq] at hactive
    exact hidle e.1 ⟨e.2, mem_entries_iff.mp he, hactive.2⟩
  have hfits : Sched.Fits s inner session bytes ↔ bytes ≤ s.kvBudget := by
    unfold Sched.Fits
    rw [hnone]
    rfl
  rw [← hfits]
  by_cases h : Sched.Fits s inner session bytes
  · rw [(Sched.reserveKv_granted order now session backend cls bytes hinv h).2]
    exact iff_of_true ⟨_, rfl⟩ h
  · obtain ⟨-, text, hval⟩ :=
      Sched.reserveKv_refused order now session backend cls bytes hinv h
    rw [hval]
    exact iff_of_false (fun ⟨_, hids⟩ => by cases hids) h

end Reserve

end Caches

/-! ### What a step does -/

section Steps

variable {R N F : Type} {s : Scheduler} {st st' : State R N F}

/-- A step of one session leaves the others and their caches alone. -/
structure Moves (s : Scheduler) (st st' : State R N F) (session : Text) : Prop where
  kv : KvInv s st'.inner
  stages : ∀ id ≠ session, st'.stages id = st.stages id
  active : ∀ id ≠ session, (Active st'.inner id ↔ Active st.inner id)

theorem put_stage (st : State R N F) (session : Text) (stage : Option (Stage R N F))
    (inner : Inner) : (st.put session stage inner).stages session = stage :=
  Function.update_self ..

theorem put_turning (st : State R N F) (session : Text) (stage : Stage R N F) (inner : Inner) :
    (st.put session (some stage) inner).stages session ≠ none := by
  rw [put_stage]
  exact Option.some_ne_none stage

theorem put_moves {session : Text} {stage : Option (Stage R N F)} {inner : Inner}
    (hkv : KvInv s inner) (hactive : ∀ id ≠ session, (Active inner id ↔ Active st.inner id)) :
    Moves s st (st.put session stage inner) session where
  kv := hkv
  stages := fun _ hne => Function.update_of_ne hne ..
  active := hactive

/-- A step that leaves all caches as they are. -/
theorem put_moves_of_kv {session : Text} {stage : Option (Stage R N F)} {inner : Inner}
    (hinv : KvInv s st.inner) (hkv : inner.kv = st.inner.kv)
    (hused : inner.kvUsed = st.inner.kvUsed) :
    Moves s st (st.put session stage inner) session :=
  put_moves (hinv.congr hkv hused) fun _ _ => active_congr hkv

/-- How a step leaves its session. -/
inductive Leaves (st st' : State R N F) (a : Action R N F) : Prop where
  | turning (stage : st'.stages a.session ≠ none) (active : Active st'.inner a.session)
      (stays : ¬ GivesUp st a)
  | idle (stage : st'.stages a.session = none)
      (idle : Active st'.inner a.session → st.stages a.session = none ∧ Active st.inner a.session)
      (stays : ¬ GivesUp st a)
  | gaveUp (stage : st'.stages a.session = none) (active : Active st'.inner a.session)
      (gaveUp : GivesUp st a)

theorem release_parts (inner : Inner) (ticket : Nat) :
    (Sched.release inner ticket).1.kv = inner.kv ∧
      (Sched.release inner ticket).1.kvUsed = inner.kvUsed := by
  unfold Sched.release
  dsimp only
  split
  · exact ⟨rfl, rfl⟩
  · exact ⟨rfl, rfl⟩

theorem reserving_call {call : Call R N F} {t : Reserving R N F} (h : call.reserving = .ok t) :
    t.call = call := by
  unfold Call.reserving at h
  split at h
  · cases h
  · split at h
    · cases h
    · rw [← Except.ok.inj h]

theorem cleared_ok {t : Reserving R N F} {t' : Cleared R N F} (h : t.cleared = .ok t') :
    t.call.attachmentCheck t.prepared.backend = .ok () := by
  unfold Reserving.cleared at h
  split at h
  · cases h
  · assumption

theorem cleared_error {t : Reserving R N F} {body : ErrorBody} (h : t.cleared = .error body) :
    t.call.attachmentCheck t.prepared.backend ≠ .ok () := by
  intro hok
  unfold Reserving.cleared at h
  split at h
  · rename_i herror
    rw [hok] at herror
    cases herror
  · cases h

theorem startStep_spec (hinv : KvInv s st.inner) {call : Call R N F}
    {order : IterOrder (Row Text KvEntry)} {now : Nat} (hstage : st.stages call.sessionId = none) :
    Moves s st (startStep s st call order now) call.sessionId ∧
      Leaves st (startStep s st call order now) (.start call order now) := by
  have hstays : ¬ GivesUp st (.start call order now) := id
  unfold startStep
  cases hreserving : call.reserving with
  | error body =>
    refine ⟨⟨hinv, fun _ _ => rfl, fun _ _ => Iff.rfl⟩, Leaves.idle hstage ?_ hstays⟩
    exact fun hactive => ⟨hstage, hactive⟩
  | ok t =>
    have hid : t.call.sessionId = call.sessionId := by
      rw [reserving_call hreserving]
    have hkv : KvInv s (t.reserveKv s st.inner order now).inner :=
      (Sched.reserveKv_spec hinv order now _ _ _ _).2
    dsimp only
    cases hresult : (t.reserveKv s st.inner order now).result with
    | error text =>
      have hsame : (t.reserveKv s st.inner order now).inner = st.inner :=
        reserveKv_error hinv hresult
      refine ⟨put_moves hkv fun _ _ => by rw [hsame], Leaves.idle (put_stage ..) ?_ hstays⟩
      intro hactive
      exact ⟨hstage, hsame ▸ hactive⟩
    | ok ids =>
      have hactive : Active (t.reserveKv s st.inner order now).inner t.call.sessionId ∧
          ∀ id ≠ t.call.sessionId,
            (Active (t.reserveKv s st.inner order now).inner id ↔ Active st.inner id) :=
        reserveKv_active hinv hresult
      rw [hid] at hactive
      obtain ⟨hself, hothers⟩ := hactive
      refine ⟨put_moves hkv hothers, Leaves.turning ?_ hself hstays⟩
      exact put_turning _ _ _ _

theorem checkStep_spec (hinv : Inv s st) {session : Text} {t : Reserving R N F}
    (hstage : st.stages session = some (.reserved t)) :
    Moves s st (checkStep st session t) session ∧
      Leaves st (checkStep st session t) (.check session) := by
  have hactive : Active st.inner session := hinv.busy session (by simp [hstage])
  unfold checkStep
  cases hcleared : t.cleared with
  | error body =>
    refine ⟨put_moves_of_kv hinv.kv rfl rfl, Leaves.gaveUp (put_stage ..) hactive ?_⟩
    exact ⟨t, hstage, cleared_error hcleared⟩
  | ok t' =>
    refine ⟨put_moves_of_kv hinv.kv rfl rfl, Leaves.turning ?_ hactive ?_⟩
    · exact put_turning _ _ _ _
    · rintro ⟨other, hother, hrefused⟩
      rw [hstage, Option.some.injEq, Stage.reserved.injEq] at hother
      subst hother
      exact hrefused (cleared_ok hcleared)

theorem beginStep_spec (hinv : Inv s st) {session : Text} {t : Cleared R N F} {ticket : Nat}
    (hstage : st.stages session = some (.admitted t ticket)) (begun : Except Text UInt64) :
    Moves s st (beginStep st session t ticket begun) session ∧
      Leaves st (beginStep st session t ticket begun) (.begin session begun) := by
  have hactive : Active st.inner session := hinv.busy session (by simp [hstage])
  unfold beginStep
  cases begun with
  | error e =>
    obtain ⟨hkv, hused⟩ := release_parts st.inner ticket
    refine ⟨put_moves_of_kv hinv.kv hkv hused, Leaves.gaveUp (put_stage ..) ?_ ?_⟩
    · exact (active_congr hkv).mpr hactive
    · exact ⟨t, ticket, hstage⟩
  | ok reqId =>
    refine ⟨put_moves_of_kv hinv.kv rfl rfl, Leaves.turning ?_ hactive id⟩
    exact put_turning _ _ _ _

theorem arrivalStep_spec (hinv : Inv s st) {session : Text} {t : Cleared R N F} {ticket : Nat}
    {loop : TurnState F} (hstage : st.stages session = some (.running t ticket loop))
    (x : Arrival F) (now : Nat) :
    Moves s st (arrivalStep st session t ticket loop x now) session ∧
      Leaves st (arrivalStep st session t ticket loop x now) (.arrival session x now) := by
  have hactive : Active st.inner session := hinv.busy session (by simp [hstage])
  have hkv : KvInv s (if x.isToken then Sched.charge st.inner now session 1 else st.inner) ∧
      ∀ id, (Active (if x.isToken then Sched.charge st.inner now session 1 else st.inner) id ↔
        Active st.inner id) := by
    split
    · exact ⟨(Sched.step_kv hinv.kv (.charge now session 1)).2, fun _ => active_charge now 1⟩
    · exact ⟨hinv.kv, fun _ => Iff.rfl⟩
  unfold arrivalStep
  dsimp only
  split
  · refine ⟨put_moves hkv.1 fun id _ => hkv.2 id, Leaves.turning ?_ ?_ id⟩
    · exact put_turning _ _ _ _
    · exact (hkv.2 session).mpr hactive
  · refine ⟨put_moves hkv.1 fun id _ => hkv.2 id, Leaves.turning ?_ ?_ id⟩
    · exact put_turning _ _ _ _
    · exact (hkv.2 session).mpr hactive

/-- Outside a turn no cache becomes active. -/
theorem between_call (hinv : KvInv s st.inner) {session : Text} {call : Sched.Call}
    (hcall : mayCall session call = true) :
    KvInv s (Sched.step s st.inner call).val ∧
      (∀ id ≠ session, (Active (Sched.step s st.inner call).val id ↔ Active st.inner id)) ∧
      (Active (Sched.step s st.inner call).val session → Active st.inner session) := by
  refine ⟨(Sched.step_kv hinv call).2, ?_⟩
  cases call with
  | enqueue id cls => exact ⟨fun _ _ => Iff.rfl, fun h => h⟩
  | admitTurn ticket =>
    have hkv : (Sched.step s st.inner (.admitTurn ticket)).val.kv = st.inner.kv := by
      simp only [Sched.step, Traced.val_pure]
      cases hadmit : Sched.admitTurn s st.inner ticket with
      | none => rfl
      | some next =>
        obtain ⟨me, -, hadmitted⟩ := Sched.admitTurn_cases hadmit
        exact hadmitted.kv
    exact ⟨fun _ _ => active_congr hkv, (active_congr hkv).mp⟩
  | attach ticket backend reqId => exact ⟨fun _ _ => Iff.rfl, fun h => h⟩
  | release ticket => exact ⟨fun _ _ => active_release ticket, (active_release ticket).mp⟩
  | charge now id tokens =>
    exact ⟨fun _ _ => active_charge now tokens, (active_charge now tokens).mp⟩
  | reserveKv order now id backend cls bytes => cases hcall
  | markIdle now id =>
    have hid : id = session := of_decide_eq_true hcall
    subst hid
    exact ⟨fun _ hne => active_markIdle_ne now hne, fun h => absurd h (active_markIdle_self now)⟩
  | releaseKv id => cases hcall

theorem admitted_spec (hinv : Inv s st) {session : Text} {t : Cleared R N F} {ticket : Nat}
    (hstage : st.stages session = some (.waiting t ticket))
    {next : Inner × List Sched.SetPaused}
    (hturn : Sched.admitTurn s st.inner ticket = some next) :
    Moves s st (st.put session (some (.admitted t ticket)) next.1) session ∧
      Leaves st (st.put session (some (.admitted t ticket)) next.1) (.admitTurn session) := by
  have hactive : Active st.inner session := hinv.busy session (by simp [hstage])
  obtain ⟨me, -, hadmitted⟩ := Sched.admitTurn_cases hturn
  refine ⟨put_moves_of_kv hinv.kv hadmitted.kv hadmitted.kvUsed, Leaves.turning ?_ ?_ id⟩
  · exact put_turning _ _ _ _
  · exact (active_congr hadmitted.kv).mpr hactive

theorem leave_spec (hinv : Inv s st) {session : Text} {ticket : Nat}
    (hstage : st.stages session = some (.leaving ticket)) :
    Moves s st (st.put session (some .settling) (Sched.release st.inner ticket).1) session ∧
      Leaves st (st.put session (some .settling) (Sched.release st.inner ticket).1)
        (.leave session) := by
  have hactive : Active st.inner session := hinv.busy session (by simp [hstage])
  obtain ⟨hkv, hused⟩ := release_parts st.inner ticket
  refine ⟨put_moves_of_kv hinv.kv hkv hused, Leaves.turning ?_ ?_ id⟩
  · exact put_turning _ _ _ _
  · exact (active_congr hkv).mpr hactive

theorem settle_spec (hinv : KvInv s st.inner) (session : Text) (now : Nat) :
    Moves s st (st.put session none (Sched.markIdle st.inner now session)) session ∧
      Leaves st (st.put session none (Sched.markIdle st.inner now session))
        (.settle session now) := by
  have hkv : KvInv s (Sched.markIdle st.inner now session) :=
    (Sched.step_kv hinv (.markIdle now session)).2
  refine ⟨put_moves hkv fun _ hne => active_markIdle_ne now hne,
    Leaves.idle (put_stage ..) ?_ id⟩
  intro hactive
  exact absurd hactive (active_markIdle_self now)

theorem retire_spec (hinv : KvInv s st.inner) (session : Text) :
    Moves s st (st.put session none (Sched.releaseKv st.inner session).val) session ∧
      Leaves st (st.put session none (Sched.releaseKv st.inner session).val)
        (.retire session) := by
  refine ⟨put_moves (Sched.releaseKv_spec hinv session).2 fun _ hne => active_releaseKv_ne hne,
    Leaves.idle (put_stage ..) ?_ id⟩
  intro hactive
  exact absurd hactive active_releaseKv_self

theorem between_spec (hinv : KvInv s st.inner) {session : Text} {call : Sched.Call}
    (hstage : st.stages session = none) (hcall : mayCall session call = true) :
    Moves s st (st.put session none (Sched.step s st.inner call).val) session ∧
      Leaves st (st.put session none (Sched.step s st.inner call).val)
        (.between session call) := by
  obtain ⟨hkv, hothers, hself⟩ := between_call hinv hcall
  refine ⟨put_moves hkv hothers, Leaves.idle (put_stage ..) ?_ id⟩
  intro hactive
  exact ⟨hstage, hself hactive⟩

/-- What every step does. -/
theorem step_spec (hinv : Inv s st) {a : Action R N F} (h : step s st a = some st') :
    Moves s st st' a.session ∧ Leaves st st' a := by
  cases a with
  | start call order now =>
    simp only [step] at h
    split at h
    · rename_i hstage
      obtain rfl := Option.some.inj h
      exact startStep_spec hinv.kv hstage
    · cases h
  | check session =>
    simp only [step] at h
    split at h
    · rename_i t hstage
      obtain rfl := Option.some.inj h
      exact checkStep_spec hinv hstage
    · cases h
  | admitTurn session =>
    simp only [step] at h
    split at h
    · rename_i t ticket hstage
      obtain ⟨next, hturn, rfl⟩ := Option.map_eq_some_iff.mp h
      exact admitted_spec hinv hstage hturn
    · cases h
  | begin session begun =>
    simp only [step] at h
    split at h
    · rename_i t ticket hstage
      obtain rfl := Option.some.inj h
      exact beginStep_spec hinv hstage begun
    · cases h
  | arrival session x now =>
    simp only [step] at h
    split at h
    · rename_i t ticket loop hstage
      obtain rfl := Option.some.inj h
      exact arrivalStep_spec hinv hstage x now
    · cases h
  | leave session =>
    simp only [step] at h
    split at h
    · rename_i ticket hstage
      obtain rfl := Option.some.inj h
      exact leave_spec hinv hstage
    · cases h
  | settle session now =>
    simp only [step] at h
    split at h
    · obtain rfl := Option.some.inj h
      exact settle_spec hinv.kv session now
    · cases h
  | retire session =>
    simp only [step] at h
    split at h
    · obtain rfl := Option.some.inj h
      exact retire_spec hinv.kv session
    · cases h
  | between session call =>
    simp only [step] at h
    split at h
    · rename_i hstage
      split at h
      · rename_i hcall
        obtain rfl := Option.some.inj h
        exact between_spec hinv.kv hstage hcall
      · cases h
    · cases h

/-! ### Runs -/

theorem inv_step (hinv : Inv s st) {a : Action R N F} (h : step s st a = some st') :
    Inv s st' := by
  obtain ⟨hmoves, hleaves⟩ := step_spec hinv h
  refine ⟨hmoves.kv, ?_⟩
  intro id hbusy
  by_cases hid : id = a.session
  · subst hid
    rcases hleaves with ⟨-, hactive, -⟩ | ⟨hstage, -, -⟩ | ⟨hstage, -, -⟩
    · exact hactive
    · exact absurd hstage hbusy
    · exact absurd hstage hbusy
  · rw [hmoves.stages id hid] at hbusy
    exact (hmoves.active id hid).mpr (hinv.busy id hbusy)

theorem Evictable.of_idle (hinv : Inv s st)
    (hidle : ∀ session, st.stages session = none → ¬ Active st.inner session) : Evictable s st where
  idle := hidle
  room := by
    intro hnone order now session backend cls bytes
    exact reserveKv_room hinv.kv fun id => hidle id (hnone id)

theorem enabled_of_givesUp {a : Action R N F} (h : GivesUp st a) :
    ∃ st', step s st a = some st' := by
  unfold GivesUp at h
  split at h
  · obtain ⟨t, hstage, -⟩ := h
    simp only [step, hstage]
    exact ⟨_, rfl⟩
  · obtain ⟨t, ticket, hstage⟩ := h
    simp only [step, hstage]
    exact ⟨_, rfl⟩
  · cases h

/-- A step leaves every cache evictable exactly when no turn gives up in it. -/
theorem keeps_evictable_iff (a : Action R N F) (hinv : Inv s st) (hst : Evictable s st) :
    Keeps (step s) (Evictable s) st a ↔ ¬ GivesUp st a := by
  constructor
  · intro hkeeps hgives
    obtain ⟨st', hnext⟩ := enabled_of_givesUp (s := s) hgives
    rcases (step_spec hinv hnext).2 with ⟨-, -, hstays⟩ | ⟨-, -, hstays⟩ | ⟨hstage, hactive, -⟩
    · exact hstays hgives
    · exact hstays hgives
    · exact (hkeeps st' hnext).idle a.session hstage hactive
  · intro hno st' hnext
    obtain ⟨hmoves, hleaves⟩ := step_spec hinv hnext
    apply Evictable.of_idle (inv_step hinv hnext)
    intro id hnone hactive
    by_cases hid : id = a.session
    · subst hid
      rcases hleaves with ⟨hstage, -, -⟩ | ⟨-, hbefore, -⟩ | ⟨-, -, hgives⟩
      · exact hstage hnone
      · exact hst.idle a.session (hbefore hactive).1 (hbefore hactive).2
      · exact hno hgives
    · rw [hmoves.stages id hid] at hnone
      exact hst.idle id hnone ((hmoves.active id hid).mp hactive)

theorem new_inv (s : Scheduler) : Inv s (State.new : State R N F) :=
  ⟨Sched.new_kv s, fun _ hbusy => absurd rfl hbusy⟩

theorem new_evictable (s : Scheduler) : Evictable s (State.new : State R N F) := by
  apply Evictable.of_idle (new_inv s)
  rintro session - ⟨entry, hentry, -⟩
  cases hentry

/-- However the turns of all sessions run together, every cache can be evicted when its
    turn is over exactly in the runs in which no turn gives up between its reservation and
    its event loop. -/
theorem caches_evictable_iff (s : Scheduler) (acts : List (Action R N F)) :
    along (step s) (Keeps (step s) (Evictable s)) State.new acts ↔
      along (step s) (fun st a => ¬ GivesUp st a) State.new acts :=
  along_keeps_iff_of_invariant (step s) (fun _ _ _ hinv hnext => inv_step hinv hnext)
    (fun _ a hinv hst => keeps_evictable_iff a hinv hst) acts (new_inv s) (new_evictable s)

end Steps

theorem thousand_lt : 1000 < 2 ^ 63 := by decide

/-- A scheduler with a budget of a thousand bytes. -/
def smallScheduler : Scheduler where
  maxInteractive := 1
  maxBackground := 1
  kvBudget := 1000
  interactive_u32 := by decide
  background_u32 := by decide
  budget_lt := thousand_lt

/-- A picture for a backend that does not see. -/
def unseen : List (Action ℚ Empty Nat) :=
  [.start (plainCall [] [picture 1] 16) (IterOrder.stored _) 0, .check "s-1".toList]

/-- The picture is refused, and the cache stays active with no turn to mark it idle. -/
theorem refused_picture_keeps_cache :
    ¬ ∀ (s : Scheduler) (acts : List (Action ℚ Empty Nat)) (st : State ℚ Empty Nat),
      runs (step s) State.new acts = some st → Evictable s st := by
  intro hall
  have hlast : ((runs (step smallScheduler) State.new unseen).map fun st =>
      ((st.stages "s-1".toList).isNone, (st.inner.kv.lookup "s-1".toList).map KvEntry.active)) =
      some (true, some true) := by
    decide +kernel
  obtain ⟨st, hrun, hst⟩ := Option.map_eq_some_iff.mp hlast
  rw [Prod.mk.injEq] at hst
  obtain ⟨hstage, hactive⟩ := hst
  obtain ⟨entry, hentry⟩ := Option.map_eq_some_iff.mp hactive
  exact (hall _ _ st hrun).idle _ (Option.isNone_iff_eq_none.mp hstage) ⟨entry, hentry⟩

end AiDaemon.WholeTurn
