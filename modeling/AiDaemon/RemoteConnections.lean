import AiDaemon.Ledger
import AiDaemon.Transition

/-!
# Connections side by side (`ai-daemon-backend-remote`: `serve`, `handle`, `generate`)

Every connection has a thread that handles its requests in turn, and every
`Generate` one of its own.  The flags and the transfers of all of them are in two
tables, by the number of the request alone, and each daemon counts its requests
from one.  What is under a number belongs to whoever put it there last.

Each table has a lock of its own, so each operation on one is a step here: a
`Cancel` looks at the flags and then at the transfers, and a thread that is done
forgets its flag and then its transfer.  A connection may close while its
requests go on; it is then one that receives nothing more.  Requests that touch
neither table, such as a `Generate` that is refused for its attachments, are left
out.
-/

namespace AiDaemon.RemoteConnections

open Ledger Transition

/-! ### Requests in flight -/

/-- A `Generate`: the connection it came on, and its number there. -/
structure Call where
  conn : Nat
  reqId : UInt64
deriving DecidableEq, Repr

/-- Where the thread of a request stands.  A transfer that broke off while it was
    read is still in its table at the end. -/
inductive Stage where
  | starting
  | reading
  | closing (left : Bool)
  | closed (left : Bool)
deriving DecidableEq, Repr

/-- The flag of the request is in its table. -/
def Stage.flagged : Stage → Bool
  | starting | reading | closing _ => true
  | closed _ => false

/-- The transfer of the request is in its table. -/
def Stage.transferring : Stage → Bool
  | starting => false
  | reading => true
  | closing left | closed left => left

/-- What is done to a request: by a `Cancel` that came on a connection, or when
    another request is done. -/
inductive Effect where
  | stopped (conn : Nat) (call : Call)
  | killed (conn : Nat) (call : Call)
  | flagRemoved (ender call : Call)
  | transferRemoved (ender call : Call)
deriving DecidableEq, Repr

/-- A `Cancel` reaches requests of its own connection, and a request itself. -/
def Effect.Own : Effect → Prop
  | stopped conn call | killed conn call => call.conn = conn
  | flagRemoved ender call | transferRemoved ender call => call = ender

instance : DecidablePred Effect.Own
  | .stopped _ _ | .killed _ _ => inferInstanceAs (Decidable (_ = _))
  | .flagRemoved _ _ | .transferRemoved _ _ => inferInstanceAs (Decidable (_ = _))

/-- The two tables, with the request whose flag or transfer each entry is, the
    threads, the requests that have been received, the connections that are between
    the halves of a `Cancel`, and what has been done to requests. -/
structure Service where
  cancelled : Table UInt64 Call
  transfers : Table UInt64 Call
  calls : Table Call Stage
  received : List Call
  cancelling : Table Nat UInt64
  done : List Effect

def Service.start : Service := ⟨∅, ∅, ∅, [], ∅, []⟩

inductive Act where
  /-- `handle`: the flag goes into its table and the thread is spawned. -/
  | generate (call : Call)
  /-- `handle` of a `Cancel`: the flag. -/
  | cancel (conn : Nat) (reqId : UInt64)
  /-- And the transfer. -/
  | kill (conn : Nat)
  /-- The transfer is started and goes into its table, or there is none. -/
  | transfer (call : Call) (started : Bool)
  /-- It is read to its end and reaped, or breaks off. -/
  | finish (call : Call) (whole : Bool)
  | forgetFlag (call : Call)
  | forgetTransfer (call : Call)
deriving DecidableEq, Repr

def Service.log (st : Service) (effects : Option Effect) : Service :=
  { st with done := st.done ++ effects.toList }

def step (st : Service) : Act → Option Service
  | .generate call =>
    if call ∈ st.received ∨ call.conn ∈ st.cancelling then none
    else
      some { st with
        cancelled := st.cancelled.insert call.reqId call
        calls := st.calls.insert call .starting
        received := call :: st.received }
  | .cancel conn reqId =>
    if conn ∈ st.cancelling then none
    else
      some ({ st with cancelling := st.cancelling.insert conn reqId }.log
        ((st.cancelled.lookup reqId).map (.stopped conn)))
  | .kill conn =>
    (st.cancelling.lookup conn).map fun reqId =>
      { st with cancelling := st.cancelling.erase conn }.log
        ((st.transfers.lookup reqId).map (.killed conn))
  | .transfer call started =>
    if st.calls.lookup call = some .starting then
      if started then
        some { st with
          transfers := st.transfers.insert call.reqId call
          calls := st.calls.insert call .reading }
      else some { st with calls := st.calls.insert call (.closing false) }
    else none
  | .finish call whole =>
    if st.calls.lookup call = some .reading then
      if whole then
        some ({ st with
          transfers := st.transfers.erase call.reqId
          calls := st.calls.insert call (.closing false) }.log
            ((st.transfers.lookup call.reqId).map (.transferRemoved call)))
      else some { st with calls := st.calls.insert call (.closing true) }
    else none
  | .forgetFlag call =>
    match st.calls.lookup call with
    | some (.closing left) =>
      some ({ st with
        cancelled := st.cancelled.erase call.reqId
        calls := st.calls.insert call (.closed left) }.log
          ((st.cancelled.lookup call.reqId).map (.flagRemoved call)))
    | _ => none
  | .forgetTransfer call =>
    match st.calls.lookup call with
    | some (.closed _) =>
      some ({ st with
        transfers := st.transfers.erase call.reqId
        calls := st.calls.erase call }.log
          ((st.transfers.lookup call.reqId).map (.transferRemoved call)))
    | _ => none

/-- Connections have not interfered. -/
def Apart (st : Service) : Prop := ∀ effect ∈ st.done, effect.Own

/-- No `Generate` comes while another request of its number is in flight, and no
    `Cancel` for a number under which another connection's flag, or then transfer, is. -/
def Separate (st : Service) : Act → Prop
  | .generate call => ∀ other stage, st.calls.lookup other = some stage →
      other.reqId ≠ call.reqId
  | .cancel conn reqId => ∀ other stage, st.calls.lookup other = some stage →
      stage.flagged = true → other.reqId = reqId → other.conn = conn
  | .kill conn => ∀ reqId, st.cancelling.lookup conn = some reqId →
      ∀ other stage, st.calls.lookup other = some stage →
        stage.transferring = true → other.reqId = reqId → other.conn = conn
  | _ => True

instance decidableForallLookup {κ α : Type} [DecidableEq κ] (table : Table κ α)
    (p : κ → α → Prop) [∀ k a, Decidable (p k a)] :
    Decidable (∀ k a, table.lookup k = some a → p k a) :=
  decidable_of_iff (∀ e ∈ table.entries, p e.1 e.2)
    ⟨fun h k a hlookup => h ⟨k, a⟩ (AList.mem_lookup_iff.1 hlookup),
      fun h e he => h e.1 e.2 (AList.mem_lookup_iff.2 he)⟩

instance (st : Service) : ∀ act, Decidable (Separate st act)
  | .generate call => decidableForallLookup st.calls fun other _ => other.reqId ≠ call.reqId
  | .cancel conn reqId => decidableForallLookup st.calls fun other stage =>
      stage.flagged = true → other.reqId = reqId → other.conn = conn
  | .kill conn =>
    match h : st.cancelling.lookup conn with
    | none => isTrue fun _ hsome => nomatch h.symm.trans hsome
    | some reqId =>
      @decidable_of_iff _ (∀ other stage, st.calls.lookup other = some stage →
          stage.transferring = true → other.reqId = reqId → other.conn = conn)
        ⟨fun hall _ hsome => Option.some.inj (h.symm.trans hsome) ▸ hall, fun hall => hall reqId h⟩
        (decidableForallLookup st.calls _)
  | .transfer _ _ | .finish _ _ | .forgetFlag _ | .forgetTransfer _ => isTrue trivial

/-! ### One request for each number -/

/-- A request is in flight, at a stage of some kind. -/
def At (calls : Table Call Stage) (kind : Stage → Bool) (call : Call) : Prop :=
  ∃ stage, calls.lookup call = some stage ∧ kind stage = true

/-- A table has the requests that satisfy `p`, each under its number. -/
def Indexes (table : Table UInt64 Call) (p : Call → Prop) : Prop :=
  ∀ reqId call, table.lookup reqId = some call ↔ call.reqId = reqId ∧ p call

/-- Requests in flight have different numbers, and the tables have theirs. -/
structure Tidy (st : Service) : Prop where
  alone : ∀ call other stage stage', st.calls.lookup call = some stage →
    st.calls.lookup other = some stage' → call.reqId = other.reqId → call = other
  flags : Indexes st.cancelled (At st.calls Stage.flagged)
  running : Indexes st.transfers (At st.calls Stage.transferring)
  received : ∀ call stage, st.calls.lookup call = some stage → call ∈ st.received

theorem start_tidy : Tidy Service.start := by
  refine ⟨?_, ?_, ?_, ?_⟩ <;> simp [Service.start, Indexes, At]

variable {st st' : Service} {call other : Call} {calls : Table Call Stage} {stage stage' : Stage}
  {kind : Stage → Bool} {table : Table UInt64 Call} {p q : Call → Prop}

theorem At.congr (h : At calls kind call) (hstage : calls.lookup call = some stage) :
    kind stage = true := by
  obtain ⟨_, hlookup, hkind⟩ := h
  rw [hstage] at hlookup
  cases hlookup
  exact hkind

/-- The requests in flight once one of them is at another stage. -/
theorem lookup_insert_cases (h : (calls.insert call stage).lookup other = some stage') :
    other = call ∧ stage' = stage ∨ other ≠ call ∧ calls.lookup other = some stage' := by
  rcases eq_or_ne other call with rfl | hne
  · rw [AList.lookup_insert] at h
    exact .inl ⟨rfl, (Option.some.inj h).symm⟩
  · rw [AList.lookup_insert_ne hne] at h
    exact .inr ⟨hne, h⟩

theorem at_insert : At (calls.insert call stage) kind other ↔
    other = call ∧ kind stage = true ∨ other ≠ call ∧ At calls kind other := by
  rcases eq_or_ne other call with rfl | hne
  · simp [At]
  · simp [At, AList.lookup_insert_ne hne, hne]

theorem at_insert_gains (hkind : kind stage = true) :
    At (calls.insert call stage) kind other ↔ other = call ∨ At calls kind other := by
  rw [at_insert]
  rcases eq_or_ne other call with rfl | hne
  · simp [hkind]
  · simp [hne]

theorem at_insert_loses (hkind : kind stage = false) :
    At (calls.insert call stage) kind other ↔ other ≠ call ∧ At calls kind other := by
  rw [at_insert]
  simp [hkind]

theorem at_insert_keeps (hbefore : calls.lookup call = some stage)
    (hkind : kind stage' = kind stage) :
    At (calls.insert call stage') kind other ↔ At calls kind other := by
  rw [at_insert]
  rcases eq_or_ne other call with rfl | hne
  · simp [At, hbefore, hkind]
  · simp [hne]

theorem at_erase : At (calls.erase call) kind other ↔ other ≠ call ∧ At calls kind other := by
  rcases eq_or_ne other call with rfl | hne
  · simp [At]
  · simp [At, AList.lookup_erase_ne hne, hne]

theorem Indexes.congr (h : Indexes table p) (hsame : ∀ call, q call ↔ p call) :
    Indexes table q := by
  intro reqId call
  rw [h, hsame]

theorem Indexes.insert (h : Indexes table p) (hfresh : ∀ other, p other → other.reqId ≠ call.reqId)
    (hgains : ∀ other, q other ↔ other = call ∨ p other) :
    Indexes (table.insert call.reqId call) q := by
  intro reqId other
  rw [hgains]
  rcases eq_or_ne reqId call.reqId with rfl | hne
  · rw [AList.lookup_insert, Option.some.injEq]
    constructor
    · rintro rfl
      exact ⟨rfl, .inl rfl⟩
    · rintro ⟨hreqId, rfl | hp⟩
      · rfl
      · exact absurd hreqId (hfresh other hp)
  · rw [AList.lookup_insert_ne hne, h]
    refine and_congr_right fun hreqId => ⟨.inr, fun hor => hor.resolve_left ?_⟩
    rintro rfl
    exact hne hreqId.symm

theorem Indexes.erase (h : Indexes table p) (halone : ∀ other, p other →
    other.reqId = call.reqId → other = call) (hloses : ∀ other, q other ↔ other ≠ call ∧ p other) :
    Indexes (table.erase call.reqId) q := by
  intro reqId other
  rw [hloses]
  rcases eq_or_ne reqId call.reqId with rfl | hne
  · rw [AList.lookup_erase]
    constructor
    · intro hnone
      cases hnone
    · rintro ⟨hreqId, hother, hp⟩
      exact absurd (halone other hp hreqId) hother
  · rw [AList.lookup_erase_ne hne, h]
    refine and_congr_right fun hreqId => ⟨fun hp => ⟨?_, hp⟩, And.right⟩
    rintro rfl
    exact hne hreqId.symm

/-- Of a request that is in flight no other has the number. -/
theorem Tidy.only (h : Tidy st) (hcall : st.calls.lookup call = some stage) (other : Call)
    (hother : At st.calls kind other) (hreqId : other.reqId = call.reqId) : other = call := by
  obtain ⟨stage', hstage', -⟩ := hother
  exact h.alone other call stage' stage hstage' hcall hreqId

/-- A request that goes on to another stage keeps its number, and was received. -/
theorem Tidy.moved (h : Tidy st) (hcall : st.calls.lookup call = some stage)
    (hcalls : st'.calls = st.calls.insert call stage') (hreceived : st'.received = st.received)
    (hflags : Indexes st'.cancelled (At st'.calls Stage.flagged))
    (hrunning : Indexes st'.transfers (At st'.calls Stage.transferring)) : Tidy st' := by
  have hback : ∀ {other stage'}, st'.calls.lookup other = some stage' →
      ∃ stage, st.calls.lookup other = some stage := by
    intro other stage' hother
    rw [hcalls] at hother
    rcases lookup_insert_cases hother with ⟨rfl, -⟩ | ⟨-, hother⟩
    · exact ⟨_, hcall⟩
    · exact ⟨_, hother⟩
  refine ⟨?_, hflags, hrunning, ?_⟩
  · intro a b _ _ ha hb hreqId
    obtain ⟨_, ha⟩ := hback ha
    obtain ⟨_, hb⟩ := hback hb
    exact h.alone a b _ _ ha hb hreqId
  · intro a _ ha
    obtain ⟨_, ha⟩ := hback ha
    rw [hreceived]
    exact h.received a _ ha

theorem Tidy.log (h : Tidy st) (effect : Option Effect) : Tidy (st.log effect) :=
  ⟨h.alone, h.flags, h.running, h.received⟩

/-! ### What a step does -/

theorem generate_tidy (h : Tidy st) (hseparate : Separate st (.generate call))
    (hstep : step st (.generate call) = some st') : Tidy st' := by
  rw [step] at hstep
  split at hstep
  · cases hstep
  · next hfresh =>
    cases hstep
    rw [not_or] at hfresh
    have hother : ∀ kind other, At st.calls kind other → other.reqId ≠ call.reqId := by
      rintro kind other ⟨stage, hstage, -⟩
      exact hseparate other stage hstage
    refine ⟨?_, ?_, ?_, ?_⟩
    · intro a b _ _ ha hb hreqId
      rcases lookup_insert_cases ha with ⟨hnew, -⟩ | ⟨-, hold⟩
      · rcases lookup_insert_cases hb with ⟨hnew', -⟩ | ⟨-, hold'⟩
        · exact hnew.trans hnew'.symm
        · rw [hnew] at hreqId
          exact absurd hreqId.symm (hseparate b _ hold')
      · rcases lookup_insert_cases hb with ⟨hnew', -⟩ | ⟨-, hold'⟩
        · rw [hnew'] at hreqId
          exact absurd hreqId (hseparate a _ hold)
        · exact h.alone a b _ _ hold hold' hreqId
    · exact h.flags.insert (hother Stage.flagged) fun other => at_insert_gains rfl
    · refine h.running.congr fun other => ?_
      rw [at_insert_loses rfl]
      refine and_iff_right_of_imp ?_
      rintro ⟨stage, hstage, -⟩ rfl
      exact hfresh.1 (h.received other stage hstage)
    · intro a _ ha
      rcases lookup_insert_cases ha with ⟨rfl, -⟩ | ⟨-, ha⟩
      · exact List.mem_cons_self
      · exact List.mem_cons_of_mem _ (h.received a _ ha)

theorem transfer_tidy {started : Bool} (h : Tidy st)
    (hstep : step st (.transfer call started) = some st') : Tidy st' := by
  rw [step] at hstep
  split at hstep
  case isFalse => cases hstep
  next hcall =>
  cases started with
  | true =>
    cases hstep
    refine h.moved hcall rfl rfl (h.flags.congr fun other => at_insert_keeps hcall rfl) ?_
    refine h.running.insert ?_ fun other => at_insert_gains rfl
    intro other hother hreqId
    obtain rfl := h.only hcall other hother hreqId
    exact absurd (hother.congr hcall) (by decide)
  | false =>
    cases hstep
    exact h.moved hcall rfl rfl (h.flags.congr fun other => at_insert_keeps hcall rfl)
      (h.running.congr fun other => at_insert_keeps hcall rfl)

theorem finish_tidy {whole : Bool} (h : Tidy st)
    (hstep : step st (.finish call whole) = some st') : Tidy st' := by
  rw [step] at hstep
  split at hstep
  case isFalse => cases hstep
  next hcall =>
  cases whole with
  | true =>
    cases hstep
    apply Tidy.log
    refine h.moved hcall rfl rfl ?_ ?_
    · exact h.flags.congr fun other => at_insert_keeps hcall rfl
    · exact h.running.erase (h.only hcall) fun other => at_insert_loses rfl
  | false =>
    cases hstep
    exact h.moved hcall rfl rfl (h.flags.congr fun other => at_insert_keeps hcall rfl)
      (h.running.congr fun other => at_insert_keeps hcall rfl)

theorem forgetFlag_tidy (h : Tidy st) (hstep : step st (.forgetFlag call) = some st') :
    Tidy st' := by
  rw [step] at hstep
  split at hstep
  case h_2 => cases hstep
  next left hcall =>
  cases hstep
  apply Tidy.log
  refine h.moved hcall rfl rfl ?_ ?_
  · exact h.flags.erase (h.only hcall) fun other => at_insert_loses rfl
  · exact h.running.congr fun other => at_insert_keeps hcall rfl

theorem forgetTransfer_tidy (h : Tidy st) (hstep : step st (.forgetTransfer call) = some st') :
    Tidy st' := by
  rw [step] at hstep
  split at hstep
  case h_2 => cases hstep
  next left hcall =>
  cases hstep
  have hback : ∀ {other stage}, (st.calls.erase call).lookup other = some stage →
      st.calls.lookup other = some stage := by
    intro other stage hother
    rcases eq_or_ne other call with rfl | hne
    · rw [AList.lookup_erase] at hother
      cases hother
    · rwa [AList.lookup_erase_ne hne] at hother
  apply Tidy.log
  refine ⟨?_, ?_, ?_, ?_⟩
  · exact fun a b _ _ ha hb hreqId => h.alone a b _ _ (hback ha) (hback hb) hreqId
  · refine h.flags.congr fun other => ?_
    rw [at_erase]
    refine and_iff_right_of_imp ?_
    rintro hother rfl
    exact nomatch hother.congr hcall
  · exact h.running.erase (h.only hcall) fun other => at_erase
  · exact fun a _ ha => h.received a _ (hback ha)

theorem step_tidy (act : Act) (h : Tidy st) (hseparate : Separate st act)
    (hstep : step st act = some st') : Tidy st' := by
  cases act with
  | generate call => exact generate_tidy h hseparate hstep
  | cancel conn reqId =>
    rw [step] at hstep
    split at hstep
    · cases hstep
    · cases hstep
      apply Tidy.log
      exact ⟨h.alone, h.flags, h.running, h.received⟩
  | kill conn =>
    obtain ⟨reqId, -, rfl⟩ := Option.map_eq_some_iff.1 hstep
    apply Tidy.log
    exact ⟨h.alone, h.flags, h.running, h.received⟩
  | transfer call started => exact transfer_tidy h hstep
  | finish call whole => exact finish_tidy h hstep
  | forgetFlag call => exact forgetFlag_tidy h hstep
  | forgetTransfer call => exact forgetTransfer_tidy h hstep

/-! ### What is done to requests -/

theorem apart_log {effect : Option Effect} :
    Apart (st.log effect) ↔ Apart st ∧ ∀ e, effect = some e → e.Own := by
  rcases effect with _ | e
  · simp [Apart, Service.log]
  · simp [Apart, Service.log, or_imp, forall_and]

/-- What is under the number of a request in flight is the request's own, and it may
    remove that. -/
theorem Tidy.apart_removed (h : Tidy st) (htable : Indexes table (At st.calls kind))
    (hcall : st.calls.lookup call = some stage) {removed : Call → Effect}
    (hown : ∀ other, (removed other).Own ↔ other = call) (hapart : Apart st') :
    Apart (st'.log ((table.lookup call.reqId).map removed)) := by
  refine apart_log.2 ⟨hapart, fun e he => ?_⟩
  obtain ⟨other, hlookup, rfl⟩ := Option.map_eq_some_iff.1 he
  obtain ⟨hreqId, hother⟩ := (htable call.reqId other).1 hlookup
  exact (hown other).2 (h.only hcall other hother hreqId)

theorem step_apart (act : Act) (h : Tidy st) (hapart : Apart st) (hseparate : Separate st act)
    (hstep : step st act = some st') : Apart st' := by
  cases act with
  | generate call =>
    rw [step] at hstep
    split at hstep
    · cases hstep
    · cases hstep
      exact hapart
  | cancel conn reqId =>
    rw [step] at hstep
    split at hstep
    · cases hstep
    · cases hstep
      refine apart_log.2 ⟨hapart, fun e he => ?_⟩
      obtain ⟨call, hcall, rfl⟩ := Option.map_eq_some_iff.1 he
      obtain ⟨hreqId, stage, hstage, hflagged⟩ := (h.flags reqId call).1 hcall
      exact hseparate call stage hstage hflagged hreqId
  | kill conn =>
    obtain ⟨reqId, hcancelling, rfl⟩ := Option.map_eq_some_iff.1 hstep
    refine apart_log.2 ⟨hapart, fun e he => ?_⟩
    obtain ⟨call, hcall, rfl⟩ := Option.map_eq_some_iff.1 he
    obtain ⟨hreqId, stage, hstage, hrunning⟩ := (h.running reqId call).1 hcall
    exact hseparate reqId hcancelling call stage hstage hrunning hreqId
  | transfer call started =>
    rw [step] at hstep
    split at hstep
    · cases started with
      | true => cases hstep; exact hapart
      | false => cases hstep; exact hapart
    · cases hstep
  | finish call whole =>
    rw [step] at hstep
    split at hstep
    · next hcall =>
      cases whole with
      | true =>
        cases hstep
        exact h.apart_removed h.running hcall (fun _ => Iff.rfl) hapart
      | false => cases hstep; exact hapart
    · cases hstep
  | forgetFlag call =>
    rw [step] at hstep
    split at hstep
    · next left hcall =>
      cases hstep
      exact h.apart_removed h.flags hcall (fun _ => Iff.rfl) hapart
    · cases hstep
  | forgetTransfer call =>
    rw [step] at hstep
    split at hstep
    · next left hcall =>
      cases hstep
      exact h.apart_removed h.running hcall (fun _ => Iff.rfl) hapart
    · cases hstep

/-! ### Two requests of one number -/

/-- The run can go on to a state in which connections have interfered. -/
def MayInterfere (st : Service) : Prop :=
  ∃ acts final, runs step st acts = some final ∧ ¬ Apart final

theorem mayInterfere_of_not_apart (h : ¬ Apart st) : MayInterfere st := ⟨[], st, rfl, h⟩

theorem mayInterfere_of_step {act : Act} (hstep : step st act = some st')
    (h : MayInterfere st') : MayInterfere st := by
  obtain ⟨acts, final, hruns, hfinal⟩ := h
  refine ⟨act :: acts, final, ?_, hfinal⟩
  rw [runs, hstep]
  exact hruns

theorem step_forgetFlag {left : Bool} (hcall : st.calls.lookup call = some (.closing left)) :
    step st (.forgetFlag call) = some ({ st with
      cancelled := st.cancelled.erase call.reqId
      calls := st.calls.insert call (.closed left) }.log
        ((st.cancelled.lookup call.reqId).map (.flagRemoved call))) := by
  rw [step, hcall]

theorem step_forgetTransfer {left : Bool} (hcall : st.calls.lookup call = some (.closed left)) :
    step st (.forgetTransfer call) = some ({ st with
      transfers := st.transfers.erase call.reqId
      calls := st.calls.erase call }.log
        ((st.transfers.lookup call.reqId).map (.transferRemoved call))) := by
  rw [step, hcall]

/-- A request that is about to forget its flag, under whose number another's is. -/
theorem mayInterfere_of_closing {left : Bool} (hcall : st.calls.lookup call = some (.closing left))
    (hother : st.cancelled.lookup call.reqId = some other) (hne : other ≠ call) :
    MayInterfere st := by
  apply mayInterfere_of_step (step_forgetFlag hcall)
  refine mayInterfere_of_not_apart fun hapart => hne ?_
  exact (apart_log.1 hapart).2 _ (by rw [hother]; rfl)

theorem mayInterfere_of_closed {left : Bool} (hcall : st.calls.lookup call = some (.closed left))
    (hother : st.transfers.lookup call.reqId = some other) (hne : other ≠ call) :
    MayInterfere st := by
  apply mayInterfere_of_step (step_forgetTransfer hcall)
  refine mayInterfere_of_not_apart fun hapart => hne ?_
  exact (apart_log.1 hapart).2 _ (by rw [hother]; rfl)

/-- Wherever the thread of a request stands, it can come to remove what belongs to a
    later one of its number. -/
theorem mayInterfere_of_same_number (hcall : st.calls.lookup call = some stage)
    (hother : st.calls.lookup other = some .starting)
    (hflag : st.cancelled.lookup call.reqId = some other) (hreqId : other.reqId = call.reqId)
    (hne : other ≠ call) : MayInterfere st := by
  cases stage with
  | starting =>
    have hstep : step st (.transfer call false) = some _ := if_pos hcall
    exact mayInterfere_of_step hstep
      (mayInterfere_of_closing (AList.lookup_insert _) hflag hne)
  | reading =>
    have hstep : step st (.finish call false) = some _ := if_pos hcall
    exact mayInterfere_of_step hstep
      (mayInterfere_of_closing (AList.lookup_insert _) hflag hne)
  | closing left => exact mayInterfere_of_closing hcall hflag hne
  | closed left =>
    -- The flag is forgotten already; the other's transfer is still to come.
    have hstep : step st (.transfer other true) = some _ := if_pos hother
    have hclosed : (st.calls.insert other .reading).lookup call = some (.closed left) :=
      (AList.lookup_insert_ne hne.symm).trans hcall
    have hrunning : (st.transfers.insert other.reqId other).lookup call.reqId = some other := by
      rw [hreqId, AList.lookup_insert]
    exact mayInterfere_of_step hstep (mayInterfere_of_closed hclosed hrunning hne)

/-- The first step that is not separate has interfered, or can come to. -/
theorem mayInterfere_of_not_separate {act : Act} (h : Tidy st) (hseparate : ¬ Separate st act)
    (hstep : step st act = some st') : MayInterfere st' := by
  cases act with
  | generate call =>
    simp only [Separate, not_forall, not_not] at hseparate
    obtain ⟨other, stage, hother, hreqId⟩ := hseparate
    rw [step] at hstep
    split at hstep
    · cases hstep
    · next hfresh =>
      cases hstep
      rw [not_or] at hfresh
      have hne : call ≠ other := by
        rintro rfl
        exact hfresh.1 (h.received call stage hother)
      have hflag : (st.cancelled.insert call.reqId call).lookup other.reqId = some call := by
        rw [hreqId, AList.lookup_insert]
      exact mayInterfere_of_same_number ((AList.lookup_insert_ne hne.symm).trans hother)
        (AList.lookup_insert _) hflag hreqId.symm hne
  | cancel conn reqId =>
    simp only [Separate, not_forall] at hseparate
    obtain ⟨other, stage, hother, hflagged, hreqId, hconn⟩ := hseparate
    rw [step] at hstep
    split at hstep
    · cases hstep
    · cases hstep
      have hlookup := (h.flags reqId other).2 ⟨hreqId, stage, hother, hflagged⟩
      refine mayInterfere_of_not_apart fun hapart => hconn ?_
      exact (apart_log.1 hapart).2 (.stopped conn other) (by rw [hlookup]; rfl)
  | kill conn =>
    simp only [Separate, not_forall] at hseparate
    obtain ⟨reqId, hcancelling, other, stage, hother, hrunning, hreqId, hconn⟩ := hseparate
    obtain ⟨reqId', hcancelling', rfl⟩ := Option.map_eq_some_iff.1 hstep
    obtain rfl : reqId = reqId' := Option.some.inj (hcancelling.symm.trans hcancelling')
    have hlookup := (h.running reqId other).2 ⟨hreqId, stage, hother, hrunning⟩
    refine mayInterfere_of_not_apart fun hapart => hconn ?_
    exact (apart_log.1 hapart).2 (.killed conn other) (by rw [hlookup]; rfl)
  | transfer call started => exact absurd trivial hseparate
  | finish call whole => exact absurd trivial hseparate
  | forgetFlag call => exact absurd trivial hseparate
  | forgetTransfer call => exact absurd trivial hseparate

/-- **Connections do not interfere** in any run whose steps are all separate, and from
    the first step that is not, some run goes on to interfere. -/
theorem connections_apart (acts : List Act) (st : Service)
    (hseparate : along step Separate Service.start acts)
    (hrun : runs step Service.start acts = some st) :
    Apart st ∧ ∀ act st', step st act = some st' → ¬ Separate st act → MayInterfere st' := by
  have hinv : Tidy st ∧ Apart st := by
    refine runs_invariant_along step (P := fun st => Tidy st ∧ Apart st) ?_
      ⟨start_tidy, fun effect heffect => nomatch heffect⟩ hseparate hrun
    rintro st act st' ⟨htidy, hapart⟩ hact hstep
    exact ⟨step_tidy act htidy hact hstep, step_apart act htidy hapart hact hstep⟩
  exact ⟨hinv.2, fun act st' hstep hact => mayInterfere_of_not_separate hinv.1 hact hstep⟩

/-- A request that its own connection cancels. -/
def alone : List Act :=
  [.generate ⟨1, 1⟩, .cancel 1 1, .transfer ⟨1, 1⟩ true, .kill 1, .finish ⟨1, 1⟩ true,
    .forgetFlag ⟨1, 1⟩, .forgetTransfer ⟨1, 1⟩]

/-- The first requests of two connections. -/
def sideBySide : List Act :=
  [.generate ⟨1, 1⟩, .generate ⟨2, 1⟩, .cancel 1 1, .transfer ⟨1, 1⟩ false, .forgetFlag ⟨1, 1⟩]

theorem alone_apart : ∃ st, runs step Service.start alone = some st ∧ Apart st ∧
    ∀ act st', step st act = some st' → ¬ Separate st act → MayInterfere st' := by
  have hseparate : along step Separate Service.start alone := by decide
  obtain ⟨st, hst⟩ := Option.isSome_iff_exists.1
    (show (runs step Service.start alone).isSome = true by decide)
  exact ⟨st, hst, connections_apart alone st hseparate hst⟩

/-- The `Cancel` of one reaches the other, and one forgets the other's flag. -/
theorem side_by_side_interfere : ∃ st, runs step Service.start sideBySide = some st ∧
    st.done = [.stopped 1 ⟨2, 1⟩, .flagRemoved ⟨1, 1⟩ ⟨2, 1⟩] ∧ ¬ Apart st := by
  have hrun : (runs step Service.start sideBySide).map Service.done =
      some [.stopped 1 ⟨2, 1⟩, .flagRemoved ⟨1, 1⟩ ⟨2, 1⟩] := by decide
  obtain ⟨st, hst, hdone⟩ := Option.map_eq_some_iff.1 hrun
  refine ⟨st, hst, hdone, fun hapart => ?_⟩
  have hown := hapart (.stopped 1 ⟨2, 1⟩) (by rw [hdone]; exact List.mem_cons_self)
  exact absurd hown (by decide)

end AiDaemon.RemoteConnections
