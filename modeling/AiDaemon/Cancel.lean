import AiDaemon.Transition
import Mathlib.Logic.Function.Basic

/-!
# Cancelling a turn (`session.rs`: `cancel_in_flight`, `Worker::turn`)

A cancel comes from another thread: the reading thread, for a `Cancel` frame or
a client that went away, or the bus, for `Session.Cancel` and `Session.Close`.
All of them run `cancel_in_flight`, which stores the session's flag, then reads
`current_req`, then writes to the backend if it found a request there.  The
working thread resets the flag in the middle of its turn, after the policy
check, the load and the reservations, and reads it at the top of its event loop
and on every quiet slice of the wait.

Each store and load is a step of its own here, so any number of cancels
interleave with a turn in every possible way.  One that stores the flag before
the turn resets it, and reads `current_req` before the turn has a request, is
forgotten (`cancel_before_reset`).  Where no reset erases a cancel of its own
turn, each is heard before the turn takes a second event
(`cancel_heard_unless_erased`).
-/

namespace AiDaemon.Cancel

open Transition

/-! ### The two threads -/

/-- What the working thread does next. A phase carries the request once there is
    one. -/
inductive Phase where
  | idle
  | checking
  | loading
  | reserving
  | resetting
  | admitting
  | beginning
  | attaching (req : Nat)
  | storing (req : Nat)
  | looking (req : Nat)
  | waiting (req : Nat)
  | finishing (req : Nat)
  | clearing (req : Nat)
deriving DecidableEq, Repr

namespace Phase

/-- The request this turn has sent, from `begin` on. -/
def request : Phase → Option Nat
  | attaching req | storing req | looking req | waiting req | finishing req | clearing req =>
    some req
  | idle | checking | loading | reserving | resetting | admitting | beginning => none

/-- What `current_req` holds. -/
def stored : Phase → Option Nat
  | looking req | waiting req | finishing req | clearing req => some req
  | _ => none

/-- The event loop is behind. -/
def leftLoop : Phase → Bool
  | finishing _ | clearing _ => true
  | _ => false

/-- The wait for an event was entered. -/
def waited : Phase → Bool
  | waiting _ | finishing _ | clearing _ => true
  | _ => false

theorem waited_of_leftLoop {phase : Phase} (h : phase.leftLoop = true) : phase.waited = true := by
  cases phase <;> first | rfl | cases h

end Phase

/-- Where one call of `cancel_in_flight` stands, with the turn it started in. -/
inductive Canceller where
  | idle
  | stored (since : Option Nat)
  | read (req since : Option Nat)
deriving DecidableEq, Repr

def Canceller.since : Canceller → Option Nat
  | idle => none
  | stored since | read _ since => since

inductive ToBackend where
  | generate (req : Nat)
  | cancel (req : Nat)
deriving DecidableEq, Repr

/-- A `cancel_in_flight` that ran within the turn: how many events the turn had
    accepted when it returned, and whether it found the backend it looked for. -/
structure Returned where
  accepted : Nat
  reached : Bool
deriving DecidableEq, Repr

structure CancelState where
  /-- `Session::cancelled`. -/
  cancelled : Bool
  /-- `Session::current_req`. -/
  currentReq : Option Nat
  phase : Phase
  /-- The turn's own `cancel_sent`. -/
  cancelSent : Bool
  /-- The events this turn has accepted. -/
  accepted : Nat
  nextReq : Nat
  /-- What the backend has been sent, oldest first. -/
  sent : List ToBackend
  /-- The turns begun so far. -/
  turn : Nat
  /-- A cancel of this turn has stored the flag. -/
  asked : Bool
  cancellers : Nat → Canceller
  returned : List Returned

def CancelState.new : CancelState :=
  ⟨false, none, .idle, false, 0, 1, [], 0, false, fun _ => .idle, []⟩

/-- What an accepted event does to the loop. A client that is gone is noticed by
    the failing send of a token. -/
inductive Outcome where
  | goesOn
  | ends
  | clientGone
deriving DecidableEq, Repr

inductive Step where
  | receive
  | check (passed : Bool)
  | load (loaded : Bool)
  | reserve (granted : Bool)
  | reset
  | admitted
  | begin (sent : Bool)
  | attach
  | store
  | look
  | quiet
  | event (outcome : Outcome)
  | stall
  | finish
  | clear
  | cancelStore (caller : Nat)
  | cancelRead (caller : Nat)
  | cancelSend (caller : Nat) (found : Bool)
deriving DecidableEq, Repr

/-- The loop's reading of the flag: one cancel, once. -/
def tell (st : CancelState) (req : Nat) : CancelState :=
  if st.cancelSent = false ∧ st.cancelled = true then
    { st with cancelSent := true, sent := st.sent ++ [.cancel req] }
  else st

def setCanceller (st : CancelState) (caller : Nat) (next : Canceller) : CancelState :=
  { st with cancellers := Function.update st.cancellers caller next }

/-- The call returns; it counts for the turn if it started and ended in it. -/
def giveBack (st : CancelState) (caller : Nat) (since : Option Nat) (reached : Bool) :
    CancelState :=
  let st := setCanceller st caller .idle
  if st.phase ≠ .idle ∧ since = some st.turn then
    { st with returned := st.returned ++ [⟨st.accepted, reached⟩] }
  else st

def cancelStep (st : CancelState) : Step → Option CancelState
  | .receive =>
    match st.phase with
    | .idle =>
      some { st with
        phase := .checking, turn := st.turn + 1, asked := false, accepted := 0, returned := [] }
    | _ => none
  | .check passed =>
    match st.phase with
    | .checking => some { st with phase := if passed then .loading else .idle }
    | _ => none
  | .load loaded =>
    match st.phase with
    | .loading => some { st with phase := if loaded then .reserving else .idle }
    | _ => none
  | .reserve granted =>
    match st.phase with
    | .reserving => some { st with phase := if granted then .resetting else .idle }
    | _ => none
  | .reset =>
    match st.phase with
    | .resetting => some { st with phase := .admitting, cancelled := false }
    | _ => none
  | .admitted =>
    match st.phase with
    | .admitting => some { st with phase := .beginning }
    | _ => none
  | .begin sent =>
    match st.phase with
    | .beginning =>
      let next := { st with nextReq := st.nextReq + 1 }
      if sent then
        some { next with
          phase := .attaching st.nextReq, sent := st.sent ++ [.generate st.nextReq] }
      else some { next with phase := .idle }
    | _ => none
  | .attach =>
    match st.phase with
    | .attaching req => some { st with phase := .storing req }
    | _ => none
  | .store =>
    match st.phase with
    | .storing req =>
      some { st with phase := .looking req, currentReq := some req, cancelSent := false }
    | _ => none
  | .look =>
    match st.phase with
    | .looking req => some { tell st req with phase := .waiting req }
    | _ => none
  | .quiet =>
    match st.phase with
    | .waiting req => some (tell st req)
    | _ => none
  | .event outcome =>
    match st.phase with
    | .waiting req =>
      let next := { st with accepted := st.accepted + 1 }
      match outcome with
      | .goesOn => some { next with phase := .looking req }
      | .ends => some { next with phase := .finishing req }
      | .clientGone =>
        some { next with phase := .finishing req, sent := st.sent ++ [.cancel req] }
    | _ => none
  | .stall =>
    match st.phase with
    | .waiting req => some { st with phase := .finishing req }
    | _ => none
  | .finish =>
    match st.phase with
    | .finishing req => some { st with phase := .clearing req }
    | _ => none
  | .clear =>
    match st.phase with
    | .clearing _ => some { st with phase := .idle, currentReq := none }
    | _ => none
  | .cancelStore caller =>
    match st.cancellers caller with
    | .idle =>
      let since := if st.phase = .idle then none else some st.turn
      some { setCanceller st caller (.stored since) with cancelled := true, asked := true }
    | _ => none
  | .cancelRead caller =>
    match st.cancellers caller with
    | .stored since => some (setCanceller st caller (.read st.currentReq since))
    | _ => none
  | .cancelSend caller found =>
    match st.cancellers caller with
    | .read none since => some (giveBack st caller since true)
    | .read (some req) since =>
      let st := if found then { st with sent := st.sent ++ [.cancel req] } else st
      some (giveBack st caller since found)
    | _ => none

/-! ### What is to be shown -/

/-- Every cancel that ran within the turn is heard. The turn accepts no event
    beyond the one it was waiting for without `backend.cancel` having been sent
    for its request, and does not leave its loop without it either, unless the
    cancel met a backend that is gone. -/
def CancelHeard (st : CancelState) : Prop :=
  ∀ r ∈ st.returned, ∀ req, st.phase.request = some req →
    (st.accepted ≤ r.accepted + 1 ∨ .cancel req ∈ st.sent) ∧
      (r.reached = true → st.phase.leftLoop = true → .cancel req ∈ st.sent)

/-- No turn resets the flag after a cancel of that same turn has stored it. -/
def NothingErased (st : CancelState) : Step → Prop
  | .reset => st.asked = false
  | _ => True

instance (st : CancelState) (a : Step) : Decidable (NothingErased st a) :=
  match a with
  | .reset => inferInstanceAs (Decidable (st.asked = false))
  | .receive | .check _ | .load _ | .reserve _ | .admitted | .begin _ | .attach | .store | .look
  | .quiet | .event _ | .stall | .finish | .clear | .cancelStore _ | .cancelRead _
  | .cancelSend _ _ => isTrue trivial

/-! ### The invariant -/

/-- The request in flight, if there is one, has been cancelled. -/
def Told (st : CancelState) : Prop :=
  ∀ req, st.phase.request = some req → .cancel req ∈ st.sent

/-- The first look at the flag is still to come. -/
def Early (st : CancelState) : Prop := st.phase.waited = false ∧ st.accepted = 0

/-- How many events the turn may accept before its next look at the flag. -/
def Phase.slack : Phase → Nat
  | waiting _ => 0
  | _ => 1

structure HeardBy (st : CancelState) (r : Returned) : Prop where
  asked : st.asked = true
  flag : st.cancelled = true
  soon : st.accepted ≤ r.accepted + st.phase.slack ∨ Told st
  reached : r.reached = true → Early st ∨ Told st

structure CancelInv (st : CancelState) : Prop where
  current : st.currentReq = st.phase.stored
  fresh : st.phase ≠ .idle → st.phase.stored = none → st.accepted = 0
  own : ∀ req, st.phase.stored = some req → st.cancelSent = true → .cancel req ∈ st.sent
  older : ∀ i t, (st.cancellers i).since = some t → t ≤ st.turn
  flagged : st.phase ≠ .idle → ∀ i, (st.cancellers i).since = some st.turn →
    st.asked = true ∧ st.cancelled = true
  readNone : st.phase ≠ .idle → ∀ i, st.cancellers i = .read none (some st.turn) →
    Early st ∨ Told st
  readSome : st.phase ≠ .idle → ∀ i q, st.cancellers i = .read (some q) (some st.turn) →
    st.phase.request = some q
  heard : st.phase ≠ .idle → ∀ r ∈ st.returned, HeardBy st r

/-- Where no cancel has stored the flag in this turn, none is under way in it. -/
theorem CancelInv.nobody {st : CancelState} (hinv : CancelInv st) (hbusy : st.phase ≠ .idle)
    (h : st.asked = false) :
    (∀ i, (st.cancellers i).since ≠ some st.turn) ∧ st.returned = [] := by
  constructor
  · intro i hsince
    have hasked := (hinv.flagged hbusy i hsince).1
    rw [h] at hasked
    cases hasked
  · rw [List.eq_nil_iff_forall_not_mem]
    intro r hr
    have hasked := (hinv.heard hbusy r hr).asked
    rw [h] at hasked
    cases hasked

/-- A step of the working thread into a state in which no cancel is to be heard:
    the turn is over, or none has started in it. -/
theorem CancelInv.unheard {next : CancelState} (hcurrent : next.currentReq = next.phase.stored)
    (hstored : next.phase.stored = none) (hfresh : next.phase ≠ .idle → next.accepted = 0)
    (holder : ∀ i t, (next.cancellers i).since = some t → t ≤ next.turn)
    (hnobody : next.phase ≠ .idle →
      (∀ i, (next.cancellers i).since ≠ some next.turn) ∧ next.returned = []) :
    CancelInv next where
  current := hcurrent
  fresh := fun hbusy _ => hfresh hbusy
  own := by
    intro req hreq
    rw [hstored] at hreq
    cases hreq
  older := holder
  flagged := fun hbusy i hsince => absurd hsince ((hnobody hbusy).1 i)
  readNone := by
    intro hbusy i hread
    refine absurd ?_ ((hnobody hbusy).1 i)
    rw [hread]
    rfl
  readSome := by
    intro hbusy i q hread
    refine absurd ?_ ((hnobody hbusy).1 i)
    rw [hread]
    rfl
  heard := by
    intro hbusy r hr
    rw [(hnobody hbusy).2] at hr
    cases hr

/-- A step of the working thread within the turn that leaves the flag alone. -/
theorem CancelInv.goesOn {st next : CancelState} (hinv : CancelInv st) (hbusy : st.phase ≠ .idle)
    (hturn : next.turn = st.turn) (hcancellers : next.cancellers = st.cancellers)
    (hreturned : next.returned = st.returned) (hflag : next.cancelled = st.cancelled)
    (hasked : next.asked = st.asked) (hcurrent : next.currentReq = next.phase.stored)
    (hfresh : next.phase.stored = none → next.accepted = 0)
    (hown : ∀ req, next.phase.stored = some req → next.cancelSent = true →
      .cancel req ∈ next.sent)
    (hrequest : ∀ q, st.phase.request = some q → next.phase.request = some q)
    (hearly : st.cancelled = true → Early st ∨ Told st → Early next ∨ Told next)
    (hsoon : st.cancelled = true → ∀ n, st.accepted ≤ n + st.phase.slack ∨ Told st →
      next.accepted ≤ n + next.phase.slack ∨ Told next) :
    CancelInv next where
  current := hcurrent
  fresh := fun _ hstored => hfresh hstored
  own := hown
  older := by
    rw [hturn, hcancellers]
    exact hinv.older
  flagged := by
    intro _ i hsince
    rw [hturn, hcancellers] at hsince
    rw [hasked, hflag]
    exact hinv.flagged hbusy i hsince
  readNone := by
    intro _ i hread
    rw [hturn, hcancellers] at hread
    have hsince : (st.cancellers i).since = some st.turn := by rw [hread]; rfl
    exact hearly (hinv.flagged hbusy i hsince).2 (hinv.readNone hbusy i hread)
  readSome := by
    intro _ i q hread
    rw [hturn, hcancellers] at hread
    exact hrequest q (hinv.readSome hbusy i q hread)
  heard := by
    intro _ r hr
    rw [hreturned] at hr
    obtain ⟨hsome, hset, hsoon', hreached⟩ := hinv.heard hbusy r hr
    exact ⟨hasked ▸ hsome, hflag ▸ hset, hsoon hset r.accepted hsoon',
      fun h => hearly hset (hreached h)⟩

/-! ### Each step -/

theorem told_of_request {st : CancelState} {req : Nat} (h : st.phase.request = some req)
    (hsent : .cancel req ∈ st.sent) : Told st := by
  intro q hq
  rw [h] at hq
  cases hq
  exact hsent

@[simp] theorem tell_phase (st : CancelState) (req : Nat) : (tell st req).phase = st.phase := by
  unfold tell; split <;> rfl

@[simp] theorem tell_turn (st : CancelState) (req : Nat) : (tell st req).turn = st.turn := by
  unfold tell; split <;> rfl

@[simp] theorem tell_cancellers (st : CancelState) (req : Nat) :
    (tell st req).cancellers = st.cancellers := by
  unfold tell; split <;> rfl

@[simp] theorem tell_returned (st : CancelState) (req : Nat) :
    (tell st req).returned = st.returned := by
  unfold tell; split <;> rfl

@[simp] theorem tell_cancelled (st : CancelState) (req : Nat) :
    (tell st req).cancelled = st.cancelled := by
  unfold tell; split <;> rfl

@[simp] theorem tell_asked (st : CancelState) (req : Nat) : (tell st req).asked = st.asked := by
  unfold tell; split <;> rfl

@[simp] theorem tell_accepted (st : CancelState) (req : Nat) :
    (tell st req).accepted = st.accepted := by
  unfold tell; split <;> rfl

@[simp] theorem tell_currentReq (st : CancelState) (req : Nat) :
    (tell st req).currentReq = st.currentReq := by
  unfold tell; split <;> rfl

/-- A look at a set flag leaves the request cancelled. -/
theorem tell_sent {st : CancelState} {req : Nat} (h : st.cancelled = true)
    (hown : st.cancelSent = true → .cancel req ∈ st.sent) :
    .cancel req ∈ (tell st req).sent := by
  unfold tell
  split
  · exact List.mem_append_right _ List.mem_cons_self
  · rename_i hnot
    apply hown
    cases hsent : st.cancelSent with
    | true => rfl
    | false => exact absurd ⟨hsent, h⟩ hnot

theorem tell_own {st : CancelState} {req : Nat}
    (hown : st.cancelSent = true → .cancel req ∈ st.sent)
    (h : (tell st req).cancelSent = true) : .cancel req ∈ (tell st req).sent := by
  unfold tell at h ⊢
  split
  · exact List.mem_append_right _ List.mem_cons_self
  · rename_i hnot
    rw [if_neg hnot] at h
    exact hown h

/-- A look at the flag, from the top of the loop or from a quiet slice. -/
theorem look_inv {st : CancelState} (hinv : CancelInv st) {req : Nat}
    (hphase : st.phase = .looking req ∨ st.phase = .waiting req) :
    CancelInv { tell st req with phase := .waiting req } := by
  have hstored : st.phase.stored = some req := by rcases hphase with h | h <;> rw [h] <;> rfl
  have hrequest : st.phase.request = some req := by rcases hphase with h | h <;> rw [h] <;> rfl
  have hbusy : st.phase ≠ .idle := by rcases hphase with h | h <;> rw [h] <;> simp
  have hown := hinv.own req hstored
  have htold : st.cancelled = true → Told { tell st req with phase := .waiting req } :=
    fun hset => told_of_request rfl (tell_sent hset hown)
  apply hinv.goesOn hbusy
  · exact tell_turn st req
  · exact tell_cancellers st req
  · exact tell_returned st req
  · exact tell_cancelled st req
  · exact tell_asked st req
  · rw [tell_currentReq, hinv.current, hstored]
    rfl
  · intro hnone
    cases hnone
  · intro q hq hsent
    cases hq
    exact tell_own hown hsent
  · intro q hq
    rw [hrequest] at hq
    exact hq
  · exact fun hset _ => Or.inr (htold hset)
  · exact fun hset _ _ => Or.inr (htold hset)

/-- Up to the event loop the first look is still to come. -/
theorem approach_inv {st : CancelState} (hinv : CancelInv st) (hbusy : st.phase ≠ .idle)
    (hstored : st.phase.stored = none) {phase : Phase} {currentReq : Option Nat} {cancelSent : Bool}
    {nextReq : Nat} {sent : List ToBackend} (hwaited : phase.waited = false)
    (hslack : phase.slack = 1) (hcurrent : currentReq = phase.stored)
    (hown : ∀ req, phase.stored = some req → cancelSent = false)
    (hrequest : ∀ q, st.phase.request = some q → phase.request = some q) :
    CancelInv { st with
      phase := phase
      currentReq := currentReq
      cancelSent := cancelSent
      nextReq := nextReq
      sent := sent } := by
  have hzero : st.accepted = 0 := hinv.fresh hbusy hstored
  refine hinv.goesOn hbusy ?_ ?_ ?_ ?_ ?_ hcurrent (fun _ => hzero) ?_ hrequest ?_ ?_
  · rfl
  · rfl
  · rfl
  · rfl
  · rfl
  · intro req hreq hsent
    rw [show cancelSent = true from hsent] at hown
    exact absurd (hown req hreq) (by simp)
  · exact fun _ _ => Or.inl ⟨hwaited, hzero⟩
  · intro _ n _
    apply Or.inl
    simp only [hzero, hslack]
    exact Nat.zero_le _

/-- A step before the request is sent: the turn is over or goes on. -/
theorem guard_inv {st : CancelState} (hinv : CancelInv st) (hbusy : st.phase ≠ .idle)
    (hnone : st.phase.request = none) (passed : Bool) {phase : Phase}
    (hstored : phase.stored = none) (hwaited : phase.waited = false) (hslack : phase.slack = 1) :
    CancelInv { st with phase := if passed then phase else .idle } := by
  have hunsent : st.phase.stored = none := by
    cases hphase : st.phase <;> rw [hphase] at hnone <;> first | rfl | cases hnone
  have hcurrent : st.currentReq = none := hinv.current.trans hunsent
  cases passed with
  | true =>
    apply approach_inv hinv hbusy hunsent hwaited hslack (hcurrent.trans hstored.symm)
    · intro req hreq
      rw [hstored] at hreq
      cases hreq
    · intro q hq
      rw [hnone] at hq
      cases hq
  | false =>
    exact CancelInv.unheard hcurrent rfl (fun hbusy => absurd rfl hbusy) hinv.older
      (fun hbusy => absurd rfl hbusy)

/-- The turn accepts an event: one more, and a look at the flag before the next. -/
theorem event_inv {st : CancelState} (hinv : CancelInv st) {req : Nat}
    (hphase : st.phase = .waiting req) {next : CancelState} (hturn : next.turn = st.turn)
    (hcancellers : next.cancellers = st.cancellers) (hreturned : next.returned = st.returned)
    (hflag : next.cancelled = st.cancelled) (hasked : next.asked = st.asked)
    (hsent : ∀ m ∈ st.sent, m ∈ next.sent)
    (haccepted : next.accepted ≤ st.accepted + 1) (hcancelSent : next.cancelSent = st.cancelSent)
    (hcurrent : next.currentReq = st.currentReq)
    (hnext : next.phase = .looking req ∨ next.phase = .finishing req) : CancelInv next := by
  have hstored : next.phase.stored = some req := by rcases hnext with h | h <;> rw [h] <;> rfl
  have hrequest : next.phase.request = some req := by rcases hnext with h | h <;> rw [h] <;> rfl
  have hslack : next.phase.slack = 1 := by rcases hnext with h | h <;> rw [h] <;> rfl
  have hbusy : st.phase ≠ .idle := by rw [hphase]; simp
  have htold : Told st → Told next := fun h =>
    told_of_request hrequest (hsent _ (h req (by rw [hphase]; rfl)))
  apply hinv.goesOn hbusy hturn hcancellers hreturned hflag hasked
  · rw [hcurrent, hinv.current, hphase, hstored]
    rfl
  · intro hnone
    rw [hstored] at hnone
    cases hnone
  · intro q hq hset
    rw [hstored] at hq
    cases hq
    rw [hcancelSent] at hset
    exact hsent _ (hinv.own req (by rw [hphase]; rfl) hset)
  · intro q hq
    rw [hphase] at hq
    rw [hrequest]
    exact hq
  · rintro - (⟨hwaited, -⟩ | h)
    · rw [hphase] at hwaited
      cases hwaited
    · exact Or.inr (htold h)
  · rintro - n (hn | h)
    · left
      rw [hphase] at hn
      simp only [Phase.slack, Nat.add_zero] at hn
      rw [hslack]
      omega
    · exact Or.inr (htold h)

theorem finish_inv {st : CancelState} (hinv : CancelInv st) {req : Nat}
    (hphase : st.phase = .finishing req) : CancelInv { st with phase := .clearing req } := by
  have htold : Told st → Told { st with phase := .clearing req } := fun h =>
    told_of_request rfl (h req (by rw [hphase]; rfl))
  have hbusy : st.phase ≠ .idle := by rw [hphase]; simp
  apply hinv.goesOn hbusy
  · rfl
  · rfl
  · rfl
  · rfl
  · rfl
  · rw [hinv.current, hphase]
    rfl
  · intro hnone
    cases hnone
  · intro q hq hset
    cases hq
    exact hinv.own req (by rw [hphase]; rfl) hset
  · intro q hq
    rw [hphase] at hq
    exact hq
  · rintro - (⟨hwaited, -⟩ | h)
    · rw [hphase] at hwaited
      cases hwaited
    · exact Or.inr (htold h)
  · rintro - n (hn | h)
    · left
      rw [hphase] at hn
      exact hn
    · exact Or.inr (htold h)

theorem since_update {st : CancelState} {caller : Nat} {next : Canceller} {i t : Nat}
    (h : ((setCanceller st caller next).cancellers i).since = some t) :
    (i = caller ∧ next.since = some t) ∨ (st.cancellers i).since = some t := by
  by_cases hi : i = caller
  · subst hi
    simp only [setCanceller, Function.update_self] at h
    exact Or.inl ⟨rfl, h⟩
  · simp only [setCanceller, Function.update_of_ne hi] at h
    exact Or.inr h

theorem read_update {st : CancelState} {caller : Nat} {next : Canceller} {i : Nat}
    {req since : Option Nat} (h : (setCanceller st caller next).cancellers i = .read req since) :
    (i = caller ∧ next = .read req since) ∨ st.cancellers i = .read req since := by
  by_cases hi : i = caller
  · subst hi
    simp only [setCanceller, Function.update_self] at h
    exact Or.inl ⟨rfl, h⟩
  · simp only [setCanceller, Function.update_of_ne hi] at h
    exact Or.inr h

theorem cancelStore_inv {st : CancelState} (hinv : CancelInv st) (caller : Nat) :
    CancelInv { setCanceller st caller (.stored (if st.phase = .idle then none else some st.turn))
      with cancelled := true, asked := true } where
  current := hinv.current
  fresh := hinv.fresh
  own := hinv.own
  older := by
    intro i t hsince
    rcases since_update hsince with ⟨-, hnew⟩ | hold
    · simp only [Canceller.since] at hnew
      split at hnew
      · cases hnew
      · cases hnew
        exact Nat.le_refl _
    · exact hinv.older i t hold
  flagged := fun _ _ _ => ⟨rfl, rfl⟩
  readNone := by
    intro hbusy i hread
    rcases read_update hread with ⟨-, hnew⟩ | hold
    · cases hnew
    · exact hinv.readNone hbusy i hold
  readSome := by
    intro hbusy i q hread
    rcases read_update hread with ⟨-, hnew⟩ | hold
    · cases hnew
    · exact hinv.readSome hbusy i q hold
  heard := by
    intro hbusy r hr
    obtain ⟨-, -, hsoon, hreached⟩ := hinv.heard hbusy r hr
    exact ⟨rfl, rfl, hsoon, hreached⟩

theorem cancelRead_inv {st : CancelState} (hinv : CancelInv st) {caller : Nat}
    {since : Option Nat} (hcaller : st.cancellers caller = .stored since) :
    CancelInv (setCanceller st caller (.read st.currentReq since)) where
  current := hinv.current
  fresh := hinv.fresh
  own := hinv.own
  older := by
    intro i t hsince
    rcases since_update hsince with ⟨-, hnew⟩ | hold
    · exact hinv.older caller t (by rw [hcaller]; exact hnew)
    · exact hinv.older i t hold
  flagged := by
    intro hbusy i hsince
    rcases since_update hsince with ⟨-, hnew⟩ | hold
    · exact hinv.flagged hbusy caller (by rw [hcaller]; exact hnew)
    · exact hinv.flagged hbusy i hold
  readNone := by
    intro hbusy i hread
    rcases read_update hread with ⟨-, hnew⟩ | hold
    · -- nothing is stored yet, so the event loop is still ahead
      have hnone : st.phase.stored = none := by
        rw [← hinv.current]
        exact (Canceller.read.inj hnew).1
      refine Or.inl ⟨?_, hinv.fresh hbusy hnone⟩
      show st.phase.waited = false
      cases hphase : st.phase <;> rw [hphase] at hnone <;> first | rfl | cases hnone
    · exact hinv.readNone hbusy i hold
  readSome := by
    intro hbusy i q hread
    rcases read_update hread with ⟨-, hnew⟩ | hold
    · have hstored : st.phase.stored = some q := by
        rw [← hinv.current]
        exact (Canceller.read.inj hnew).1
      show st.phase.request = some q
      cases hphase : st.phase <;> rw [hphase] at hstored <;> first | exact hstored | cases hstored
    · exact hinv.readSome hbusy i q hold
  heard := by
    intro hbusy r hr
    obtain ⟨hasked, hset, hsoon, hreached⟩ := hinv.heard hbusy r hr
    exact ⟨hasked, hset, hsoon, hreached⟩

/-- Another message to the backend changes nothing that was heard. -/
theorem CancelInv.sends {st : CancelState} (hinv : CancelInv st) (msg : ToBackend) :
    CancelInv { st with sent := st.sent ++ [msg] } where
  current := hinv.current
  fresh := hinv.fresh
  own := fun req hreq hset => List.mem_append_left _ (hinv.own req hreq hset)
  older := hinv.older
  flagged := hinv.flagged
  readNone := fun hbusy i hread => (hinv.readNone hbusy i hread).imp_right fun htold req hreq =>
    List.mem_append_left _ (htold req hreq)
  readSome := hinv.readSome
  heard := by
    intro hbusy r hr
    obtain ⟨hasked, hset, hsoon, hreached⟩ := hinv.heard hbusy r hr
    have hmore : Told st → Told { st with sent := st.sent ++ [msg] } := fun htold req hreq =>
      List.mem_append_left _ (htold req hreq)
    exact ⟨hasked, hset, hsoon.imp_right hmore, fun h => (hreached h).imp_right hmore⟩

theorem giveBack_inv {st : CancelState} (hinv : CancelInv st) {caller : Nat}
    {req since : Option Nat} (hcaller : st.cancellers caller = .read req since) {reached : Bool}
    (hheard : st.phase ≠ .idle → since = some st.turn → reached = true → Early st ∨ Told st) :
    CancelInv (giveBack st caller since reached) := by
  have hidle : CancelInv (setCanceller st caller .idle) := by
    refine ⟨hinv.current, hinv.fresh, hinv.own, ?_, ?_, ?_, ?_, ?_⟩
    · intro i t hsince
      rcases since_update hsince with ⟨-, hnew⟩ | hold
      · cases hnew
      · exact hinv.older i t hold
    · intro hbusy i hsince
      rcases since_update hsince with ⟨-, hnew⟩ | hold
      · cases hnew
      · exact hinv.flagged hbusy i hold
    · intro hbusy i hread
      rcases read_update hread with ⟨-, hnew⟩ | hold
      · cases hnew
      · exact hinv.readNone hbusy i hold
    · intro hbusy i q hread
      rcases read_update hread with ⟨-, hnew⟩ | hold
      · cases hnew
      · exact hinv.readSome hbusy i q hold
    · intro hbusy r hr
      obtain ⟨hasked, hset, hsoon, hreached⟩ := hinv.heard hbusy r hr
      exact ⟨hasked, hset, hsoon, hreached⟩
  unfold giveBack
  dsimp only
  split
  · rename_i hwithin
    obtain ⟨hbusy, hsince⟩ := hwithin
    have hflagged := hinv.flagged hbusy caller (by rw [hcaller]; exact hsince)
    refine ⟨hidle.current, hidle.fresh, hidle.own, hidle.older, hidle.flagged, hidle.readNone,
      hidle.readSome, ?_⟩
    intro _ r hr
    rcases List.mem_append.mp hr with hr | hr
    · obtain ⟨hasked, hset, hsoon, hreached⟩ := hidle.heard hbusy r hr
      exact ⟨hasked, hset, hsoon, hreached⟩
    · rw [List.mem_singleton.mp hr]
      exact ⟨hflagged.1, hflagged.2, Or.inl (Nat.le_add_right _ _), hheard hbusy hsince⟩
  · exact hidle

theorem cancelSend_inv {st : CancelState} (hinv : CancelInv st) {caller req : Nat}
    {since : Option Nat} (hcaller : st.cancellers caller = .read (some req) since) (found : Bool) :
    CancelInv (giveBack (if found then { st with sent := st.sent ++ [.cancel req] } else st)
      caller since found) := by
  cases found with
  | true =>
    refine giveBack_inv (hinv.sends (.cancel req)) hcaller ?_
    intro hbusy hsince _
    have hrequest := hinv.readSome hbusy caller req (by rw [hcaller, hsince])
    exact Or.inr (told_of_request hrequest (List.mem_append_right _ List.mem_cons_self))
  | false =>
    refine giveBack_inv hinv hcaller ?_
    intro _ _ hfalse
    cases hfalse

/-! ### Whole interleavings -/

theorem receive_inv {st : CancelState} (hinv : CancelInv st) (hphase : st.phase = .idle) :
    CancelInv { st with
      phase := .checking, turn := st.turn + 1, asked := false, accepted := 0, returned := [] } := by
  apply CancelInv.unheard
  · rw [hinv.current, hphase]
    rfl
  · rfl
  · exact fun _ => rfl
  · exact fun i t hsince => Nat.le_succ_of_le (hinv.older i t hsince)
  · refine fun _ => ⟨?_, rfl⟩
    intro i hsince
    exact absurd (hinv.older i _ hsince) (Nat.not_succ_le_self _)

/-- The flag is lowered while no cancel is under way in the turn. -/
theorem reset_inv {st : CancelState} (hinv : CancelInv st) (hphase : st.phase = .resetting)
    (hkept : NothingErased st .reset) :
    CancelInv { st with phase := .admitting, cancelled := false } := by
  have hbusy : st.phase ≠ .idle := by rw [hphase]; simp
  have hstored : st.phase.stored = none := by rw [hphase]; rfl
  apply CancelInv.unheard
  · exact hinv.current.trans hstored
  · rfl
  · exact fun _ => hinv.fresh hbusy hstored
  · exact hinv.older
  · exact fun _ => hinv.nobody hbusy hkept

theorem begin_inv {st : CancelState} (hinv : CancelInv st) (hphase : st.phase = .beginning) :
    CancelInv { st with
      nextReq := st.nextReq + 1
      phase := .attaching st.nextReq
      sent := st.sent ++ [.generate st.nextReq] } := by
  have hbusy : st.phase ≠ .idle := by rw [hphase]; simp
  have hstored : st.phase.stored = none := by rw [hphase]; rfl
  refine approach_inv hinv hbusy hstored rfl rfl ?_ ?_ ?_
  · exact hinv.current.trans hstored
  · intro req hreq
    cases hreq
  · intro q hq
    rw [hphase] at hq
    cases hq

theorem attach_inv {st : CancelState} (hinv : CancelInv st) {req : Nat}
    (hphase : st.phase = .attaching req) : CancelInv { st with phase := .storing req } := by
  have hbusy : st.phase ≠ .idle := by rw [hphase]; simp
  have hstored : st.phase.stored = none := by rw [hphase]; rfl
  refine approach_inv hinv hbusy hstored rfl rfl ?_ ?_ ?_
  · exact hinv.current.trans hstored
  · intro req hreq
    cases hreq
  · intro q hq
    rw [hphase] at hq
    exact hq

theorem store_inv {st : CancelState} (hinv : CancelInv st) {req : Nat}
    (hphase : st.phase = .storing req) :
    CancelInv { st with phase := .looking req, currentReq := some req, cancelSent := false } := by
  have hbusy : st.phase ≠ .idle := by rw [hphase]; simp
  have hstored : st.phase.stored = none := by rw [hphase]; rfl
  refine approach_inv hinv hbusy hstored rfl rfl rfl ?_ ?_
  · exact fun _ _ => rfl
  · intro q hq
    rw [hphase] at hq
    exact hq

/-- A turn that is over is heard of no more. -/
theorem idle_inv {st : CancelState} (hinv : CancelInv st) {nextReq : Nat} :
    CancelInv { st with phase := .idle, currentReq := none, nextReq := nextReq } := by
  apply CancelInv.unheard
  · rfl
  · rfl
  · exact fun hbusy => absurd rfl hbusy
  · exact hinv.older
  · exact fun hbusy => absurd rfl hbusy

theorem cancelStep_inv {st next : CancelState} {a : Step} (hinv : CancelInv st)
    (hkept : NothingErased st a) (h : cancelStep st a = some next) : CancelInv next := by
  cases a with
  | receive =>
    simp only [cancelStep] at h
    split at h
    · rename_i hphase
      cases h
      exact receive_inv hinv hphase
    · cases h
  | check passed =>
    simp only [cancelStep] at h
    split at h
    · rename_i hphase
      cases h
      exact guard_inv hinv (by rw [hphase]; simp) (by rw [hphase]; rfl) passed rfl rfl rfl
    · cases h
  | load loaded =>
    simp only [cancelStep] at h
    split at h
    · rename_i hphase
      cases h
      exact guard_inv hinv (by rw [hphase]; simp) (by rw [hphase]; rfl) loaded rfl rfl rfl
    · cases h
  | reserve granted =>
    simp only [cancelStep] at h
    split at h
    · rename_i hphase
      cases h
      exact guard_inv hinv (by rw [hphase]; simp) (by rw [hphase]; rfl) granted rfl rfl rfl
    · cases h
  | reset =>
    simp only [cancelStep] at h
    split at h
    · rename_i hphase
      cases h
      exact reset_inv hinv hphase hkept
    · cases h
  | admitted =>
    simp only [cancelStep] at h
    split at h
    · rename_i hphase
      cases h
      exact guard_inv hinv (by rw [hphase]; simp) (by rw [hphase]; rfl) true rfl rfl rfl
    · cases h
  | begin sent =>
    simp only [cancelStep] at h
    split at h
    · rename_i hphase
      cases sent with
      | true =>
        cases h
        exact begin_inv hinv hphase
      | false =>
        cases h
        have hcurrent : st.currentReq = none := by
          rw [hinv.current, hphase]
          rfl
        rw [hcurrent]
        exact idle_inv hinv
    · cases h
  | attach =>
    simp only [cancelStep] at h
    split at h
    · rename_i req hphase
      cases h
      exact attach_inv hinv hphase
    · cases h
  | store =>
    simp only [cancelStep] at h
    split at h
    · rename_i req hphase
      cases h
      exact store_inv hinv hphase
    · cases h
  | look =>
    simp only [cancelStep] at h
    split at h
    · rename_i req hphase
      cases h
      exact look_inv hinv (Or.inl hphase)
    · cases h
  | quiet =>
    simp only [cancelStep] at h
    split at h
    · rename_i req hphase
      cases h
      have hsame : tell st req = { tell st req with phase := .waiting req } := by
        rw [← hphase, ← tell_phase st req]
      rw [hsame]
      exact look_inv hinv (Or.inr hphase)
    · cases h
  | event outcome =>
    simp only [cancelStep] at h
    split at h
    · rename_i req hphase
      cases outcome with
      | goesOn =>
        cases h
        exact event_inv hinv hphase rfl rfl rfl rfl rfl (fun _ hm => hm) (Nat.le_refl _) rfl rfl
          (Or.inl rfl)
      | ends =>
        cases h
        exact event_inv hinv hphase rfl rfl rfl rfl rfl (fun _ hm => hm) (Nat.le_refl _) rfl rfl
          (Or.inr rfl)
      | clientGone =>
        cases h
        exact event_inv hinv hphase rfl rfl rfl rfl rfl (fun _ hm => List.mem_append_left _ hm)
          (Nat.le_refl _) rfl rfl (Or.inr rfl)
    · cases h
  | stall =>
    simp only [cancelStep] at h
    split at h
    · rename_i req hphase
      cases h
      exact event_inv hinv hphase rfl rfl rfl rfl rfl (fun _ hm => hm) (Nat.le_succ _) rfl rfl
        (Or.inr rfl)
    · cases h
  | finish =>
    simp only [cancelStep] at h
    split at h
    · rename_i req hphase
      cases h
      exact finish_inv hinv hphase
    · cases h
  | clear =>
    simp only [cancelStep] at h
    split at h
    · cases h
      exact idle_inv hinv
    · cases h
  | cancelStore caller =>
    simp only [cancelStep] at h
    split at h
    · cases h
      exact cancelStore_inv hinv caller
    · cases h
  | cancelRead caller =>
    simp only [cancelStep] at h
    split at h
    · rename_i since hcaller
      cases h
      exact cancelRead_inv hinv hcaller
    · cases h
  | cancelSend caller found =>
    simp only [cancelStep] at h
    split at h
    · rename_i since hcaller
      cases h
      exact giveBack_inv hinv hcaller fun hbusy hsince _ =>
        hinv.readNone hbusy caller (by rw [hcaller, hsince])
    · rename_i req since hcaller
      cases h
      exact cancelSend_inv hinv hcaller found
    · cases h

theorem new_cancelInv : CancelInv CancelState.new := by
  refine CancelInv.unheard rfl rfl (fun hbusy => absurd rfl hbusy) ?_
    (fun hbusy => absurd rfl hbusy)
  intro i t hsince
  cases hsince

theorem CancelInv.cancelHeard {st : CancelState} (hinv : CancelInv st) : CancelHeard st := by
  intro r hr req hreq
  have hbusy : st.phase ≠ .idle := by
    intro hidle
    rw [hidle] at hreq
    cases hreq
  obtain ⟨-, -, hsoon, hreached⟩ := hinv.heard hbusy r hr
  constructor
  · refine hsoon.imp (fun h => ?_) fun htold => htold req hreq
    have hslack : st.phase.slack ≤ 1 := by cases st.phase <;> simp [Phase.slack]
    omega
  · intro hfound hleft
    rcases hreached hfound with ⟨hwaited, -⟩ | htold
    · rw [Phase.waited_of_leftLoop hleft] at hwaited
      cases hwaited
    · exact htold req hreq

/-- In every interleaving in which no reset erases a cancel of its own turn, a
    cancel that runs within a turn is heard by it. -/
theorem cancel_heard_unless_erased (steps : List Step) (st : CancelState)
    (hrun : runs cancelStep CancelState.new steps = some st)
    (hkept : along cancelStep NothingErased CancelState.new steps) : CancelHeard st :=
  (runs_invariant_along cancelStep (P := CancelInv) (C := NothingErased)
    (fun _ _ _ => cancelStep_inv) new_cancelInv hkept hrun).cancelHeard

/-- A cancel between the reset and the event loop, and the turn up to its second
    event. -/
def cancelWhileBeginning : List Step :=
  [.receive, .check true, .load true, .reserve true, .reset, .admitted, .begin true,
    .cancelStore 0, .cancelRead 0, .cancelSend 0 true, .attach, .store, .look, .event .goesOn,
    .look, .event .goesOn]

theorem cancel_heard_while_beginning :
    ∃ st, runs cancelStep CancelState.new cancelWhileBeginning = some st ∧
      st.returned = [⟨0, true⟩] ∧ st.accepted = 2 ∧ CancelHeard st := by
  refine ⟨_, rfl, rfl, rfl, ?_⟩
  exact cancel_heard_unless_erased cancelWhileBeginning _ rfl (by decide)

/-- A cancel before the reset, and a whole turn after it. -/
def cancelWhileLoading : List Step :=
  [.receive, .check true, .cancelStore 0, .cancelRead 0, .cancelSend 0 true, .load true,
    .reserve true, .reset, .admitted, .begin true, .attach, .store, .look, .event .goesOn, .look,
    .event .goesOn, .look, .event .ends]

/-- The flag is set while the model loads, and reset before the turn first looks
    at it: the turn runs to its end as if nobody had cancelled it. -/
theorem cancel_before_reset :
    ¬ ∀ (steps : List Step) (st : CancelState),
      runs cancelStep CancelState.new steps = some st → CancelHeard st := by
  intro hall
  have hheard := hall cancelWhileLoading _ rfl ⟨0, true⟩ List.mem_cons_self 1 rfl
  revert hheard
  decide

end AiDaemon.Cancel
