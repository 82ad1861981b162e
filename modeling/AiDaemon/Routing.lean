import AiDaemon.Ledger
import AiDaemon.Proto
import AiDaemon.Transition
import Mathlib.Logic.Function.Basic

/-!
# Routing backend events (`backend.rs`: `begin`, `finish`, `reader_loop`)

Many sessions share one backend.  `begin` takes the next request id, puts the
sending half of a new channel into the in-flight map under it and writes the
request; one reader loop takes events off the backend's socket, looks their
request up in the map and sends them down its channel.  When the socket ends the
loop marks the backend as gone and clears the map.

The steps here are the regions between which other threads can run: the fetch of
the id, the insertion, the reading of `alive`, the write and, in the reader, the
lookup and the send, and at its end the store of `alive` and the clearing.  A
call of `begin` is named by its number, which is also the name of its channel.

Ids are counted in 64 bits, so the 2^64-th call after a call gets the same one
again (`request_id_reused`).  Up to there routing is exact and nothing is left
waiting (`routing_exact`).
-/

namespace AiDaemon.Routing

open Ledger Proto Transition

variable {F : Type}

/-! ### The source -/

/-- The request an event belongs to; none for the answer to a control
    operation. -/
def routed : BackendEvent F → Option UInt64
  | .token reqId _ _ | .toolCall reqId _ | .toolCalls reqId _ | .media reqId _ _ _ _ _ _
  | .vectors reqId _ | .tokens reqId _ | .done reqId _ _ => some reqId
  | .error reqId _ _ => reqId
  | .hello _ _ | .loaded _ _ _ | .unloaded _ => none

/-- Where a call of `begin` stands, and the session after it. `refused` still
    has its entry to remove; `failed` has returned the error. -/
inductive Call where
  | unborn
  | fetched
  | inserted
  | checked
  | refused (reason : Text)
  | failed (reason : Text)
  | returned
  | finished
deriving DecidableEq, Repr

namespace Call

/-- It has put its channel into the map and not taken it out. -/
def listed : Call → Bool
  | inserted | checked | refused _ | returned => true
  | unborn | fetched | failed _ | finished => false

/-- The backend may have its request. -/
def written : Call → Bool
  | refused _ | failed _ | returned | finished => true
  | unborn | fetched | inserted | checked => false

/-- It has found the backend alive, so it may return its receiver. -/
def accepted : Call → Bool
  | checked | returned | finished => true
  | unborn | fetched | inserted | refused _ | failed _ => false

/-- It has not run into an error. -/
def sound : Call → Bool
  | refused _ | failed _ => false
  | unborn | fetched | inserted | checked | returned | finished => true

end Call

inductive Reader (F : Type) where
  | reading
  | looking (event : BackendEvent F)
  | sending (event : BackendEvent F) (channel : Nat)
  | clearing
  | exited

/-- The loop has not ended. -/
def Reader.running : Reader F → Bool
  | reading | looking _ | sending _ _ => true
  | clearing | exited => false

structure RouteState (F : Type) where
  nextReq : UInt64
  inflight : Table UInt64 Nat
  alive : Bool
  reader : Reader F
  /-- How many calls of `begin` there have been. -/
  begun : Nat
  calls : Nat → Call
  /-- The id each call has fetched. -/
  reqIds : Nat → UInt64
  /-- What has been sent down each channel, oldest first. -/
  queues : Nat → List (BackendEvent F)
  control : List (BackendEvent F)
  /-- The requests the backend may have received. -/
  sent : List UInt64
  /-- Every event that was looked up, in the order the backend sent them. -/
  looked : List (BackendEvent F)
  /-- How many of them were looked up before a call's `finish`. -/
  finishedAt : Nat → Option Nat

def RouteState.new : RouteState F where
  nextReq := 1
  inflight := ∅
  alive := true
  reader := .reading
  begun := 0
  calls := fun _ => .unborn
  reqIds := fun _ => 0
  queues := fun _ => []
  control := []
  sent := []
  looked := []
  finishedAt := fun _ => none

inductive Step (F : Type) where
  | fetch
  | insert (call : Nat)
  | check (call : Nat)
  | write (call : Nat) (result : Except Text Unit)
  | remove (call : Nat)
  | finish (call : Nat)
  | read (event : BackendEvent F)
  | look
  | send
  | hangUp
  | clear

def notRunningText (name : Text) : Text := "backend ".toList ++ name ++ " is not running".toList

def writingText (name e : Text) : Text :=
  "writing to backend ".toList ++ name ++ ": ".toList ++ e

/-- The backend has the request the event is about. -/
def heardOf (st : RouteState F) (event : BackendEvent F) : Bool :=
  (routed event).all fun reqId => st.sent.contains reqId

def setCall (st : RouteState F) (call : Nat) (next : Call) : RouteState F :=
  { st with calls := Function.update st.calls call next }

def routeStep (name : Text) (st : RouteState F) : Step F → Option (RouteState F)
  | .fetch =>
    some { setCall st st.begun .fetched with
      nextReq := st.nextReq + 1
      begun := st.begun + 1
      reqIds := Function.update st.reqIds st.begun st.nextReq }
  | .insert call =>
    match st.calls call with
    | .fetched =>
      some { setCall st call .inserted with inflight := st.inflight.insert (st.reqIds call) call }
    | _ => none
  | .check call =>
    match st.calls call with
    | .inserted =>
      some (setCall st call (if st.alive then .checked else .refused (notRunningText name)))
    | _ => none
  | .write call result =>
    match st.calls call with
    | .checked =>
      -- a write that fails may have reached the backend all the same
      let next := { st with sent := st.reqIds call :: st.sent }
      match result with
      | .ok () => some (setCall next call .returned)
      | .error e => some (setCall next call (.refused (writingText name e)))
    | _ => none
  | .remove call =>
    match st.calls call with
    | .refused reason =>
      some { setCall st call (.failed reason) with inflight := st.inflight.erase (st.reqIds call) }
    | _ => none
  | .finish call =>
    match st.calls call with
    | .returned =>
      some { setCall st call .finished with
        inflight := st.inflight.erase (st.reqIds call)
        finishedAt := Function.update st.finishedAt call (some st.looked.length) }
    | _ => none
  | .read event =>
    match st.reader with
    | .reading =>
      -- the backend speaks about a request only once it has it
      if heardOf st event then some { st with reader := .looking event } else none
    | _ => none
  | .look =>
    match st.reader with
    | .looking event =>
      let next := { st with looked := st.looked ++ [event] }
      match routed event with
      | some reqId =>
        match st.inflight.lookup reqId with
        | some channel => some { next with reader := .sending event channel }
        | none => some { next with reader := .reading }
      | none => some { next with reader := .reading, control := st.control ++ [event] }
    | _ => none
  | .send =>
    match st.reader with
    | .sending event channel =>
      some { st with
        reader := .reading
        queues := Function.update st.queues channel (st.queues channel ++ [event]) }
    | _ => none
  | .hangUp =>
    match st.reader with
    | .reading => some { st with reader := .clearing, alive := false }
    | _ => none
  | .clear =>
    match st.reader with
    | .clearing => some { st with reader := .exited, inflight := ∅ }
    | _ => none

/-- What an enabled step finds and leaves. -/
inductive Stepped (name : Text) (st : RouteState F) : RouteState F → Prop where
  | fetch : Stepped name st { setCall st st.begun .fetched with
      nextReq := st.nextReq + 1
      begun := st.begun + 1
      reqIds := Function.update st.reqIds st.begun st.nextReq }
  | insert (call : Nat) (hcall : st.calls call = .fetched) : Stepped name st
      { setCall st call .inserted with inflight := st.inflight.insert (st.reqIds call) call }
  | accept (call : Nat) (hcall : st.calls call = .inserted) (halive : st.alive = true) :
      Stepped name st (setCall st call .checked)
  | refuse (call : Nat) (hcall : st.calls call = .inserted) (halive : st.alive = false) :
      Stepped name st (setCall st call (.refused (notRunningText name)))
  | write (call : Nat) (hcall : st.calls call = .checked) : Stepped name st
      (setCall { st with sent := st.reqIds call :: st.sent } call .returned)
  | unwritten (call : Nat) (e : Text) (hcall : st.calls call = .checked) : Stepped name st
      (setCall { st with sent := st.reqIds call :: st.sent } call (.refused (writingText name e)))
  | remove (call : Nat) (reason : Text) (hcall : st.calls call = .refused reason) :
      Stepped name st { setCall st call (.failed reason) with
        inflight := st.inflight.erase (st.reqIds call) }
  | finish (call : Nat) (hcall : st.calls call = .returned) :
      Stepped name st { setCall st call .finished with
        inflight := st.inflight.erase (st.reqIds call)
        finishedAt := Function.update st.finishedAt call (some st.looked.length) }
  | read (event : BackendEvent F) (hreader : st.reader = .reading)
      (hsent : ∀ reqId ∈ routed event, reqId ∈ st.sent) :
      Stepped name st { st with reader := .looking event }
  | found (event : BackendEvent F) (reqId : UInt64) (channel : Nat)
      (hreader : st.reader = .looking event) (hrouted : routed event = some reqId)
      (hlookup : st.inflight.lookup reqId = some channel) :
      Stepped name st
        { st with looked := st.looked ++ [event], reader := .sending event channel }
  | unknown (event : BackendEvent F) (reqId : UInt64) (hreader : st.reader = .looking event)
      (hrouted : routed event = some reqId) (hlookup : st.inflight.lookup reqId = none) :
      Stepped name st { st with looked := st.looked ++ [event], reader := .reading }
  | answer (event : BackendEvent F) (hreader : st.reader = .looking event)
      (hrouted : routed event = none) :
      Stepped name st { st with
        looked := st.looked ++ [event]
        reader := .reading
        control := st.control ++ [event] }
  | send (event : BackendEvent F) (channel : Nat) (hreader : st.reader = .sending event channel) :
      Stepped name st { st with
        reader := .reading
        queues := Function.update st.queues channel (st.queues channel ++ [event]) }
  | hangUp (hreader : st.reader = .reading) :
      Stepped name st { st with reader := .clearing, alive := false }
  | clear (hreader : st.reader = .clearing) :
      Stepped name st { st with reader := .exited, inflight := ∅ }

theorem stepped_of_routeStep {name : Text} {st next : RouteState F} {a : Step F}
    (hstep : routeStep name st a = some next) : Stepped name st next := by
  cases a with
  | fetch =>
    simp only [routeStep, Option.some.injEq] at hstep
    exact hstep ▸ .fetch
  | insert call =>
    simp only [routeStep] at hstep
    split at hstep <;> simp only [Option.some.injEq, reduceCtorEq] at hstep
    rename_i hcall
    exact hstep ▸ .insert call hcall
  | check call =>
    simp only [routeStep] at hstep
    split at hstep <;> simp only [Option.some.injEq, reduceCtorEq] at hstep
    rename_i hcall
    cases halive : st.alive with
    | true =>
      rw [halive, if_pos rfl] at hstep
      exact hstep ▸ .accept call hcall halive
    | false =>
      rw [halive, if_neg Bool.false_ne_true] at hstep
      exact hstep ▸ .refuse call hcall halive
  | write call result =>
    simp only [routeStep] at hstep
    split at hstep
    case h_2 => simp at hstep
    rename_i hcall
    cases result with
    | ok =>
      simp only [Option.some.injEq] at hstep
      exact hstep ▸ .write call hcall
    | error e =>
      simp only [Option.some.injEq] at hstep
      exact hstep ▸ .unwritten call e hcall
  | remove call =>
    simp only [routeStep] at hstep
    split at hstep <;> simp only [Option.some.injEq, reduceCtorEq] at hstep
    rename_i reason hcall
    exact hstep ▸ .remove call reason hcall
  | finish call =>
    simp only [routeStep] at hstep
    split at hstep <;> simp only [Option.some.injEq, reduceCtorEq] at hstep
    rename_i hcall
    exact hstep ▸ .finish call hcall
  | read event =>
    simp only [routeStep] at hstep
    split at hstep
    case h_2 => simp at hstep
    rename_i hreader
    split at hstep <;> simp only [Option.some.injEq, reduceCtorEq] at hstep
    rename_i hheard
    refine hstep ▸ .read event hreader fun reqId hrouted => ?_
    rw [Option.mem_def] at hrouted
    simpa [heardOf, hrouted] using hheard
  | look =>
    simp only [routeStep] at hstep
    split at hstep
    case h_2 => simp at hstep
    rename_i event hreader
    cases hrouted : routed event with
    | none =>
      simp only [hrouted, Option.some.injEq] at hstep
      exact hstep ▸ .answer event hreader hrouted
    | some reqId =>
      cases hlookup : st.inflight.lookup reqId with
      | none =>
        simp only [hrouted, hlookup, Option.some.injEq] at hstep
        exact hstep ▸ .unknown event reqId hreader hrouted hlookup
      | some channel =>
        simp only [hrouted, hlookup, Option.some.injEq] at hstep
        exact hstep ▸ .found event reqId channel hreader hrouted hlookup
  | send =>
    simp only [routeStep] at hstep
    split at hstep <;> simp only [Option.some.injEq, reduceCtorEq] at hstep
    rename_i event channel hreader
    exact hstep ▸ .send event channel hreader
  | hangUp =>
    simp only [routeStep] at hstep
    split at hstep <;> simp only [Option.some.injEq, reduceCtorEq] at hstep
    rename_i hreader
    exact hstep ▸ .hangUp hreader
  | clear =>
    simp only [routeStep] at hstep
    split at hstep <;> simp only [Option.some.injEq, reduceCtorEq] at hstep
    rename_i hreader
    exact hstep ▸ .clear hreader

/-! ### What is to be shown -/

/-- The events carrying the call's id whose lookup came before its `finish`. -/
def expected (st : RouteState F) (call : Nat) : List (BackendEvent F) :=
  (st.looked.take ((st.finishedAt call).getD st.looked.length)).filter fun event =>
    routed event = some (st.reqIds call)

/-- The event the reader is about to send down this channel. -/
def pending (st : RouteState F) (call : Nat) : List (BackendEvent F) :=
  match st.reader with
  | .sending event channel => if channel = call then [event] else []
  | _ => []

/-- Nobody holds the sending half of the channel: not the map, not the reader,
    not the call itself. -/
def Disconnected (st : RouteState F) (call : Nat) : Prop :=
  (∀ reqId, st.inflight.lookup reqId ≠ some call) ∧ (∀ event, st.reader ≠ .sending event call) ∧
    st.calls call ≠ .fetched

/-! ### The map -/

/-- What holds of ids and of the in-flight map. -/
structure MapInv (st : RouteState F) : Prop where
  next : st.nextReq = .ofNat (st.begun + 1)
  ids : ∀ n < st.begun, st.reqIds n = .ofNat (n + 1)
  unborn : ∀ n, st.begun ≤ n → st.calls n = .unborn
  entry : ∀ reqId n, st.inflight.lookup reqId = some n →
    st.reqIds n = reqId ∧ (st.calls n).listed = true
  /-- Until the map is cleared every listed call is in it. -/
  present : st.reader ≠ .exited → ∀ n, (st.calls n).listed = true →
    st.inflight.lookup (st.reqIds n) = some n
  /-- A call that found the backend alive inserted its channel before the map
      was cleared. -/
  gone : st.reader = .exited → ∀ n, st.calls n = .checked ∨ st.calls n = .returned →
    st.inflight.lookup (st.reqIds n) ≠ some n
  flag : st.alive = st.reader.running

theorem calls_setCall (st : RouteState F) (call : Nat) (c : Call) (n : Nat) :
    (setCall st call c).calls n = if n = call then c else st.calls n := by
  by_cases hn : n = call
  · subst hn
    simp [setCall]
  · simp [setCall, hn]

section Map

variable {st : RouteState F} (hinv : MapInv st)

include hinv

theorem MapInv.lt_begun {n : Nat} (h : st.calls n ≠ .unborn) : n < st.begun := by
  by_contra hge
  exact h (hinv.unborn n (Nat.le_of_not_lt hge))

theorem MapInv.lt_of_listed {n : Nat} (h : (st.calls n).listed = true) : n < st.begun := by
  apply hinv.lt_begun
  intro hunborn
  rw [hunborn] at h
  simp [Call.listed] at h

/-- Up to 2^64 calls no id is given twice. -/
theorem MapInv.ids_inj (hcount : st.begun ≤ 2 ^ 64) {m n : Nat} (hm : m < st.begun)
    (hn : n < st.begun) (h : st.reqIds m = st.reqIds n) : m = n := by
  rw [hinv.ids m hm, hinv.ids n hn] at h
  have hnat := congrArg UInt64.toNat h
  simp only [UInt64.toNat_ofNat'] at hnat
  omega

theorem MapInv.ids_ne (hcount : st.begun ≤ 2 ^ 64) {m n : Nat} (hm : m < st.begun)
    (hn : n < st.begun) (h : m ≠ n) : st.reqIds m ≠ st.reqIds n := by
  intro hsame
  exact h (hinv.ids_inj hcount hm hn hsame)

/-- A call that may return has fetched an id. -/
theorem MapInv.lt_of_waiting {n : Nat} (h : st.calls n = .checked ∨ st.calls n = .returned) :
    n < st.begun := by
  apply hinv.lt_begun
  rcases h with h | h
  · simp [h]
  · simp [h]

theorem MapInv.unborn_setCall {call : Nat} (hlt : call < st.begun) (c : Call) {n : Nat}
    (hn : st.begun ≤ n) : (setCall st call c).calls n = .unborn := by
  have hne : n ≠ call := Nat.ne_of_gt (Nat.lt_of_lt_of_le hlt hn)
  rw [calls_setCall, if_neg hne]
  exact hinv.unborn n hn

theorem MapInv.fetch :
    MapInv { setCall st st.begun .fetched with
      nextReq := st.nextReq + 1
      begun := st.begun + 1
      reqIds := Function.update st.reqIds st.begun st.nextReq } := by
  have hfresh : ∀ n, (st.calls n).listed = true → n ≠ st.begun := by
    intro n hlisted
    exact Nat.ne_of_lt (hinv.lt_of_listed hlisted)
  refine ⟨?_, ?_, ?_, ?_, ?_, ?_, hinv.flag⟩
  · show st.nextReq + 1 = .ofNat (st.begun + 1 + 1)
    rw [hinv.next, UInt64.ofNat_add (st.begun + 1) 1]
    rfl
  · intro n hn
    by_cases hlast : n = st.begun
    · subst hlast
      simp [hinv.next]
    · simp only [Function.update_of_ne hlast]
      exact hinv.ids n (by simp only at hn; omega)
  · intro n hn
    have hne : n ≠ st.begun := by
      simp only at hn
      omega
    simp only [calls_setCall, hne, if_false]
    exact hinv.unborn n (by simp only at hn; omega)
  · intro reqId n hlookup
    obtain ⟨hid, hlisted⟩ := hinv.entry reqId n hlookup
    have hne := hfresh n hlisted
    simp only [Function.update_of_ne hne, calls_setCall, hne, if_false]
    exact ⟨hid, hlisted⟩
  · intro hreader n hlisted
    simp only [calls_setCall] at hlisted
    split at hlisted
    · simp [Call.listed] at hlisted
    · rename_i hne
      show st.inflight.lookup (Function.update st.reqIds st.begun st.nextReq n) = some n
      rw [Function.update_of_ne hne]
      exact hinv.present hreader n hlisted
  · intro hreader n hcall
    simp only [calls_setCall] at hcall
    split at hcall
    · simp at hcall
    · rename_i hne
      show st.inflight.lookup (Function.update st.reqIds st.begun st.nextReq n) ≠ some n
      rw [Function.update_of_ne hne]
      exact hinv.gone hreader n hcall

theorem MapInv.insert (hcount : st.begun ≤ 2 ^ 64) {call : Nat} (hcall : st.calls call = .fetched) :
    MapInv { setCall st call .inserted with
      inflight := st.inflight.insert (st.reqIds call) call } := by
  have hlt : call < st.begun := hinv.lt_begun (by rw [hcall]; simp)
  refine ⟨hinv.next, hinv.ids, ?_, ?_, ?_, ?_, hinv.flag⟩
  · intro n hn
    exact hinv.unborn_setCall hlt _ hn
  · intro reqId n hlookup
    by_cases hid : reqId = st.reqIds call
    · subst hid
      simp only [AList.lookup_insert, Option.some.injEq] at hlookup
      subst hlookup
      simp [setCall, Call.listed]
    · simp only [AList.lookup_insert_ne hid] at hlookup
      obtain ⟨hold, hlisted⟩ := hinv.entry reqId n hlookup
      have hne : n ≠ call := by
        rintro rfl
        exact hid hold.symm
      simp only [calls_setCall, hne, if_false]
      exact ⟨hold, hlisted⟩
  · intro hreader n hlisted
    simp only [calls_setCall] at hlisted
    split at hlisted
    · rename_i hn
      subst hn
      simp [setCall]
    · rename_i hne
      have hid := hinv.ids_ne hcount (hinv.lt_of_listed hlisted) hlt hne
      simp only [setCall, AList.lookup_insert_ne hid]
      exact hinv.present hreader n hlisted
  · intro hreader n hn
    simp only [calls_setCall] at hn
    split at hn
    · simp at hn
    · rename_i hne
      have hid := hinv.ids_ne hcount (hinv.lt_of_waiting hn) hlt hne
      simp only [setCall, AList.lookup_insert_ne hid]
      exact hinv.gone hreader n hn

/-- A call that stays in the map. -/
theorem MapInv.stays {call : Nat} {c : Call} (hold : (st.calls call).listed = true)
    (hnew : c.listed = true)
    (hgone : st.reader = .exited → c = .checked ∨ c = .returned → st.calls call = .checked)
    {sent : List UInt64} : MapInv { setCall st call c with sent := sent } := by
  have hlt : call < st.begun := hinv.lt_of_listed hold
  refine ⟨hinv.next, hinv.ids, ?_, ?_, ?_, ?_, hinv.flag⟩
  · intro n hn
    exact hinv.unborn_setCall hlt _ hn
  · intro reqId n hlookup
    obtain ⟨hid, hlisted⟩ := hinv.entry reqId n hlookup
    refine ⟨hid, ?_⟩
    simp only [calls_setCall]
    split
    · exact hnew
    · exact hlisted
  · intro hreader n hlisted
    simp only [calls_setCall] at hlisted
    split at hlisted
    · rename_i hn
      subst hn
      exact hinv.present hreader n hold
    · exact hinv.present hreader n hlisted
  · intro hreader n hn
    simp only [calls_setCall] at hn
    split at hn
    · rename_i heq
      subst heq
      exact hinv.gone hreader n (Or.inl (hgone hreader hn))
    · exact hinv.gone hreader n hn

/-- A call that takes its entry out. -/
theorem MapInv.leaves (hcount : st.begun ≤ 2 ^ 64) {call : Nat} {c : Call}
    (hold : (st.calls call).listed = true) (hnew : c.listed = false) (hborn : c ≠ .unborn)
    {finishedAt : Nat → Option Nat} :
    MapInv { setCall st call c with
      inflight := st.inflight.erase (st.reqIds call)
      finishedAt := finishedAt } := by
  have hlt : call < st.begun := hinv.lt_of_listed hold
  refine ⟨hinv.next, hinv.ids, ?_, ?_, ?_, ?_, hinv.flag⟩
  · intro n hn
    exact hinv.unborn_setCall hlt _ hn
  · intro reqId n hlookup
    by_cases hid : reqId = st.reqIds call
    · subst hid
      simp [AList.lookup_erase] at hlookup
    · simp only [AList.lookup_erase_ne hid] at hlookup
      obtain ⟨hsame, hlisted⟩ := hinv.entry reqId n hlookup
      have hne : n ≠ call := by
        rintro rfl
        exact hid hsame.symm
      simp only [calls_setCall, hne, if_false]
      exact ⟨hsame, hlisted⟩
  · intro hreader n hlisted
    simp only [calls_setCall] at hlisted
    split at hlisted
    · rw [hnew] at hlisted
      simp at hlisted
    · rename_i hne
      have hid := hinv.ids_ne hcount (hinv.lt_of_listed hlisted) hlt hne
      simp only [setCall, AList.lookup_erase_ne hid]
      exact hinv.present hreader n hlisted
  · intro hreader n hn
    simp only [calls_setCall] at hn
    split at hn
    · rcases hn with rfl | rfl <;> simp [Call.listed] at hnew
    · rename_i hne
      have hid := hinv.ids_ne hcount (hinv.lt_of_waiting hn) hlt hne
      simp only [setCall, AList.lookup_erase_ne hid]
      exact hinv.gone hreader n hn

/-- A step of the reader that leaves the map alone. -/
theorem MapInv.reads (hrunning : st.reader.running = true) {r : Reader F} (hafter : r ≠ .exited)
    {alive : Bool} (hflag : alive = r.running) {queues : Nat → List (BackendEvent F)}
    {control looked : List (BackendEvent F)} :
    MapInv { st with
      reader := r
      alive := alive
      queues := queues
      control := control
      looked := looked } := by
  refine ⟨hinv.next, hinv.ids, hinv.unborn, hinv.entry, ?_, ?_, hflag⟩
  · intro _
    apply hinv.present
    intro hexited
    rw [hexited] at hrunning
    simp [Reader.running] at hrunning
  · intro hexited
    exact absurd hexited hafter

theorem MapInv.clear (hreader : st.reader = .clearing) :
    MapInv { st with reader := .exited, inflight := ∅ } := by
  refine ⟨hinv.next, hinv.ids, hinv.unborn, ?_, ?_, ?_, ?_⟩
  · intro reqId n hlookup
    simp at hlookup
  · intro hreader
    exact absurd rfl hreader
  · intro _ n _ hlookup
    simp at hlookup
  · show st.alive = false
    rw [hinv.flag, hreader]
    rfl

end Map

/-! ### The channels -/

/-- What holds of events and of the channels they go to. -/
structure FlowInv (st : RouteState F) : Prop where
  fresh : ∀ n, st.begun ≤ n → st.queues n = [] ∧ st.finishedAt n = none
  sentBy : ∀ reqId ∈ st.sent, ∃ n, st.reqIds n = reqId ∧ n < st.begun ∧
    (st.calls n).written = true
  readOf : ∀ event, st.reader = .looking event → ∀ reqId ∈ routed event, reqId ∈ st.sent
  lookedOf : ∀ event ∈ st.looked, ∀ reqId ∈ routed event, reqId ∈ st.sent
  sendsTo : ∀ event n, st.reader = .sending event n → n < st.begun
  stops : ∀ n k, st.finishedAt n = some k → k ≤ st.looked.length ∧ st.calls n = .finished
  stopped : ∀ n, st.calls n = .finished → st.finishedAt n ≠ none
  delivered : ∀ n < st.begun, (st.calls n).sound = true →
    st.queues n ++ pending st n = expected st n

structure RouteInv (st : RouteState F) : Prop where
  map : MapInv st
  flow : FlowInv st

section Flow

variable {st : RouteState F}

theorem expected_congr (st next : RouteState F) {n : Nat} (hlooked : next.looked = st.looked)
    (hfinished : next.finishedAt n = st.finishedAt n) (hid : next.reqIds n = st.reqIds n) :
    expected next n = expected st n := by
  simp only [expected, hlooked, hfinished, hid]

/-- No event was looked up for a request that the backend does not have. -/
theorem RouteInv.unheard (hinv : RouteInv st) {reqId : UInt64} (hnot : reqId ∉ st.sent) :
    st.looked.filter (fun event => routed event = some reqId) = [] := by
  rw [List.filter_eq_nil_iff]
  intro event hevent
  have hsent := hinv.flow.lookedOf event hevent
  simp only [decide_eq_true_eq]
  intro hrouted
  exact hnot (hsent reqId hrouted)

/-- The id that is fetched next has not been written to the backend. -/
theorem RouteInv.next_unsent (hinv : RouteInv st) (hcount : st.begun + 1 ≤ 2 ^ 64) :
    st.nextReq ∉ st.sent := by
  intro hsent
  obtain ⟨n, hid, hlt, -⟩ := hinv.flow.sentBy _ hsent
  rw [hinv.map.ids n hlt, hinv.map.next] at hid
  have hnat := congrArg UInt64.toNat hid
  simp only [UInt64.toNat_ofNat'] at hnat
  omega

theorem FlowInv.pending_next (hflow : FlowInv st) : pending st st.begun = [] := by
  unfold pending
  split
  · rename_i event channel hreader
    have hlt := hflow.sendsTo event channel hreader
    rw [if_neg (Nat.ne_of_lt hlt)]
  · rfl

theorem RouteInv.fetch (hinv : RouteInv st) (hcount : st.begun + 1 ≤ 2 ^ 64) :
    RouteInv { setCall st st.begun .fetched with
      nextReq := st.nextReq + 1
      begun := st.begun + 1
      reqIds := Function.update st.reqIds st.begun st.nextReq } := by
  obtain ⟨hqueue, hfinished⟩ := hinv.flow.fresh st.begun (Nat.le_refl _)
  refine ⟨hinv.map.fetch, ?_, ?_, hinv.flow.readOf, hinv.flow.lookedOf, ?_, ?_, ?_, ?_⟩
  · intro n hn
    exact hinv.flow.fresh n (Nat.le_of_succ_le hn)
  · intro reqId hsent
    obtain ⟨n, hid, hlt, hwritten⟩ := hinv.flow.sentBy reqId hsent
    have hne : n ≠ st.begun := Nat.ne_of_lt hlt
    refine ⟨n, ?_, Nat.lt_succ_of_lt hlt, ?_⟩
    · rw [← hid]
      exact Function.update_of_ne hne _ _
    · simp only [calls_setCall, hne, if_false]
      exact hwritten
  · intro event n hreader
    exact Nat.lt_succ_of_lt (hinv.flow.sendsTo event n hreader)
  · intro n k hk
    obtain ⟨hle, hcall⟩ := hinv.flow.stops n k hk
    have hne : n ≠ st.begun := by
      rintro rfl
      rw [show st.finishedAt st.begun = some k from hk] at hfinished
      simp at hfinished
    simp only [calls_setCall, hne, if_false]
    exact ⟨hle, hcall⟩
  · intro n hcall
    simp only [calls_setCall] at hcall
    split at hcall
    · simp at hcall
    · exact hinv.flow.stopped n hcall
  · intro n hn hsound
    by_cases hlast : n = st.begun
    · -- a fresh id has no events yet
      subst hlast
      have hexpected := hinv.unheard (hinv.next_unsent hcount)
      show st.queues st.begun ++ pending st st.begun = _
      rw [hqueue, hinv.flow.pending_next]
      simp [expected, setCall, hfinished, hexpected]
    · have hlt : n < st.begun := by
        simp only at hn
        omega
      simp only [calls_setCall, hlast, if_false] at hsound
      refine (hinv.flow.delivered n hlt hsound).trans (Eq.symm ?_)
      exact expected_congr st _ rfl rfl (Function.update_of_ne hlast _ _)

/-- A step of a call that touches neither the channels nor their ends. -/
theorem FlowInv.moves (hflow : FlowInv st) {call : Nat} {c : Call}
    (hborn : call < st.begun) (hwritten : (st.calls call).written = true → c.written = true)
    (hsound : c.sound = true → (st.calls call).sound = true)
    (hfinished : c ≠ .finished) (hunfinished : st.calls call ≠ .finished)
    {inflight : Table UInt64 Nat} {sent : List UInt64} (hsent : ∀ reqId ∈ st.sent, reqId ∈ sent)
    (hby : ∀ reqId ∈ sent, reqId ∈ st.sent ∨ (reqId = st.reqIds call ∧ c.written = true)) :
    FlowInv { setCall st call c with inflight := inflight, sent := sent } := by
  refine ⟨hflow.fresh, ?_, ?_, ?_, hflow.sendsTo, ?_, ?_, ?_⟩
  · intro reqId hreqId
    rcases hby reqId hreqId with hold | ⟨rfl, hnew⟩
    · obtain ⟨n, hid, hlt, hn⟩ := hflow.sentBy reqId hold
      refine ⟨n, hid, hlt, ?_⟩
      simp only [calls_setCall]
      split
      · rename_i heq
        rw [heq] at hn
        exact hwritten hn
      · exact hn
    · refine ⟨call, rfl, hborn, ?_⟩
      simp only [calls_setCall, if_true]
      exact hnew
  · intro event hreader reqId hrouted
    exact hsent reqId (hflow.readOf event hreader reqId hrouted)
  · intro event hevent reqId hrouted
    exact hsent reqId (hflow.lookedOf event hevent reqId hrouted)
  · intro n k hk
    obtain ⟨hle, hcall⟩ := hflow.stops n k hk
    refine ⟨hle, ?_⟩
    simp only [calls_setCall]
    split
    · rename_i heq
      rw [heq] at hcall
      exact absurd hcall hunfinished
    · exact hcall
  · intro n hcall
    simp only [calls_setCall] at hcall
    split at hcall
    · exact absurd hcall hfinished
    · exact hflow.stopped n hcall
  · intro n hn hnext
    refine hflow.delivered n hn ?_
    simp only [calls_setCall] at hnext
    split at hnext
    · rename_i heq
      rw [heq]
      exact hsound hnext
    · exact hnext

theorem FlowInv.open_of_unfinished (hflow : FlowInv st) {n : Nat} (h : st.calls n ≠ .finished) :
    st.finishedAt n = none := by
  cases hk : st.finishedAt n with
  | none => rfl
  | some k => exact absurd (hflow.stops n k hk).2 h

theorem RouteInv.finish (hinv : RouteInv st) (hcount : st.begun ≤ 2 ^ 64) {call : Nat}
    (hcall : st.calls call = .returned) :
    RouteInv { setCall st call .finished with
      inflight := st.inflight.erase (st.reqIds call)
      finishedAt := Function.update st.finishedAt call (some st.looked.length) } := by
  have hlisted : (st.calls call).listed = true := by rw [hcall]; rfl
  have hborn := hinv.map.lt_of_listed hlisted
  have hopen := hinv.flow.open_of_unfinished (by rw [hcall]; simp : st.calls call ≠ .finished)
  refine ⟨hinv.map.leaves hcount hlisted rfl (by simp), ?_, ?_, hinv.flow.readOf,
    hinv.flow.lookedOf, hinv.flow.sendsTo, ?_, ?_, ?_⟩
  · intro n hn
    obtain ⟨hqueue, hnone⟩ := hinv.flow.fresh n hn
    have hne : n ≠ call := Nat.ne_of_gt (Nat.lt_of_lt_of_le hborn hn)
    exact ⟨hqueue, by simpa [Function.update_of_ne hne] using hnone⟩
  · intro reqId hreqId
    obtain ⟨n, hid, hlt, hn⟩ := hinv.flow.sentBy reqId hreqId
    refine ⟨n, hid, hlt, ?_⟩
    simp only [calls_setCall]
    split
    · rfl
    · exact hn
  · intro n k hk
    by_cases hn : n = call
    · subst hn
      simp only [Function.update_self, Option.some.injEq] at hk
      subst hk
      exact ⟨Nat.le_refl _, by simp [calls_setCall]⟩
    · simp only [Function.update_of_ne hn] at hk
      simp only [calls_setCall, hn, if_false]
      exact hinv.flow.stops n k hk
  · intro n hdone
    by_cases hn : n = call
    · subst hn
      simp
    · simp only [calls_setCall, hn, if_false] at hdone
      simp only [Function.update_of_ne hn]
      exact hinv.flow.stopped n hdone
  · intro n hn hsound
    by_cases heq : n = call
    · -- everything looked up so far is the call's; nothing later will be
      subst heq
      refine (hinv.flow.delivered n hn (by rw [hcall]; rfl)).trans ?_
      simp only [expected, hopen, Option.getD_none, Function.update_self, Option.getD_some]
      rfl
    · simp only [calls_setCall, heq, if_false] at hsound
      refine (hinv.flow.delivered n hn hsound).trans (Eq.symm ?_)
      exact expected_congr st _ rfl (Function.update_of_ne heq _ _) rfl

/-- A lookup adds an event to what its request expects, and to nothing else. -/
theorem expected_look (hflow : FlowInv st) (event : BackendEvent F) (r : Reader F)
    (control : List (BackendEvent F)) (n : Nat) :
    expected { st with looked := st.looked ++ [event], reader := r, control := control } n =
      expected st n ++
        if routed event = some (st.reqIds n) ∧ st.finishedAt n = none then [event] else [] := by
  simp only [expected]
  cases hk : st.finishedAt n with
  | none =>
    simp only [Option.getD_none, List.take_length, List.filter_append, and_true]
    congr 1
    by_cases hrouted : routed event = some (st.reqIds n)
    · simp [hrouted]
    · simp [hrouted]
  | some k =>
    have hle := (hflow.stops n k hk).1
    simp [List.take_append_of_le_length hle]

/-- What the lookup finds is the one call that expects the event. -/
theorem RouteInv.finds (hinv : RouteInv st) (hcount : st.begun ≤ 2 ^ 64) {event : BackendEvent F}
    {reqId : UInt64} (hrouted : routed event = some reqId) {channel : Nat}
    (hlookup : st.inflight.lookup reqId = some channel) {n : Nat} (hn : n < st.begun) :
    channel = n ↔ routed event = some (st.reqIds n) ∧ st.finishedAt n = none := by
  obtain ⟨hid, hlisted⟩ := hinv.map.entry reqId channel hlookup
  rw [hrouted, Option.some.injEq]
  constructor
  · rintro rfl
    refine ⟨hid.symm, hinv.flow.open_of_unfinished ?_⟩
    intro hfinished
    rw [hfinished] at hlisted
    simp [Call.listed] at hlisted
  · rintro ⟨hsame, -⟩
    exact hinv.map.ids_inj hcount (hinv.map.lt_of_listed hlisted) hn (hid.trans hsame)

/-- What the lookup does not find no call expects. -/
theorem RouteInv.misses (hinv : RouteInv st) (hcount : st.begun ≤ 2 ^ 64) {event : BackendEvent F}
    {reqId : UInt64} (hreader : st.reader = .looking event) (hrouted : routed event = some reqId)
    (hlookup : st.inflight.lookup reqId = none) {n : Nat} (hn : n < st.begun)
    (hsound : (st.calls n).sound = true) :
    ¬ (routed event = some (st.reqIds n) ∧ st.finishedAt n = none) := by
  rintro ⟨hown, hopen⟩
  rw [hrouted, Option.some.injEq] at hown
  have hsent := hinv.flow.readOf event hreader reqId hrouted
  obtain ⟨m, hid, hm, hwritten⟩ := hinv.flow.sentBy reqId hsent
  have hmn : m = n := hinv.map.ids_inj hcount hm hn (hid.trans hown)
  subst hmn
  cases hcall : st.calls m with
  | returned =>
    have hpresent := hinv.map.present (by rw [hreader]; simp) m (by rw [hcall]; rfl)
    rw [hid, hlookup] at hpresent
    simp at hpresent
  | finished => exact hinv.flow.stopped m hcall hopen
  | unborn | fetched | inserted | checked =>
    rw [hcall] at hwritten
    simp [Call.written] at hwritten
  | refused reason | failed reason =>
    rw [hcall] at hsound
    simp [Call.sound] at hsound

/-- A lookup, given that it hands the event to whoever expects it. -/
theorem FlowInv.look (hflow : FlowInv st) {event : BackendEvent F}
    (hreader : st.reader = .looking event) {r : Reader F} {control : List (BackendEvent F)}
    (hidle : ∀ e, r ≠ .looking e) (hto : ∀ e n, r = .sending e n → n < st.begun)
    (hpending : ∀ n < st.begun, (st.calls n).sound = true →
      pending { st with reader := r } n =
        if routed event = some (st.reqIds n) ∧ st.finishedAt n = none then [event] else []) :
    FlowInv { st with looked := st.looked ++ [event], reader := r, control := control } := by
  have hbefore : ∀ n, pending st n = [] := by
    intro n
    simp [pending, hreader]
  refine ⟨hflow.fresh, hflow.sentBy, ?_, ?_, hto, ?_, hflow.stopped, ?_⟩
  · intro e he
    exact absurd he (hidle e)
  · intro e he
    rcases List.mem_append.mp he with hold | hnew
    · exact hflow.lookedOf e hold
    · rw [List.mem_singleton] at hnew
      subst hnew
      exact hflow.readOf e hreader
  · intro n k hk
    obtain ⟨hle, hcall⟩ := hflow.stops n k hk
    refine ⟨?_, hcall⟩
    simp only [List.length_append]
    omega
  · intro n hn hsound
    have hdelivered := hflow.delivered n hn hsound
    rw [hbefore, List.append_nil] at hdelivered
    rw [expected_look hflow event r control n, ← hpending n hn hsound, ← hdelivered]
    rfl

theorem FlowInv.send (hflow : FlowInv st) {event : BackendEvent F} {channel : Nat}
    (hreader : st.reader = .sending event channel) :
    FlowInv { st with
      reader := .reading
      queues := Function.update st.queues channel (st.queues channel ++ [event]) } := by
  have hborn := hflow.sendsTo event channel hreader
  refine ⟨?_, hflow.sentBy, ?_, hflow.lookedOf, ?_, hflow.stops, hflow.stopped, ?_⟩
  · intro n hn
    have hne : n ≠ channel := Nat.ne_of_gt (Nat.lt_of_lt_of_le hborn hn)
    simp only [Function.update_of_ne hne]
    exact hflow.fresh n hn
  · intro e he
    simp at he
  · intro e n he
    simp at he
  · intro n hn hsound
    refine Eq.trans ?_ (hflow.delivered n hn hsound)
    by_cases hn : n = channel
    · subst hn
      simp [pending, hreader]
    · simp [pending, hreader, hn, Ne.symm hn]

/-- A step of the reader that moves no event. -/
theorem FlowInv.reads (hflow : FlowInv st) {r : Reader F} {alive : Bool}
    {inflight : Table UInt64 Nat} (hbefore : ∀ e n, st.reader ≠ .sending e n)
    (hafter : ∀ e n, r ≠ .sending e n)
    (hread : ∀ e, r = .looking e → ∀ reqId ∈ routed e, reqId ∈ st.sent) :
    FlowInv { st with reader := r, alive := alive, inflight := inflight } := by
  have hidle : ∀ next : RouteState F, (∀ e n, next.reader ≠ .sending e n) →
      ∀ n, pending next n = [] := by
    intro next hnext n
    unfold pending
    split
    · rename_i e m he
      exact absurd he (hnext e m)
    · rfl
  refine ⟨hflow.fresh, hflow.sentBy, hread, hflow.lookedOf, ?_, hflow.stops, hflow.stopped, ?_⟩
  · intro e n he
    exact absurd he (hafter e n)
  · intro n hn hsound
    have hdelivered := hflow.delivered n hn hsound
    rw [hidle st hbefore] at hdelivered
    rw [hidle _ hafter]
    exact hdelivered

end Flow

/-! ### Runs -/

theorem RouteInv.new : RouteInv (RouteState.new : RouteState F) := by
  constructor
  · refine ⟨rfl, ?_, ?_, ?_, ?_, ?_, rfl⟩
    · intro n hn
      simp [RouteState.new] at hn
    · intro n _
      rfl
    · intro reqId n hlookup
      simp [RouteState.new] at hlookup
    · intro _ n hlisted
      simp [RouteState.new, Call.listed] at hlisted
    · intro hreader
      simp [RouteState.new] at hreader
  · refine ⟨?_, ?_, ?_, ?_, ?_, ?_, ?_, ?_⟩
    · intro n _
      exact ⟨rfl, rfl⟩
    · intro reqId hsent
      simp [RouteState.new] at hsent
    · intro event hreader
      simp [RouteState.new] at hreader
    · intro event hlooked
      simp [RouteState.new] at hlooked
    · intro event n hreader
      simp [RouteState.new] at hreader
    · intro n k hk
      simp [RouteState.new] at hk
    · intro n hcall
      simp [RouteState.new] at hcall
    · intro n hn
      simp [RouteState.new] at hn

/-- A call that stays in the map, with what it may have written. -/
theorem RouteInv.stays {st : RouteState F} (hinv : RouteInv st) {call : Nat} {c : Call}
    (hold : (st.calls call).listed = true) (hnew : c.listed = true)
    (hgone : st.reader = .exited → c = .checked ∨ c = .returned → st.calls call = .checked)
    (hwritten : (st.calls call).written = true → c.written = true)
    (hsound : c.sound = true → (st.calls call).sound = true)
    {sent : List UInt64} (hsent : ∀ reqId ∈ st.sent, reqId ∈ sent)
    (hby : ∀ reqId ∈ sent, reqId ∈ st.sent ∨ (reqId = st.reqIds call ∧ c.written = true)) :
    RouteInv { setCall st call c with sent := sent } := by
  refine ⟨hinv.map.stays hold hnew hgone, ?_⟩
  apply hinv.flow.moves (hinv.map.lt_of_listed hold) hwritten hsound ?_ ?_ hsent hby
  · rintro rfl
    simp [Call.listed] at hnew
  · intro hfinished
    rw [hfinished] at hold
    simp [Call.listed] at hold

/-- The call whose request is being written. -/
theorem RouteInv.writes {st : RouteState F} (hinv : RouteInv st) {call : Nat} {c : Call}
    (hcall : st.calls call = .checked) (hnew : c.listed = true) (hwritten : c.written = true) :
    RouteInv (setCall { st with sent := st.reqIds call :: st.sent } call c) := by
  apply hinv.stays (by rw [hcall]; rfl) hnew
  · intro _ _
    exact hcall
  · intro _
    exact hwritten
  · simp [hcall, Call.sound]
  · intro reqId hsent
    exact List.mem_cons_of_mem _ hsent
  · intro reqId hsent
    rcases List.mem_cons.mp hsent with rfl | hold
    · exact Or.inr ⟨rfl, hwritten⟩
    · exact Or.inl hold

/-- The flag is lowered before the map is cleared, so a check that finds it
    raised comes before both. -/
theorem RouteInv.checks {st : RouteState F} (hinv : RouteInv st) {call : Nat} {c : Call}
    (hcall : st.calls call = .inserted) (hnew : c.listed = true) (hwritten : c ≠ .returned)
    (halive : c = .checked → st.alive = true) : RouteInv (setCall st call c) := by
  apply hinv.stays (by rw [hcall]; rfl) hnew
  · intro hreader hc
    have hraised := halive (hc.resolve_right hwritten)
    rw [hinv.map.flag, hreader] at hraised
    simp [Reader.running] at hraised
  · simp [hcall, Call.written]
  · simp [hcall, Call.sound]
  · intro reqId hsent
    exact hsent
  · intro reqId hsent
    exact Or.inl hsent

theorem Stepped.inv {name : Text} {st next : RouteState F} (hstep : Stepped name st next)
    (hinv : st.begun ≤ 2 ^ 64 → RouteInv st) (hcount : next.begun ≤ 2 ^ 64) : RouteInv next := by
  cases hstep with
  | fetch => exact (hinv (Nat.le_of_succ_le hcount)).fetch hcount
  | insert call hcall =>
    have hinv := hinv hcount
    have hborn : call < st.begun := hinv.map.lt_begun (by rw [hcall]; simp)
    refine ⟨hinv.map.insert hcount hcall, ?_⟩
    apply hinv.flow.moves hborn
    · simp [hcall, Call.written]
    · simp [hcall, Call.sound]
    · simp
    · simp [hcall]
    · intro reqId hsent
      exact hsent
    · intro reqId hsent
      exact Or.inl hsent
  | accept call hcall halive =>
    exact (hinv hcount).checks hcall rfl (by simp) (fun _ => halive)
  | refuse call hcall halive => exact (hinv hcount).checks hcall rfl (by simp) (by simp)
  | write call hcall => exact (hinv hcount).writes hcall rfl rfl
  | unwritten call e hcall => exact (hinv hcount).writes hcall rfl rfl
  | remove call reason hcall =>
    have hinv := hinv hcount
    have hlisted : (st.calls call).listed = true := by rw [hcall]; rfl
    refine ⟨hinv.map.leaves hcount hlisted rfl (by simp), ?_⟩
    apply hinv.flow.moves (hinv.map.lt_of_listed hlisted)
    · simp [Call.written]
    · simp [Call.sound]
    · simp
    · simp [hcall]
    · intro reqId hsent
      exact hsent
    · intro reqId hsent
      exact Or.inl hsent
  | finish call hcall => exact (hinv hcount).finish hcount hcall
  | read event hreader hsent =>
    have hinv := hinv hcount
    have hrunning : st.reader.running = true := by rw [hreader]; rfl
    constructor
    · apply hinv.map.reads hrunning
      · simp
      · exact hinv.map.flag.trans hrunning
    · apply hinv.flow.reads
      · simp [hreader]
      · simp
      · intro e he
        rw [Reader.looking.injEq] at he
        exact he ▸ hsent
  | found event reqId channel hreader hrouted hlookup =>
    have hinv := hinv hcount
    have hrunning : st.reader.running = true := by rw [hreader]; rfl
    have hlisted := (hinv.map.entry reqId channel hlookup).2
    constructor
    · apply hinv.map.reads hrunning
      · simp
      · exact hinv.map.flag.trans hrunning
    · apply hinv.flow.look hreader
      · simp
      · intro e n hsending
        rw [Reader.sending.injEq] at hsending
        exact hsending.2 ▸ hinv.map.lt_of_listed hlisted
      · intro n hn _
        simp only [pending, hinv.finds hcount hrouted hlookup hn]
  | unknown event reqId hreader hrouted hlookup =>
    have hinv := hinv hcount
    have hrunning : st.reader.running = true := by rw [hreader]; rfl
    constructor
    · apply hinv.map.reads hrunning
      · simp
      · exact hinv.map.flag.trans hrunning
    · apply hinv.flow.look hreader
      · simp
      · simp
      · intro n hn hsound
        rw [if_neg (hinv.misses hcount hreader hrouted hlookup hn hsound)]
        rfl
  | answer event hreader hrouted =>
    have hinv := hinv hcount
    have hrunning : st.reader.running = true := by rw [hreader]; rfl
    constructor
    · apply hinv.map.reads hrunning
      · simp
      · exact hinv.map.flag.trans hrunning
    · apply hinv.flow.look hreader
      · simp
      · simp
      · simp [pending, hrouted]
  | send event channel hreader =>
    have hinv := hinv hcount
    have hrunning : st.reader.running = true := by rw [hreader]; rfl
    constructor
    · apply hinv.map.reads hrunning
      · simp
      · exact hinv.map.flag.trans hrunning
    · exact hinv.flow.send hreader
  | hangUp hreader =>
    have hinv := hinv hcount
    have hrunning : st.reader.running = true := by rw [hreader]; rfl
    constructor
    · apply hinv.map.reads hrunning
      · simp
      · rfl
    · apply hinv.flow.reads
      · simp [hreader]
      · simp
      · simp
  | clear hreader =>
    have hinv := hinv hcount
    refine ⟨hinv.map.clear hreader, hinv.flow.reads ?_ ?_ ?_⟩
    · simp [hreader]
    · simp
    · simp

theorem run_inv {name : Text} {steps : List (Step F)} {st : RouteState F}
    (hrun : runs (routeStep name) RouteState.new steps = some st) (hcount : st.begun ≤ 2 ^ 64) :
    RouteInv st := by
  have hstep : ∀ (s : RouteState F) a s', (s.begun ≤ 2 ^ 64 → RouteInv s) →
      routeStep name s a = some s' → (s'.begun ≤ 2 ^ 64 → RouteInv s') := by
    intro s a s' hs hnext hcount
    exact (stepped_of_routeStep hnext).inv hs hcount
  exact runs_invariant (routeStep name) hstep (fun _ => RouteInv.new) hrun hcount

/-- With the reader gone nobody can send to a call that found the backend
    alive. -/
theorem RouteInv.disconnected {st : RouteState F} (hinv : RouteInv st)
    (hreader : st.reader = .exited) {n : Nat} (haccepted : (st.calls n).accepted = true) :
    Disconnected st n := by
  refine ⟨?_, ?_, ?_⟩
  · intro reqId hlookup
    obtain ⟨rfl, hlisted⟩ := hinv.map.entry reqId n hlookup
    have hcall : st.calls n = .checked ∨ st.calls n = .returned := by
      cases hcall : st.calls n <;> simp_all [Call.listed, Call.accepted]
    exact hinv.map.gone hreader n hcall hlookup
  · simp [hreader]
  · intro hfetched
    rw [hfetched] at haccepted
    simp [Call.accepted] at haccepted

/-- A step of a call that does not take it past the check. -/
theorem accepted_setCall (st : RouteState F) {call : Nat} {c : Call}
    (h : c.accepted = true → (st.calls call).accepted = true) (n : Nat)
    (hn : ((setCall st call c).calls n).accepted = true) : (st.calls n).accepted = true := by
  rw [calls_setCall] at hn
  split at hn
  · rename_i heq
    subst heq
    exact h hn
  · exact hn

/-- Once the reader is gone every check fails. -/
theorem Stepped.exited {name : Text} {st next : RouteState F} (hstep : Stepped name st next)
    (hreader : st.reader = .exited) (hdead : st.alive = false) :
    next.reader = .exited ∧ next.alive = false ∧
      ∀ n, (next.calls n).accepted = true → (st.calls n).accepted = true := by
  cases hstep with
  | fetch => exact ⟨hreader, hdead, accepted_setCall st (by simp [Call.accepted])⟩
  | insert call hcall => exact ⟨hreader, hdead, accepted_setCall st (by simp [Call.accepted])⟩
  | accept call hcall halive => simp [hdead] at halive
  | refuse call hcall halive =>
    exact ⟨hreader, hdead, accepted_setCall st (by simp [Call.accepted])⟩
  | write call hcall =>
    refine ⟨hreader, hdead, fun n hn => ?_⟩
    exact accepted_setCall { st with sent := _ } (by simp [hcall, Call.accepted]) n hn
  | unwritten call e hcall =>
    refine ⟨hreader, hdead, fun n hn => ?_⟩
    exact accepted_setCall { st with sent := _ } (by simp [hcall, Call.accepted]) n hn
  | remove call reason hcall =>
    exact ⟨hreader, hdead, accepted_setCall st (by simp [Call.accepted])⟩
  | finish call hcall =>
    exact ⟨hreader, hdead, accepted_setCall st (by simp [hcall, Call.accepted])⟩
  | read event hreading => simp [hreader] at hreading
  | found event reqId channel hlooking => simp [hreader] at hlooking
  | unknown event reqId hlooking => simp [hreader] at hlooking
  | answer event hlooking => simp [hreader] at hlooking
  | send event channel hsending => simp [hreader] at hsending
  | hangUp hreading => simp [hreader] at hreading
  | clear hclearing => simp [hreader] at hclearing

/-- A call that has not found the backend alive when the reader is gone never
    will. -/
theorem exited_run {name : Text} {more : List (Step F)} {st next : RouteState F}
    (hreader : st.reader = .exited) (hdead : st.alive = false)
    (hrun : runs (routeStep name) st more = some next) :
    next.reader = .exited ∧ ∀ n, (next.calls n).accepted = true → (st.calls n).accepted = true := by
  have hstep : ∀ (s : RouteState F) a s', (s.reader = .exited ∧ s.alive = false ∧
      ∀ n, (s.calls n).accepted = true → (st.calls n).accepted = true) →
      routeStep name s a = some s' → (s'.reader = .exited ∧ s'.alive = false ∧
        ∀ n, (s'.calls n).accepted = true → (st.calls n).accepted = true) := by
    rintro s a s' ⟨hs, hoff, hback⟩ hnext
    obtain ⟨hs', hoff', hkept⟩ := (stepped_of_routeStep hnext).exited hs hoff
    exact ⟨hs', hoff', fun n hn => hback n (hkept n hn)⟩
  have hend := runs_invariant (routeStep name) hstep ⟨hreader, hdead, fun _ hn => hn⟩ hrun
  exact ⟨hend.1, hend.2.2⟩

/-- In every interleaving with at most 2^64 calls of `begin`: no two of them have
    the same id; what a returned receiver has been sent, with what the reader
    holds for it, is what carries its id and was looked up before its `finish`, in
    order; and with the reader gone every call that may still return a receiver
    returns a disconnected one, while the others fail. -/
theorem routing_exact (name : Text) (steps : List (Step F)) (st : RouteState F)
    (hrun : runs (routeStep name) RouteState.new steps = some st) (hcount : st.begun ≤ 2 ^ 64) :
    (∀ m n, m < st.begun → n < st.begun → st.reqIds m = st.reqIds n → m = n) ∧
    (∀ n, st.calls n = .returned ∨ st.calls n = .finished →
      st.queues n ++ pending st n = expected st n) ∧
    (st.reader = .exited →
      (∀ n, (st.calls n).accepted = true → Disconnected st n) ∧
      ∀ more next, runs (routeStep name) st more = some next →
        next.reader = .exited ∧
          ∀ n, (next.calls n).accepted = true → (st.calls n).accepted = true) := by
  have hinv := run_inv hrun hcount
  refine ⟨?_, ?_, ?_⟩
  · intro m n hm hn
    exact hinv.map.ids_inj hcount hm hn
  · intro n hcall
    apply hinv.flow.delivered n
    · exact hinv.map.lt_begun (by rcases hcall with h | h <;> rw [h] <;> simp)
    · rcases hcall with h | h <;> rw [h] <;> rfl
  · intro hreader
    constructor
    · intro n haccepted
      exact hinv.disconnected hreader haccepted
    · intro more next hmore
      have hdead : st.alive = false := by
        rw [hinv.map.flag, hreader]
        rfl
      exact exited_run hreader hdead hmore

/-- A token reaches the one request before the backend ends. -/
def oneToken : List (Step Nat) :=
  [.fetch, .insert 0, .check 0, .write 0 (.ok ()), .read (.token 1 "a".toList none), .look, .send,
    .hangUp, .clear]

theorem routing_exact_token :
    ∃ st, runs (routeStep "echo".toList) RouteState.new oneToken = some st ∧
      st.queues 0 ++ pending st 0 = expected st 0 ∧ Disconnected st 0 := by
  have hend : (runs (routeStep "echo".toList) RouteState.new oneToken).map
      (fun st => (st.begun, st.calls 0, st.reader)) = some (1, .returned, .exited) := rfl
  obtain ⟨st, hrun, hst⟩ := Option.map_eq_some_iff.mp hend
  simp only [Prod.mk.injEq] at hst
  obtain ⟨hbegun, hcall, hreader⟩ := hst
  obtain ⟨-, hdelivered, hgone⟩ :=
    routing_exact "echo".toList oneToken st hrun (by rw [hbegun]; decide)
  refine ⟨st, hrun, hdelivered 0 (Or.inl hcall), (hgone hreader).1 0 ?_⟩
  rw [hcall]
  rfl

/-- A run of fetches alone. -/
theorem run_fetches (name : Text) (k : Nat) (st : RouteState F) (hinv : MapInv st) :
    ∃ next, runs (routeStep name) st (List.replicate k .fetch) = some next ∧
      next.begun = st.begun + k ∧ MapInv next := by
  induction k generalizing st with
  | zero => exact ⟨st, rfl, rfl, hinv⟩
  | succ k ih =>
    obtain ⟨next, hrun, hbegun, hnext⟩ := ih _ hinv.fetch
    refine ⟨next, hrun, ?_, hnext⟩
    rw [hbegun]
    simp only
    omega

/-- The counter of ids goes round. -/
theorem request_id_reused : ¬ ∀ (name : Text) (steps : List (Step Nat)) (st : RouteState Nat),
    runs (routeStep name) RouteState.new steps = some st →
      ∀ m n, m < st.begun → n < st.begun → st.reqIds m = st.reqIds n → m = n := by
  intro hall
  obtain ⟨st, hrun, hbegun, hinv⟩ := run_fetches "echo".toList (2 ^ 64 + 1)
    (RouteState.new : RouteState Nat) RouteInv.new.map
  have hnone : (RouteState.new : RouteState Nat).begun = 0 := rfl
  rw [hnone] at hbegun
  have hfirst : 0 < st.begun := by omega
  have hlast : 2 ^ 64 < st.begun := by omega
  have hsame : st.reqIds 0 = st.reqIds (2 ^ 64) := by
    rw [hinv.ids 0 hfirst, hinv.ids (2 ^ 64) hlast]
    decide
  have heq := hall "echo".toList _ st hrun 0 (2 ^ 64) hfirst hlast hsame
  omega

end AiDaemon.Routing
