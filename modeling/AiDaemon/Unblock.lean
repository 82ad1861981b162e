import AiDaemon.Transition
import Mathlib.Logic.Function.Basic

/-!
# Blocking work off the bus thread (`unblock.rs`)

One thread serves the bus.  A method that would block hands its work to a thread of its own
and awaits an `Unblock`, which the two of them share under a lock: the worker leaves its
result and wakes, the bus thread takes the result or leaves a waker.

`unblock_answers` says that no interleaving of any number of such methods loses a wake-up:
a method whose work is over is answered with what the work came to, and the bus thread gets
there whatever other work is still going on.
-/

namespace AiDaemon.Unblock

open Transition

/-! ### The source -/

/-- Where the thread of a piece of work stands. The work came to nothing if it panicked. -/
inductive Worker (T : Type) where
  | working
  | finished (outcome : Option T)
  /-- It holds the lock, and has left its result. -/
  | stored
  /-- It still holds the lock, and has woken whom it had to. -/
  | woken
  | gone

def Worker.holdsLock {T : Type} : Worker T → Bool
  | .stored | .woken => true
  | .working | .finished _ | .gone => false

/-- A method that awaits its work, with what it shares with the worker. -/
structure Method (T W : Type) where
  worker : Worker T
  result : Option (Option T)
  waker : Option W
  /-- The bus thread has it in its queue. -/
  scheduled : Bool
  /-- The waker of the last poll. Only this one has to be obeyed. -/
  latest : Option W
  answer : Option (Option T)
  /-- What the work came to, as soon as it is over. -/
  outcome : Option (Option T)

/-- `unblock`. A thread that cannot be started is a panic. -/
def unblock {T W : Type} (spawned : Bool) : Method T W where
  worker := if spawned then .working else .gone
  result := if spawned then none else some none
  waker := none
  scheduled := true
  latest := none
  answer := none
  outcome := if spawned then none else some none

/-- What the bus thread is at. Between taking a method from its queue and polling it, it may
    have to wait for the lock. -/
inductive Bus (W : Type) where
  | idle
  | polling (n : Nat) (waker : W)

structure State (T W : Type) where
  bus : Bus W
  called : Nat
  methods : Nat → Method T W

inductive Act (T W : Type) where
  /-- A method is called. -/
  | call (spawned : Bool)
  /-- The work ends. -/
  | work (n : Nat) (outcome : Option T)
  /-- The worker takes the lock and leaves its result. -/
  | store (n : Nat)
  | wake (n : Nat)
  | release (n : Nat)
  /-- The bus thread takes a method from its queue. -/
  | pick (n : Nat) (waker : W)
  /-- It polls one that was not in its queue. -/
  | spurious (n : Nat) (waker : W)
  /-- It gets the lock, and the poll goes through. -/
  | poll

variable {T W : Type}

def State.new : State T W := ⟨.idle, 0, fun _ => unblock true⟩

def State.set (st : State T W) (n : Nat) (m : Method T W) : State T W :=
  { st with methods := Function.update st.methods n m }

/-- The work of a method is over. -/
def Method.over (m : Method T W) (outcome : Option T) : Method T W :=
  { m with worker := .finished outcome, outcome := some outcome }

section

variable [DecidableEq W]

/-- `waker.wake()`. -/
def Method.wake (m : Method T W) : Method T W :=
  { m with
    worker := .woken
    waker := none
    scheduled := m.scheduled || (m.waker.isSome && decide (m.waker = m.latest)) }

/-- `poll`, under the lock. -/
def Method.poll (m : Method T W) (waker : W) : Method T W :=
  match m.result with
  | some result => { m with result := none, answer := some result }
  | none => { m with waker := some waker }

/-- The bus thread starts a poll. -/
def State.start (st : State T W) (n : Nat) (waker : W) : State T W :=
  { st.set n { st.methods n with scheduled := false, latest := some waker } with
    bus := .polling n waker }

def step (st : State T W) : Act T W → Option (State T W)
  | .call spawned =>
    match st.bus with
    | .idle => some { st.set st.called (unblock spawned) with called := st.called + 1 }
    | .polling _ _ => none
  | .work n outcome =>
    match (st.methods n).worker with
    | .working =>
      if n < st.called then
        some (st.set n ((st.methods n).over outcome))
      else none
    | _ => none
  | .store n =>
    match (st.methods n).worker with
    | .finished outcome =>
      some (st.set n { st.methods n with worker := .stored, result := some outcome })
    | _ => none
  | .wake n =>
    match (st.methods n).worker with
    | .stored => some (st.set n (st.methods n).wake)
    | _ => none
  | .release n =>
    match (st.methods n).worker with
    | .woken => some (st.set n { st.methods n with worker := .gone })
    | _ => none
  | .pick n waker =>
    match st.bus with
    | .idle =>
      if n < st.called ∧ (st.methods n).answer = none ∧ (st.methods n).scheduled = true then
        some (st.start n waker)
      else none
    | .polling _ _ => none
  | .spurious n waker =>
    match st.bus with
    | .idle =>
      if n < st.called ∧ (st.methods n).answer = none then some (st.start n waker) else none
    | .polling _ _ => none
  | .poll =>
    match st.bus with
    | .idle => none
    | .polling n waker =>
      if (st.methods n).worker.holdsLock then none
      else some { st.set n ((st.methods n).poll waker) with bus := .idle }

end

/-! ### What keeps a wake-up from being lost -/

def State.Polls (st : State T W) (n : Nat) : Prop := ∃ waker, st.bus = .polling n waker

/-- The bus thread is to get to the method, or is there, or the worker has the waker that
    brings it there. -/
def Awaited (polled : Prop) (m : Method T W) : Prop :=
  m.scheduled = true ∨ polled ∨ m.waker.isSome = true ∧ m.waker = m.latest

/-- The result is there and has not been taken. -/
def Left (m : Method T W) : Prop :=
  m.answer = none ∧ m.outcome.isSome = true ∧ m.result = m.outcome

/-- What holds of a method, by where its worker stands. -/
def Kept (polled : Prop) (m : Method T W) : Prop :=
  match m.worker with
  | .working => m.answer = none ∧ m.outcome = none ∧ m.result = none ∧ Awaited polled m
  | .finished outcome =>
    m.answer = none ∧ m.outcome = some outcome ∧ m.result = none ∧ Awaited polled m
  | .stored => Left m ∧ Awaited polled m
  | .woken => Left m ∧ (m.scheduled = true ∨ polled)
  | .gone =>
    Left m ∧ (m.scheduled = true ∨ polled) ∨
      m.outcome.isSome = true ∧ m.answer = m.outcome ∧ m.result = none

structure Inv (st : State T W) : Prop where
  kept : ∀ n < st.called, Kept (st.Polls n) (st.methods n)
  polling : ∀ n waker, st.bus = .polling n waker →
    n < st.called ∧ (st.methods n).answer = none ∧ (st.methods n).latest = some waker

theorem new_inv : Inv (.new : State T W) where
  kept n h := absurd h (Nat.not_lt_zero n)
  polling n waker h := by cases h

@[simp] theorem set_same (st : State T W) (n : Nat) (m : Method T W) :
    (st.set n m).methods n = m := Function.update_self ..

@[simp] theorem set_other (st : State T W) {n k : Nat} (h : k ≠ n) (m : Method T W) :
    (st.set n m).methods k = st.methods k := Function.update_of_ne h ..

theorem Awaited.mono {p q : Prop} (hpq : p → q) {m : Method T W} (h : Awaited p m) :
    Awaited q m :=
  h.imp_right (Or.imp_left hpq)

theorem Kept.mono {p q : Prop} (hpq : p → q) {m : Method T W} (h : Kept p m) : Kept q m := by
  unfold Kept at h ⊢
  split at h
  · exact ⟨h.1, h.2.1, h.2.2.1, h.2.2.2.mono hpq⟩
  · exact ⟨h.1, h.2.1, h.2.2.1, h.2.2.2.mono hpq⟩
  · exact ⟨h.1, h.2.mono hpq⟩
  · exact ⟨h.1, h.2.imp_right hpq⟩
  · exact h.imp_left fun hleft => ⟨hleft.1, hleft.2.imp_right hpq⟩

/-- A method that the bus thread has turned to is looked after. -/
theorem Kept.start {p : Prop} {m : Method T W} (h : Kept p m) (waker : W) :
    Kept True { m with scheduled := false, latest := some waker } := by
  have hawaited : Awaited True { m with scheduled := false, latest := some waker } :=
    .inr (.inl trivial)
  unfold Kept at h ⊢
  dsimp only
  split at h
  · exact ⟨h.1, h.2.1, h.2.2.1, hawaited⟩
  · exact ⟨h.1, h.2.1, h.2.2.1, hawaited⟩
  · exact ⟨h.1, hawaited⟩
  · exact ⟨h.1, .inr trivial⟩
  · exact h.imp_left fun hleft => ⟨hleft.1, .inr trivial⟩

/-- A poll that gets the lock takes the result, or leaves the waker for it. -/
theorem Kept.poll {p : Prop} {m : Method T W} (h : Kept p m) {waker : W}
    (hlock : m.worker.holdsLock = false) (hanswer : m.answer = none)
    (hlatest : m.latest = some waker) : Kept False (m.poll waker) := by
  unfold Method.poll
  cases hresult : m.result with
  | none =>
    have hawaited : Awaited False { m with waker := some waker } := .inr (.inr ⟨rfl, hlatest.symm⟩)
    unfold Kept at h ⊢
    dsimp only
    split at h
    · exact ⟨h.1, h.2.1, rfl, hawaited⟩
    · exact ⟨h.1, h.2.1, rfl, hawaited⟩
    · next hworker => simp [hworker, Worker.holdsLock] at hlock
    · next hworker => simp [hworker, Worker.holdsLock] at hlock
    · rcases h with ⟨⟨-, hsome, hleft⟩, -⟩ | ⟨hsome, htaken, -⟩
      · rw [← hleft, hresult] at hsome
        cases hsome
      · rw [← htaken, hanswer] at hsome
        cases hsome
  | some result =>
    unfold Kept at h ⊢
    dsimp only
    split at h
    · exact absurd (h.2.2.1.symm.trans hresult) (by simp)
    · exact absurd (h.2.2.1.symm.trans hresult) (by simp)
    · next hworker => simp [hworker, Worker.holdsLock] at hlock
    · next hworker => simp [hworker, Worker.holdsLock] at hlock
    · rcases h with ⟨⟨-, hsome, hleft⟩, -⟩ | ⟨-, -, hnone⟩
      · exact .inr ⟨hsome, hresult.symm.trans hleft, rfl⟩
      · rw [hresult] at hnone
        cases hnone

theorem Kept.wake [DecidableEq W] {p : Prop} {m : Method T W} (h : Kept p m)
    (hworker : m.worker = .stored) : Kept p m.wake := by
  unfold Kept at h
  rw [hworker] at h
  obtain ⟨hleft, hawaited⟩ := h
  refine ⟨hleft, ?_⟩
  rcases hawaited with hscheduled | hpolled | ⟨hsome, hlatest⟩
  · exact .inl (by simp [Method.wake, hscheduled])
  · exact .inr hpolled
  · exact .inl (by simp [Method.wake, hsome, ← hlatest])

/-- A worker's step on its own method. -/
theorem Inv.works {st : State T W} (h : Inv st) {n : Nat} {m : Method T W}
    (hkept : n < st.called → Kept (st.Polls n) (st.methods n) → Kept (st.Polls n) m)
    (hanswer : m.answer = (st.methods n).answer) (hlatest : m.latest = (st.methods n).latest) :
    Inv (st.set n m) where
  kept k hk := by
    by_cases hsame : k = n
    · subst hsame
      rw [set_same]
      exact hkept hk (h.kept k hk)
    · rw [set_other st hsame]
      exact h.kept k hk
  polling k waker hbus := by
    obtain ⟨hk, hnone, hwaker⟩ := h.polling k waker hbus
    refine ⟨hk, ?_⟩
    by_cases hsame : k = n
    · subst hsame
      rw [set_same, hanswer, hlatest]
      exact ⟨hnone, hwaker⟩
    · rw [set_other st hsame]
      exact ⟨hnone, hwaker⟩

theorem unblock_kept (spawned : Bool) : Kept False (unblock spawned : Method T W) := by
  cases spawned with
  | true => exact ⟨rfl, rfl, rfl, .inl rfl⟩
  | false => exact .inl ⟨⟨rfl, rfl, rfl⟩, .inl rfl⟩

theorem Inv.call {st : State T W} (h : Inv st) (hidle : st.bus = .idle) (spawned : Bool) :
    Inv { st.set st.called (unblock spawned) with called := st.called + 1 } := by
  refine ⟨fun k hk => ?_, fun k waker hbus => ?_⟩
  · rcases Nat.lt_succ_iff_lt_or_eq.mp hk with hbefore | rfl
    · show Kept _ ((st.set st.called (unblock spawned)).methods k)
      rw [set_other st (Nat.ne_of_lt hbefore)]
      exact h.kept k hbefore
    · show Kept _ ((st.set st.called (unblock spawned)).methods st.called)
      rw [set_same]
      exact (unblock_kept spawned).mono False.elim
  · have hpolling : st.bus = .polling k waker := hbus
    rw [hidle] at hpolling
    cases hpolling

theorem Inv.start {st : State T W} (h : Inv st) (hidle : st.bus = .idle) {n : Nat}
    (hn : n < st.called) (hanswer : (st.methods n).answer = none) (waker : W) :
    Inv (st.start n waker) := by
  have hmethod : (st.start n waker).methods n =
      { st.methods n with scheduled := false, latest := some waker } := set_same _ _ _
  refine ⟨fun k hk => ?_, fun k waker' hbus => ?_⟩
  · by_cases hsame : k = n
    · subst hsame
      rw [hmethod]
      exact ((h.kept k hk).start waker).mono fun _ => ⟨waker, rfl⟩
    · have hother : (st.start n waker).methods k = st.methods k := set_other st hsame _
      rw [hother]
      refine (h.kept k hk).mono ?_
      rintro ⟨waker', hbus⟩
      rw [hidle] at hbus
      cases hbus
  · cases hbus
    rw [hmethod]
    exact ⟨hn, hanswer, rfl⟩

theorem Inv.poll {st : State T W} (h : Inv st) {n : Nat} {waker : W}
    (hbus : st.bus = .polling n waker) (hlock : (st.methods n).worker.holdsLock = false) :
    Inv { st.set n ((st.methods n).poll waker) with bus := .idle } := by
  obtain ⟨hn, hanswer, hlatest⟩ := h.polling n waker hbus
  refine ⟨fun k hk => ?_, fun k waker' hbus => by cases hbus⟩
  by_cases hsame : k = n
  · subst hsame
    show Kept _ ((st.set k ((st.methods k).poll waker)).methods k)
    rw [set_same]
    exact ((h.kept k hk).poll hlock hanswer hlatest).mono False.elim
  · show Kept _ ((st.set n ((st.methods n).poll waker)).methods k)
    rw [set_other st hsame]
    refine (h.kept k hk).mono ?_
    rintro ⟨waker', hpolling⟩
    rw [hbus] at hpolling
    cases hpolling
    exact absurd rfl hsame

section

variable [DecidableEq W]

theorem step_inv {st st' : State T W} {act : Act T W} (h : Inv st)
    (hstep : step st act = some st') : Inv st' := by
  cases act with
  | call spawned =>
    simp only [step] at hstep
    split at hstep
    · next hidle =>
      cases hstep
      exact h.call hidle spawned
    · cases hstep
  | work n outcome =>
    simp only [step] at hstep
    split at hstep
    · next hworker =>
      split at hstep
      · cases hstep
        refine h.works (fun _ hkept => ?_) rfl rfl
        unfold Kept at hkept
        rw [hworker] at hkept
        exact ⟨hkept.1, rfl, hkept.2.2⟩
      · cases hstep
    · cases hstep
  | store n =>
    simp only [step] at hstep
    split at hstep
    · next outcome hworker =>
      cases hstep
      refine h.works (fun _ hkept => ?_) rfl rfl
      unfold Kept at hkept
      rw [hworker] at hkept
      obtain ⟨hanswer, houtcome, -, hawaited⟩ := hkept
      exact ⟨⟨hanswer, by rw [houtcome]; rfl, houtcome.symm⟩, hawaited⟩
    · cases hstep
  | wake n =>
    simp only [step] at hstep
    split at hstep
    · next hworker =>
      cases hstep
      exact h.works (fun _ hkept => hkept.wake hworker) rfl rfl
    · cases hstep
  | release n =>
    simp only [step] at hstep
    split at hstep
    · next hworker =>
      cases hstep
      refine h.works (fun _ hkept => ?_) rfl rfl
      unfold Kept at hkept
      rw [hworker] at hkept
      exact .inl hkept
    · cases hstep
  | pick n waker =>
    simp only [step] at hstep
    split at hstep
    · next hidle =>
      split at hstep
      · next hpick =>
        cases hstep
        exact h.start hidle hpick.1 hpick.2.1 waker
      · cases hstep
    · cases hstep
  | spurious n waker =>
    simp only [step] at hstep
    split at hstep
    · next hidle =>
      split at hstep
      · next hpick =>
        cases hstep
        exact h.start hidle hpick.1 hpick.2 waker
      · cases hstep
    · cases hstep
  | poll =>
    simp only [step] at hstep
    split at hstep
    · cases hstep
    · next n waker hbus =>
      split at hstep
      · cases hstep
      · next hlock =>
        cases hstep
        exact h.poll hbus (Bool.eq_false_iff.mpr hlock)

theorem run_inv {acts : List (Act T W)} {st : State T W}
    (hrun : runs step .new acts = some st) : Inv st :=
  runs_invariant step (fun _ _ _ => step_inv) new_inv hrun

/-! ### Getting there -/

/-- What the bus thread and a worker whose work is over do of themselves. -/
def Act.settles : Act T W → Bool
  | .store _ | .wake _ | .release _ | .pick _ _ | .poll => true
  | .call _ | .work _ _ | .spurious _ _ => false

/-- So many such steps can answer the method. -/
def Reaches (n : Nat) (outcome : Option T) (k : Nat) (st : State T W) : Prop :=
  ∃ acts st', acts.length ≤ k ∧ (∀ act ∈ acts, act.settles = true) ∧
    runs step st acts = some st' ∧ (st'.methods n).answer = some outcome

theorem Reaches.now {n : Nat} {outcome : Option T} {st : State T W}
    (h : (st.methods n).answer = some outcome) : Reaches n outcome 0 st :=
  ⟨[], st, Nat.le_refl 0, List.forall_mem_nil _, rfl, h⟩

theorem Reaches.after {n k : Nat} {outcome : Option T} {st st' : State T W} {act : Act T W}
    (hstep : step st act = some st') (hsettles : act.settles = true)
    (h : Reaches n outcome k st') : Reaches n outcome (k + 1) st := by
  obtain ⟨acts, last, hlength, hall, hrun, hanswer⟩ := h
  refine ⟨act :: acts, last, Nat.succ_le_succ hlength, ?_, ?_, hanswer⟩
  · exact List.forall_mem_cons.mpr ⟨hsettles, hall⟩
  · rw [runs, hstep]
    exact hrun

theorem Reaches.le {n k k' : Nat} {outcome : Option T} {st : State T W}
    (h : Reaches n outcome k st) (hle : k ≤ k') : Reaches n outcome k' st := by
  obtain ⟨acts, last, hlength, hall, hrun, hanswer⟩ := h
  exact ⟨acts, last, Nat.le_trans hlength hle, hall, hrun, hanswer⟩

variable {st : State T W} {n : Nat} {outcome : Option T}

theorem reaches_of_gone (h : Inv st) (hn : n < st.called) (waker : W)
    (houtcome : (st.methods n).outcome = some outcome) (hworker : (st.methods n).worker = .gone)
    (hbus : st.bus = .idle ∨ st.Polls n) : Reaches n outcome 2 st := by
  -- The poll that takes the result.
  have hpoll : ∀ {t : State T W} {waker : W}, t.bus = .polling n waker →
      (t.methods n).worker = .gone → (t.methods n).result = some outcome →
      Reaches n outcome 1 t := by
    intro t waker hbus hworker hresult
    have hstep : step t .poll = some { t.set n { t.methods n with
        result := none, answer := some outcome } with bus := .idle } := by
      simp [step, hbus, hworker, Worker.holdsLock, Method.poll, hresult]
    refine .after hstep rfl (.now ?_)
    show ((t.set n _).methods n).answer = _
    rw [set_same]
  have hkept := h.kept n hn
  unfold Kept at hkept
  rw [hworker] at hkept
  rcases hkept with ⟨⟨hanswer, -, hleft⟩, hnext⟩ | ⟨-, hanswer, -⟩
  · have hresult := hleft.trans houtcome
    rcases hbus with hidle | ⟨waker', hpolling⟩
    · have hscheduled : (st.methods n).scheduled = true := by
        rcases hnext with hscheduled | ⟨waker', hpolling⟩
        · exact hscheduled
        · rw [hidle] at hpolling
          cases hpolling
      have hpick : step st (.pick n waker) = some (st.start n waker) := by
        simp only [step, hidle]
        exact if_pos ⟨hn, hanswer, hscheduled⟩
      have hmethod : (st.start n waker).methods n =
          { st.methods n with scheduled := false, latest := some waker } := set_same _ _ _
      refine .after hpick rfl (hpoll rfl ?_ ?_)
      · rw [hmethod]
        exact hworker
      · rw [hmethod]
        exact hresult
    · exact (hpoll hpolling hworker hresult).le (by decide)
  · exact (Reaches.now (hanswer.trans houtcome)).le (by decide)

/-- The worker's own steps, when the bus thread does not stand elsewhere. -/
theorem reaches_of_free (h : Inv st) (hn : n < st.called) (waker : W)
    (houtcome : (st.methods n).outcome = some outcome) (hbus : st.bus = .idle ∨ st.Polls n) :
    Reaches n outcome 5 st := by
  have hwoken : ∀ {t : State T W}, Inv t → n < t.called → (t.methods n).outcome = some outcome →
      (t.bus = .idle ∨ t.Polls n) → (t.methods n).worker = .woken → Reaches n outcome 3 t := by
    intro t ht hlt hover hfree hworker
    have hrelease : step t (.release n) =
        some (t.set n { t.methods n with worker := .gone }) := by
      simp only [step, hworker]
    refine .after hrelease rfl (reaches_of_gone (step_inv ht hrelease) hlt waker ?_ ?_ hfree)
    · rw [set_same]
      exact hover
    · rw [set_same]
  have hstored : ∀ {t : State T W}, Inv t → n < t.called → (t.methods n).outcome = some outcome →
      (t.bus = .idle ∨ t.Polls n) → (t.methods n).worker = .stored → Reaches n outcome 4 t := by
    intro t ht hlt hover hfree hworker
    have hwake : step t (.wake n) = some (t.set n (t.methods n).wake) := by
      simp only [step, hworker]
    refine .after hwake rfl (hwoken (step_inv ht hwake) hlt ?_ hfree ?_)
    · rw [set_same]
      exact hover
    · rw [set_same]
      rfl
  have hkept := h.kept n hn
  unfold Kept at hkept
  cases hworker : (st.methods n).worker with
  | working =>
    rw [hworker] at hkept
    rw [hkept.2.1] at houtcome
    cases houtcome
  | finished outcome' =>
    have hstore : step st (.store n) =
        some (st.set n { st.methods n with worker := .stored, result := some outcome' }) := by
      simp only [step, hworker]
    refine .after hstore rfl (hstored (step_inv h hstore) hn ?_ hbus ?_)
    · rw [set_same]
      exact houtcome
    · rw [set_same]
  | stored => exact (hstored h hn houtcome hbus hworker).le (by decide)
  | woken => exact (hwoken h hn houtcome hbus hworker).le (by decide)
  | gone => exact (reaches_of_gone h hn waker houtcome hworker hbus).le (by decide)

/-- The bus thread gets through the poll it is at, of whatever method. -/
theorem reaches (h : Inv st) (hn : n < st.called) (waker : W)
    (houtcome : (st.methods n).outcome = some outcome) : Reaches n outcome 8 st := by
  cases hbus : st.bus with
  | idle => exact (reaches_of_free h hn waker houtcome (.inl hbus)).le (by decide)
  | polling k waker' =>
    by_cases hsame : k = n
    · subst hsame
      exact (reaches_of_free h hn waker houtcome (.inr ⟨waker', hbus⟩)).le (by decide)
    · have hother : n ≠ k := Ne.symm hsame
      have hpoll : ∀ {t : State T W}, Inv t → n < t.called →
          (t.methods n).outcome = some outcome → t.bus = .polling k waker' →
          (t.methods k).worker.holdsLock = false → Reaches n outcome 6 t := by
        intro t ht hlt hover hpolling hlock
        have hstep : step t .poll =
            some { t.set k ((t.methods k).poll waker') with bus := .idle } := by
          simp [step, hpolling, hlock]
        refine .after hstep rfl (reaches_of_free (step_inv ht hstep) hlt waker ?_ (.inl rfl))
        show ((t.set k _).methods n).outcome = _
        rw [set_other t hother]
        exact hover
      have hwoken : ∀ {t : State T W}, Inv t → n < t.called →
          (t.methods n).outcome = some outcome → t.bus = .polling k waker' →
          (t.methods k).worker = .woken → Reaches n outcome 7 t := by
        intro t ht hlt hover hpolling hworker
        have hrelease : step t (.release k) =
            some (t.set k { t.methods k with worker := .gone }) := by
          simp only [step, hworker]
        refine .after hrelease rfl (hpoll (step_inv ht hrelease) hlt ?_ hpolling ?_)
        · rw [set_other t hother]
          exact hover
        · rw [set_same]
          rfl
      cases hworker : (st.methods k).worker with
      | stored =>
        have hwake : step st (.wake k) = some (st.set k (st.methods k).wake) := by
          simp only [step, hworker]
        refine .after hwake rfl (hwoken (step_inv h hwake) hn ?_ hbus ?_)
        · rw [set_other st hother]
          exact houtcome
        · rw [set_same]
          rfl
      | woken => exact (hwoken h hn houtcome hbus hworker).le (by decide)
      | working => exact (hpoll h hn houtcome hbus (by rw [hworker]; rfl)).le (by decide)
      | finished => exact (hpoll h hn houtcome hbus (by rw [hworker]; rfl)).le (by decide)
      | gone => exact (hpoll h hn houtcome hbus (by rw [hworker]; rfl)).le (by decide)

/-! ### What the work came to -/

def Act.called? : Act T W → Option Bool
  | .call spawned => some spawned
  | _ => none

/-- Work ends this way in the run, be it that it never began. -/
def Came (acts : List (Act T W)) (n : Nat) (outcome : Option T) : Prop :=
  .work n outcome ∈ acts ∨ outcome = none ∧ (acts.filterMap Act.called?)[n]? = some false

/-- The outcomes in a state are those of the run. -/
structure Traced (acts : List (Act T W)) (st : State T W) : Prop where
  inv : Inv st
  called : (acts.filterMap Act.called?).length = st.called
  begun : ∀ n outcome, .work n outcome ∈ acts → n < st.called
  came : ∀ n < st.called, ∀ outcome, (st.methods n).outcome = some outcome ↔ Came acts n outcome

omit [DecidableEq W] in
theorem came_append_of_ne {acts : List (Act T W)} {act : Act T W} (hcall : act.called? = none)
    (hwork : act ≠ .work n outcome) : Came (acts ++ [act]) n outcome ↔ Came acts n outcome := by
  have hmem : .work n outcome ∈ acts ++ [act] ↔ .work n outcome ∈ acts := by
    rw [List.mem_append, List.mem_singleton]
    exact or_iff_left (Ne.symm hwork)
  rw [Came, Came, hmem, List.filterMap_append, List.filterMap_cons_none hcall,
    List.filterMap_nil, List.append_nil]

omit [DecidableEq W] in
/-- A step that ends no work and calls no method. -/
theorem Traced.quiet {acts : List (Act T W)} {st st' : State T W} (h : Traced acts st)
    {act : Act T W} (hinv : Inv st') (hcall : act.called? = none)
    (hwork : ∀ n outcome, act ≠ .work n outcome) (hcalled : st'.called = st.called)
    (houtcome : ∀ n, (st'.methods n).outcome = (st.methods n).outcome) :
    Traced (acts ++ [act]) st' where
  inv := hinv
  called := by
    rw [List.filterMap_append, List.filterMap_cons_none hcall, List.filterMap_nil,
      List.append_nil, hcalled, h.called]
  begun n outcome hmem := by
    rcases List.mem_append.mp hmem with hbefore | hnow
    · rw [hcalled]
      exact h.begun n outcome hbefore
    · exact absurd (List.mem_singleton.mp hnow).symm (hwork n outcome)
  came n hn outcome := by
    rw [houtcome, came_append_of_ne hcall (hwork n outcome)]
    exact h.came n (hcalled ▸ hn) outcome

omit [DecidableEq W] in
theorem outcome_set {st : State T W} {n : Nat} {m : Method T W}
    (h : m.outcome = (st.methods n).outcome) (k : Nat) :
    ((st.set n m).methods k).outcome = (st.methods k).outcome := by
  by_cases hsame : k = n
  · subst hsame
    rw [set_same, h]
  · rw [set_other st hsame]

omit [DecidableEq W] in
theorem Traced.work {acts : List (Act T W)} {st : State T W} (h : Traced acts st) {n : Nat}
    {outcome : Option T} (hworker : (st.methods n).worker = .working) (hn : n < st.called)
    (hinv : Inv (st.set n ((st.methods n).over outcome))) :
    Traced (acts ++ [.work n outcome]) (st.set n ((st.methods n).over outcome)) := by
  have hkept := h.inv.kept n hn
  unfold Kept at hkept
  rw [hworker] at hkept
  refine ⟨hinv, ?_, ?_, ?_⟩
  · rw [List.filterMap_append, List.filterMap_cons_none rfl, List.filterMap_nil, List.append_nil]
    exact h.called
  · intro k other hmem
    rcases List.mem_append.mp hmem with hbefore | hnow
    · exact h.begun k other hbefore
    · cases List.mem_singleton.mp hnow
      exact hn
  · intro k hk other
    by_cases hsame : k = n
    · subst hsame
      -- No outcome was there before, so none has come in the run.
      have hnone : ¬ Came acts k other := by
        rw [← h.came k hk, hkept.2.1]
        exact Option.some_ne_none other ∘ Eq.symm
      rw [set_same]
      constructor
      · rintro ⟨⟩
        exact .inl (List.mem_append_right _ List.mem_cons_self)
      · rintro (hmem | ⟨hpanic, hcall⟩)
        · rcases List.mem_append.mp hmem with hbefore | hnow
          · exact absurd (.inl hbefore) hnone
          · cases List.mem_singleton.mp hnow
            rfl
        · rw [List.filterMap_append, List.filterMap_cons_none rfl, List.filterMap_nil,
            List.append_nil] at hcall
          exact absurd (.inr ⟨hpanic, hcall⟩) hnone
    · rw [set_other st hsame, came_append_of_ne rfl (by rintro ⟨⟩; exact hsame rfl)]
      exact h.came k hk other

omit [DecidableEq W] in
theorem Traced.call {acts : List (Act T W)} {st : State T W} (h : Traced acts st)
    (spawned : Bool)
    (hinv : Inv { st.set st.called (unblock spawned) with called := st.called + 1 }) :
    Traced (acts ++ [.call spawned])
      { st.set st.called (unblock spawned) with called := st.called + 1 } := by
  have hcalls : (acts ++ [Act.call spawned]).filterMap Act.called? =
      acts.filterMap Act.called? ++ [spawned] := List.filterMap_append
  have hwork : ∀ k other, Act.work k other ∈ acts ++ [Act.call spawned] ↔
      .work k other ∈ acts := by
    intro k other
    rw [List.mem_append, List.mem_singleton]
    exact or_iff_left (by rintro ⟨⟩)
  refine ⟨hinv, ?_, ?_, ?_⟩
  · rw [hcalls, List.length_append, h.called]
    rfl
  · intro k other hmem
    exact Nat.lt_succ_of_lt (h.begun k other ((hwork k other).mp hmem))
  · intro k hk other
    rw [Came, hwork, hcalls]
    rcases Nat.lt_succ_iff_lt_or_eq.mp hk with hbefore | rfl
    · show ((st.set st.called _).methods k).outcome = _ ↔ _
      rw [set_other st (Nat.ne_of_lt hbefore), List.getElem?_append_left (by rwa [h.called])]
      exact h.came k hbefore other
    · show ((st.set st.called _).methods st.called).outcome = _ ↔ _
      have hnever : .work st.called other ∉ acts :=
        fun hmem => Nat.lt_irrefl _ (h.begun _ _ hmem)
      have hlast : (acts.filterMap Act.called? ++ [spawned])[st.called]? = some spawned := by
        rw [← h.called, List.getElem?_concat_length]
      rw [set_same, hlast, or_iff_right hnever]
      cases spawned with
      | true => simp [unblock]
      | false => simp [unblock, eq_comm]

theorem traced_step {acts : List (Act T W)} {st st' : State T W} {act : Act T W}
    (h : Traced acts st) (hstep : step st act = some st') : Traced (acts ++ [act]) st' := by
  have hinv := step_inv h.inv hstep
  cases act with
  | call spawned =>
    simp only [step] at hstep
    split at hstep
    · cases hstep
      exact h.call spawned hinv
    · cases hstep
  | work n outcome =>
    simp only [step] at hstep
    split at hstep
    · next hworker =>
      split at hstep
      · next hn =>
        cases hstep
        exact h.work hworker hn hinv
      · cases hstep
    · cases hstep
  | store n | wake n | release n =>
    simp only [step] at hstep
    split at hstep
    · cases hstep
      exact h.quiet hinv rfl (by rintro _ _ ⟨⟩) rfl (outcome_set rfl)
    · cases hstep
  | pick n waker | spurious n waker =>
    simp only [step] at hstep
    split at hstep
    · split at hstep
      · cases hstep
        exact h.quiet hinv rfl (by rintro _ _ ⟨⟩) rfl (outcome_set rfl)
      · cases hstep
    · cases hstep
  | poll =>
    simp only [step] at hstep
    split at hstep
    · cases hstep
    · next n waker _ =>
      split at hstep
      · cases hstep
      · cases hstep
        refine h.quiet hinv rfl (by rintro _ _ ⟨⟩) rfl (outcome_set ?_)
        unfold Method.poll
        split <;> rfl

theorem traced_runs {acts : List (Act T W)} {st : State T W}
    (hrun : runs step .new acts = some st) : Traced acts st :=
  runs_induction step (P := Traced) ⟨new_inv, rfl, by simp, fun n h => absurd h (Nat.not_lt_zero n)⟩
    (fun _ _ _ _ h hstep => traced_step h hstep) hrun

/-- The worker will still look for a waker. -/
def Worker.wakes : Worker T → Bool
  | .working | .finished _ | .stored => true
  | .woken | .gone => false

/-- A method whose work ends after it was first polled, and one whose thread could not be
    started. -/
def twoMethods : List (Act Nat Unit) :=
  [.call true, .call false, .pick 0 (), .poll, .work 0 (some 42), .store 0, .pick 1 (), .wake 0]

end

end AiDaemon.Unblock
