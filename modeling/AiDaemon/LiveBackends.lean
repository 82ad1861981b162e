import AiDaemon.Turn
import AiDaemon.Transition
import Mathlib.Data.Fintype.Basic

/-!
# The live backends (`state.rs`: `Backends::get`, `Preemptor for Backends`)

`get` looks a backend up by its name under the lock, spawns it outside the lock when
none is live and takes the lock again to put it into the map.  A handle it returns is
kept: requests are begun through it long after.  Pausing, resuming and dropping a cache
go the other way, from the name, so they reach whatever the map holds at that moment.

A step is a region between which other threads can run, and a backend is the number of
its spawn.  Two calls that both find nothing spawn twice, and the later insertion
takes the map's entry from the other (`overlapping_gets_differ`).  Where no call looks
while another is on its way to an insertion, one backend serves the name
(`one_live_backend`).
-/

namespace AiDaemon.LiveBackends

open Ledger Proto Transition

variable {τ F J : Type}

/-! ### The source -/

/-- Where a thread stands in `get`. -/
inductive Getting where
  | idle
  | looking (name : Text)
  | spawning (name : Text)
  | inserting (name : Text) (handle : Nat)
  | answered (result : Except Text Nat)

/-- A request, by the name its session has for the backend and the handle it was
    begun through. -/
structure Begun where
  name : Text
  handle : Nat
  reqId : UInt64
deriving DecidableEq, Repr

structure Backends (τ : Type) where
  live : Table Text Nat
  /-- How many backends have been spawned. -/
  spawned : Nat
  alive : Nat → Bool
  /-- The counter of each backend. -/
  nextReq : Nat → UInt64
  gets : τ → Getting
  /-- The handles returned, each with the name it was asked for by. -/
  returned : List (Text × Nat)
  /-- Newest first. -/
  begun : List Begun

def Backends.new : Backends τ where
  live := ∅
  spawned := 0
  alive := fun _ => true
  nextReq := fun _ => 1
  gets := fun _ => .idle
  returned := []
  begun := []

inductive Action (τ : Type) where
  | call (thread : τ) (name : Text)
  | look (thread : τ)
  | spawn (thread : τ) (result : Except Text Unit)
  | insert (thread : τ)
  | begin (name : Text) (handle : Nat)
  | die (handle : Nat)

def notConfiguredText (isEscaped : Char → Bool) (name : Text) : Text :=
  "no backend named ".toList ++ Turn.quoted isEscaped name ++ " is configured".toList

variable [DecidableEq τ]

def Backends.enter (st : Backends τ) (thread : τ) (next : Getting) : Backends τ :=
  { st with gets := Function.update st.gets thread next }

/-- The live entry that `get` would return. -/
def Backends.usable (st : Backends τ) (name : Text) : Option Nat :=
  match st.live.lookup name with
  | some handle => if st.alive handle then some handle else none
  | none => none

/-- `specs` are the names of the enabled backends. -/
def getStep (isEscaped : Char → Bool) (specs : List Text) (st : Backends τ) :
    Action τ → Option (Backends τ)
  | .call thread name =>
    match st.gets thread with
    | .idle | .answered _ => some (st.enter thread (.looking name))
    | _ => none
  | .look thread =>
    match st.gets thread with
    | .looking name =>
      match st.usable name with
      | some handle =>
        some { st.enter thread (.answered (.ok handle)) with
          returned := (name, handle) :: st.returned }
      | none =>
        -- the lock is released here
        if name ∈ specs then some (st.enter thread (.spawning name))
        else some (st.enter thread (.answered (.error (notConfiguredText isEscaped name))))
    | _ => none
  | .spawn thread result =>
    match st.gets thread with
    | .spawning name =>
      match result with
      | .ok () =>
        some { st.enter thread (.inserting name st.spawned) with spawned := st.spawned + 1 }
      | .error e => some (st.enter thread (.answered (.error e)))
    | _ => none
  | .insert thread =>
    match st.gets thread with
    | .inserting name handle =>
      some { st.enter thread (.answered (.ok handle)) with
        live := st.live.insert name handle
        returned := (name, handle) :: st.returned }
    | _ => none
  | .begin name handle =>
    if (name, handle) ∈ st.returned then
      some { st with
        nextReq := Function.update st.nextReq handle (st.nextReq handle + 1)
        begun := ⟨name, handle, st.nextReq handle⟩ :: st.begun }
    else none
  | .die handle =>
    if handle < st.spawned then
      some { st with alive := Function.update st.alive handle false }
    else none

omit [DecidableEq τ] in
/-- `set_paused`: the backend a message goes to, and the message. -/
def setPaused (st : Backends τ) (backend : Text) (reqId : UInt64) (paused : Bool) :
    Option (Nat × BackendRequest F J) :=
  match st.live.lookup backend with
  | some handle => some (handle, if paused then .pause reqId else .resume reqId)
  | none => none

omit [DecidableEq τ] in
def dropCache (st : Backends τ) (backend session : Text) : Option (Nat × BackendRequest F J) :=
  match st.live.lookup backend with
  | some handle => some (handle, .dropCache session)
  | none => none

/-! ### One backend per name -/

/-- On its way from a lookup that found nothing to the insertion. -/
def Getting.opens (name : Text) : Getting → Bool
  | spawning n | inserting n _ => decide (n = name)
  | idle | looking _ | answered _ => false

/-- How many requests were begun on a backend. -/
def begins (handle : Nat) (begun : List Begun) : Nat :=
  begun.countP fun b => decide (b.handle = handle)

/-- The name it is about to look up. -/
def Getting.asks : Getting → Option Text
  | looking name => some name
  | idle | spawning _ | inserting _ _ | answered _ => none

/-- Nobody looks and finds nothing while another call is on its way to the insertion,
    and the counter of ids does not go round. -/
def Apart (st : Backends τ) : Action τ → Prop
  | .look thread =>
    ∀ name ∈ (st.gets thread).asks, st.usable name = none →
      ∀ other, (st.gets other).opens name = false
  | .begin _ handle => begins handle st.begun < 2 ^ 64
  | _ => True

/-- All calls for a name have returned one backend, the requests begun through it are
    where the name leads, and a name with an id is one request. -/
structure OneLive (F J : Type) (st : Backends τ) : Prop where
  same : ∀ name i j, (name, i) ∈ st.returned → (name, j) ∈ st.returned → i = j
  paused : ∀ b ∈ st.begun, ∀ paused, setPaused (F := F) (J := J) st b.name b.reqId paused =
    some (b.handle, if paused then .pause b.reqId else .resume b.reqId)
  dropped : ∀ b ∈ st.begun, ∀ session, dropCache (F := F) (J := J) st b.name session =
    some (b.handle, .dropCache session)
  identifies : (st.begun.map fun b => (b.name, b.reqId)).Nodup

/-- What an enabled step finds and leaves. -/
inductive Stepped (isEscaped : Char → Bool) (specs : List Text) (st : Backends τ) :
    Action τ → Backends τ → Prop where
  | call (thread : τ) (name : Text) (hidle : ∀ n, (st.gets thread).opens n = false) :
      Stepped isEscaped specs st (.call thread name) (st.enter thread (.looking name))
  | hit (thread : τ) (name : Text) (handle : Nat) (hget : st.gets thread = .looking name)
      (husable : st.usable name = some handle) :
      Stepped isEscaped specs st (.look thread)
        { st.enter thread (.answered (.ok handle)) with
          returned := (name, handle) :: st.returned }
  | miss (thread : τ) (name : Text) (hget : st.gets thread = .looking name)
      (husable : st.usable name = none) :
      Stepped isEscaped specs st (.look thread) (st.enter thread (.spawning name))
  | unknown (thread : τ) (name : Text) (hget : st.gets thread = .looking name) :
      Stepped isEscaped specs st (.look thread)
        (st.enter thread (.answered (.error (notConfiguredText isEscaped name))))
  | spawn (thread : τ) (name : Text) (hget : st.gets thread = .spawning name) :
      Stepped isEscaped specs st (.spawn thread (.ok ()))
        { st.enter thread (.inserting name st.spawned) with spawned := st.spawned + 1 }
  | unspawned (thread : τ) (name e : Text) (hget : st.gets thread = .spawning name) :
      Stepped isEscaped specs st (.spawn thread (.error e))
        (st.enter thread (.answered (.error e)))
  | insert (thread : τ) (name : Text) (handle : Nat)
      (hget : st.gets thread = .inserting name handle) :
      Stepped isEscaped specs st (.insert thread)
        { st.enter thread (.answered (.ok handle)) with
          live := st.live.insert name handle
          returned := (name, handle) :: st.returned }
  | begin (name : Text) (handle : Nat) (hreturned : (name, handle) ∈ st.returned) :
      Stepped isEscaped specs st (.begin name handle)
        { st with
          nextReq := Function.update st.nextReq handle (st.nextReq handle + 1)
          begun := ⟨name, handle, st.nextReq handle⟩ :: st.begun }
  | die (handle : Nat) :
      Stepped isEscaped specs st (.die handle)
        { st with alive := Function.update st.alive handle false }

theorem stepped_of_getStep {isEscaped : Char → Bool} {specs : List Text} {st next : Backends τ}
    {a : Action τ} (hstep : getStep isEscaped specs st a = some next) :
    Stepped isEscaped specs st a next := by
  cases a with
  | call thread name =>
    simp only [getStep] at hstep
    split at hstep <;> simp only [Option.some.injEq, reduceCtorEq] at hstep
    all_goals
      rename_i hget
      exact hstep ▸ .call thread name (by simp [hget, Getting.opens])
  | look thread =>
    simp only [getStep] at hstep
    split at hstep
    case h_2 => simp at hstep
    rename_i name hget
    split at hstep
    · rename_i handle husable
      simp only [Option.some.injEq] at hstep
      exact hstep ▸ .hit thread name handle hget husable
    · rename_i husable
      split at hstep <;> simp only [Option.some.injEq] at hstep
      · exact hstep ▸ .miss thread name hget husable
      · exact hstep ▸ .unknown thread name hget
  | spawn thread result =>
    simp only [getStep] at hstep
    split at hstep
    case h_2 => simp at hstep
    rename_i name hget
    cases result with
    | ok =>
      simp only [Option.some.injEq] at hstep
      exact hstep ▸ .spawn thread name hget
    | error e =>
      simp only [Option.some.injEq] at hstep
      exact hstep ▸ .unspawned thread name e hget
  | insert thread =>
    simp only [getStep] at hstep
    split at hstep <;> simp only [Option.some.injEq, reduceCtorEq] at hstep
    rename_i name handle hget
    exact hstep ▸ .insert thread name handle hget
  | begin name handle =>
    simp only [getStep] at hstep
    split at hstep <;> simp only [Option.some.injEq, reduceCtorEq] at hstep
    rename_i hreturned
    exact hstep ▸ .begin name handle hreturned
  | die handle =>
    simp only [getStep] at hstep
    split at hstep <;> simp only [Option.some.injEq, reduceCtorEq] at hstep
    exact hstep ▸ .die handle

/-! ### The invariant -/

structure LiveInv (st : Backends τ) : Prop where
  alive : ∀ handle, st.alive handle = true
  returned : ∀ name handle, (name, handle) ∈ st.returned → st.live.lookup name = some handle
  /-- One call at a time opens a backend, and it is not there yet. -/
  opening : ∀ thread name, (st.gets thread).opens name = true →
    st.live.lookup name = none ∧ ∀ other, (st.gets other).opens name = true → other = thread
  begun : ∀ b ∈ st.begun, (b.name, b.handle) ∈ st.returned
  counter : ∀ handle, st.nextReq handle = .ofNat (begins handle st.begun + 1)
  ids : ∀ b ∈ st.begun, ∃ k < begins b.handle st.begun, b.reqId = .ofNat (k + 1)
  nodup : (st.begun.map fun b => (b.name, b.reqId)).Nodup

omit [DecidableEq τ] in
theorem liveInv_new : LiveInv (Backends.new : Backends τ) where
  alive _ := rfl
  returned := by simp [Backends.new]
  opening := by simp [Backends.new, Getting.opens]
  begun := by simp [Backends.new]
  counter _ := rfl
  ids := by simp [Backends.new]
  nodup := by simp [Backends.new]

/-- The first 2^64 ids of a counter differ. -/
theorem id_inj {m n : Nat} (hm : m < 2 ^ 64) (hn : n < 2 ^ 64)
    (h : UInt64.ofNat (m + 1) = UInt64.ofNat (n + 1)) : m = n := by
  have hnat := congrArg UInt64.toNat h
  simp only [UInt64.toNat_ofNat'] at hnat
  omega

theorem begins_cons (handle : Nat) (b : Begun) (begun : List Begun) :
    begins handle (b :: begun) = begins handle begun + if b.handle = handle then 1 else 0 := by
  simp [begins, List.countP_cons]

variable {st : Backends τ}

omit [DecidableEq τ] in
theorem LiveInv.usable (h : LiveInv st) (name : Text) : st.usable name = st.live.lookup name := by
  unfold Backends.usable
  split
  · rename_i handle hlookup
    rw [h.alive, if_pos rfl, hlookup]
  · rename_i hlookup
    exact hlookup.symm

theorem enter_gets_self {thread : τ} {g : Getting} : (st.enter thread g).gets thread = g := by
  simp [Backends.enter]

theorem enter_gets_of_ne {thread other : τ} {g : Getting} (h : other ≠ thread) :
    (st.enter thread g).gets other = st.gets other := by
  simp [Backends.enter, h]

/-- A thread that moves on opens nothing it was not opening. -/
theorem LiveInv.enter (h : LiveInv st) {thread : τ} {g : Getting}
    (hopens : ∀ name, g.opens name = true → (st.gets thread).opens name = true) :
    LiveInv (st.enter thread g) where
  alive := h.alive
  returned := h.returned
  opening := by
    have before : ∀ other name, ((st.enter thread g).gets other).opens name = true →
        (st.gets other).opens name = true := by
      intro other name hother
      rcases eq_or_ne other thread with rfl | hne
      · rw [enter_gets_self] at hother
        exact hopens name hother
      · rwa [enter_gets_of_ne hne] at hother
    intro other name hother
    obtain ⟨hnone, hunique⟩ := h.opening other name (before other name hother)
    exact ⟨hnone, fun third hthird => hunique third (before third name hthird)⟩
  begun := h.begun
  counter := h.counter
  ids := h.ids
  nodup := h.nodup

omit [DecidableEq τ] in
/-- A handle that the map holds may be returned. -/
theorem LiveInv.return (h : LiveInv st) {name : Text} {handle : Nat}
    (hlookup : st.live.lookup name = some handle) :
    LiveInv { st with returned := (name, handle) :: st.returned } where
  alive := h.alive
  returned n i hmem := by
    rcases List.mem_cons.mp hmem with hnew | hold
    · cases hnew
      exact hlookup
    · exact h.returned n i hold
  opening := h.opening
  begun b hb := List.mem_cons_of_mem _ (h.begun b hb)
  counter := h.counter
  ids := h.ids
  nodup := h.nodup

/-- The one call that found nothing takes the name from where it still is nothing. -/
theorem LiveInv.miss (h : LiveInv st) {thread : τ} {name : Text}
    (hnone : st.live.lookup name = none) (hapart : ∀ other, (st.gets other).opens name = false) :
    LiveInv (st.enter thread (.spawning name)) where
  alive := h.alive
  returned := h.returned
  opening other n hother := by
    rcases eq_or_ne other thread with rfl | hne
    · rw [enter_gets_self] at hother
      have hname : name = n := of_decide_eq_true hother
      subst hname
      refine ⟨hnone, fun third hthird => ?_⟩
      by_contra hne
      rw [enter_gets_of_ne hne, hapart third] at hthird
      cases hthird
    · rw [enter_gets_of_ne hne] at hother
      obtain ⟨hfree, hunique⟩ := h.opening other n hother
      refine ⟨hfree, fun third hthird => ?_⟩
      rcases eq_or_ne third thread with rfl | hthird'
      · rw [enter_gets_self] at hthird
        have hname : name = n := of_decide_eq_true hthird
        rw [← hname, hapart other] at hother
        cases hother
      · rw [enter_gets_of_ne hthird'] at hthird
        exact hunique third hthird
  begun := h.begun
  counter := h.counter
  ids := h.ids
  nodup := h.nodup

theorem LiveInv.insert (h : LiveInv st) {thread : τ} {name : Text} {handle : Nat}
    (hget : st.gets thread = .inserting name handle) :
    LiveInv { st.enter thread (.answered (.ok handle)) with
      live := st.live.insert name handle
      returned := (name, handle) :: st.returned } := by
  have hopens : (st.gets thread).opens name = true := by simp [hget, Getting.opens]
  obtain ⟨hnone, hunique⟩ := h.opening thread name hopens
  have hmoved : LiveInv (st.enter thread (.answered (.ok handle))) := by
    apply h.enter
    simp [Getting.opens]
  refine ⟨h.alive, fun n i hmem => ?_, fun other n hother => ?_, fun b hb => ?_, h.counter, h.ids,
    h.nodup⟩
  · rcases List.mem_cons.mp hmem with hnew | hold
    · cases hnew
      exact AList.lookup_insert _
    · have hlookup := h.returned n i hold
      have hne : n ≠ name := by
        rintro rfl
        rw [hnone] at hlookup
        cases hlookup
      exact (AList.lookup_insert_ne hne).trans hlookup
  · obtain ⟨hfree, hothers⟩ := hmoved.opening other n hother
    have hne : n ≠ name := by
      rintro rfl
      rcases eq_or_ne other thread with rfl | hother'
      · rw [enter_gets_self] at hother
        cases hother
      · rw [enter_gets_of_ne hother'] at hother
        exact hother' (hunique other hother)
    exact ⟨(AList.lookup_insert_ne hne).trans hfree, hothers⟩
  · exact List.mem_cons_of_mem _ (h.begun b hb)

omit [DecidableEq τ] in
/-- Below 2^64 the counter gives an id that no request of the backend has. -/
theorem LiveInv.begin (h : LiveInv st) {name : Text} {handle : Nat}
    (hreturned : (name, handle) ∈ st.returned) (hcount : begins handle st.begun < 2 ^ 64) :
    LiveInv { st with
      nextReq := Function.update st.nextReq handle (st.nextReq handle + 1)
      begun := ⟨name, handle, st.nextReq handle⟩ :: st.begun } where
  alive := h.alive
  returned := h.returned
  opening := h.opening
  begun b hb := by
    rcases List.mem_cons.mp hb with rfl | hold
    · exact hreturned
    · exact h.begun b hold
  counter i := by
    rw [begins_cons]
    rcases eq_or_ne i handle with rfl | hne
    · rw [if_pos rfl, UInt64.ofNat_add (begins i st.begun + 1) 1, ← h.counter]
      exact Function.update_self ..
    · rw [if_neg (Ne.symm hne)]
      exact (Function.update_of_ne hne ..).trans (h.counter i)
  ids b hb := by
    rw [begins_cons]
    rcases List.mem_cons.mp hb with rfl | hold
    · exact ⟨begins handle st.begun, by simp, h.counter handle⟩
    · obtain ⟨k, hk, hid⟩ := h.ids b hold
      exact ⟨k, by omega, hid⟩
  nodup := by
    refine List.nodup_cons.mpr ⟨fun hmem => ?_, h.nodup⟩
    obtain ⟨b, hb, hpair⟩ := List.mem_map.mp hmem
    simp only [Prod.mk.injEq] at hpair
    obtain ⟨rfl, hid⟩ := hpair
    -- the name leads both requests to one backend, whose ids are all different
    have hlookup := h.returned _ _ (h.begun b hb)
    rw [h.returned _ _ hreturned, Option.some.injEq] at hlookup
    subst hlookup
    obtain ⟨k, hk, hbid⟩ := h.ids b hb
    rw [h.counter, hbid] at hid
    have hsame := id_inj (by omega) hcount hid
    omega

theorem getStep_inv {isEscaped : Char → Bool} {specs : List Text} {next : Backends τ}
    {a : Action τ} (h : LiveInv st) (hapart : Apart st a) (hdie : ∀ handle, a ≠ .die handle)
    (hstep : getStep isEscaped specs st a = some next) : LiveInv next := by
  cases stepped_of_getStep hstep with
  | call thread name hidle =>
    apply h.enter
    simp [Getting.opens]
  | hit thread name handle hget husable =>
    have hmoved : LiveInv (st.enter thread (.answered (.ok handle))) := by
      apply h.enter
      simp [Getting.opens]
    rw [h.usable] at husable
    exact hmoved.return husable
  | miss thread name hget husable =>
    have hasks : name ∈ (st.gets thread).asks := by simp [hget, Getting.asks]
    exact h.miss ((h.usable name).symm.trans husable) (hapart name hasks husable)
  | unknown thread name hget =>
    apply h.enter
    simp [Getting.opens]
  | spawn thread name hget =>
    have hmoved : LiveInv (st.enter thread (.inserting name st.spawned)) := by
      apply h.enter
      intro n hn
      rw [hget]
      exact hn
    exact ⟨hmoved.alive, hmoved.returned, hmoved.opening, hmoved.begun, hmoved.counter, hmoved.ids,
      hmoved.nodup⟩
  | unspawned thread name e hget =>
    apply h.enter
    simp [Getting.opens]
  | insert thread name handle hget => exact h.insert hget
  | begin name handle hreturned => exact h.begin hreturned hapart
  | die handle => exact absurd rfl (hdie handle)

omit [DecidableEq τ] in
theorem LiveInv.oneLive (h : LiveInv st) (F J : Type) : OneLive F J st where
  same name i j hi hj := by
    have hlookup := h.returned name i hi
    rw [h.returned name j hj, Option.some.injEq] at hlookup
    exact hlookup.symm
  paused b hb paused := by
    rw [setPaused, h.returned _ _ (h.begun b hb)]
  dropped b hb session := by
    rw [dropCache, h.returned _ _ (h.begun b hb)]
  identifies := h.nodup

/-- In every run in which no call of `get` looks and finds nothing while another for
    the name is on its way to the insertion, and no backend is asked for more than
    2^64 ids, every name is one live backend. -/
theorem one_live_backend (F J : Type) {isEscaped : Char → Bool} {specs : List Text}
    {as : List (Action τ)} {st : Backends τ} (hdie : ∀ handle, .die handle ∉ as)
    (hapart : along (getStep isEscaped specs) Apart .new as)
    (hrun : runs (getStep isEscaped specs) .new as = some st) : OneLive F J st := by
  have hlives : ∀ a ∈ as, ∀ handle, a ≠ .die handle := fun a ha handle heq => hdie handle (heq ▸ ha)
  have halong := along_and _ hapart hlives
  have hinv : LiveInv st := runs_invariant_along (getStep isEscaped specs)
    (fun s a s' hs hC hstep => getStep_inv hs hC.1 hC.2 hstep) liveInv_new halong hrun
  exact hinv.oneLive F J

instance decidableApart [Fintype τ] (st : Backends τ) : ∀ a, Decidable (Apart st a)
  | .look thread => inferInstanceAs (Decidable (∀ name ∈ (st.gets thread).asks,
      st.usable name = none → ∀ other, (st.gets other).opens name = false))
  | .begin _ handle => inferInstanceAs (Decidable (begins handle st.begun < 2 ^ 64))
  | .call _ _ | .spawn _ _ | .insert _ | .die _ => inferInstanceAs (Decidable True)

/-- A whole call of `get`. -/
def gets (thread : Bool) : List (Action Bool) :=
  [.call thread "gpu".toList, .look thread, .spawn thread (.ok ()), .insert thread]

/-- The second session finds the first one's backend, and its request is there. -/
theorem second_session_same_backend :
    ∃ st : Backends Bool,
      runs (getStep (fun _ => false) ["gpu".toList]) .new
        (gets true ++ [.call false "gpu".toList, .look false, .begin "gpu".toList 0,
          .begin "gpu".toList 0]) = some st ∧
      OneLive Unit Unit st :=
  have hrun := rfl
  ⟨_, hrun, one_live_backend Unit Unit (by simp [gets]) (by decide +kernel) hrun⟩

/-- Two sessions opened at the same moment are on two backends. -/
theorem overlapping_gets_differ :
    ¬ ∀ (isEscaped : Char → Bool) (specs : List Text) (as : List (Action Bool))
    (st : Backends Bool),
      (∀ handle, .die handle ∉ as) → runs (getStep isEscaped specs) .new as = some st →
      OneLive Unit Unit st := by
  intro hall
  have hlive := hall (fun _ => false) ["gpu".toList]
    [.call true "gpu".toList, .call false "gpu".toList, .look true, .look false,
      .spawn true (.ok ()), .spawn false (.ok ()), .insert true, .insert false] _ (by simp) rfl
  have hsame := hlive.same "gpu".toList 1 0 List.mem_cons_self
    (List.mem_cons_of_mem _ List.mem_cons_self)
  cases hsame

end AiDaemon.LiveBackends
