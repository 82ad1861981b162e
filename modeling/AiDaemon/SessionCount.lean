import AiDaemon.CreateSession

/-!
# Session counts over whole runs

Any number of `CreateSession` calls are under way at once, each between its
`open_session` and the end of its wait for a backend, while the workers of
earlier sessions retire them.  The count the engine holds for an identity should
be the number of its sessions that are open: the ones in the daemon's map and
the ones still being opened.

It is, in every run in which no backend lookup fails while another session of
the same identity is open (`session_counts_match`).  A lookup that fails in such
a state gives two counts back, the second of them another session's
(`failed_lookup_uncounts`); with nothing else open the second finds a zero and
is lost in `saturating_sub`.
-/

namespace AiDaemon

open Ledger Policy Transition

structure CountState where
  daemon : Daemon
  /-- The calls waiting for a backend. -/
  opening : List Opening

def CountState.new : CountState := ⟨Daemon.new, []⟩

inductive CountStep where
  | begin (call : Call)
  | finish (index : Nat) (outcome : Outcome)
  | retire (id : Text)

def countStep (config : Config) (st : CountState) : CountStep → Option CountState
  | .begin call =>
    match beginSession config st.daemon call with
    | (d, .ok o) => some ⟨d, st.opening ++ [o]⟩
    | (d, .error _) => some { st with daemon := d }
  | .finish index outcome =>
    (st.opening[index]?).map fun o =>
      ⟨(finishSession st.daemon o outcome).1, st.opening.eraseIdx index⟩
  | .retire id =>
    (st.daemon.sessions.lookup id).map fun session =>
      { st with daemon := retire st.daemon session }

/-- A backend lookup fails only for the one session its identity has open. -/
def LookupAlone (st : CountState) : CountStep → Prop
  | .finish index outcome =>
    match st.opening[index]? with
    | some o => outcome.lookupOk = true ∨ countOf st.daemon.counts o.identity.key = 1
    | none => True
  | _ => True

instance (st : CountState) (a : CountStep) : Decidable (LookupAlone st a) :=
  match a with
  | .finish index outcome =>
    match h : st.opening[index]? with
    | some o =>
      decidable_of_iff (outcome.lookupOk = true ∨ countOf st.daemon.counts o.identity.key = 1)
        (by simp [LookupAlone, h])
    | none => isTrue (by simp [LookupAlone, h])
  | .begin _ | .retire _ => isTrue trivial

/-! ### Open sessions -/

def Session.ofKey (key : Text) (session : Session) : Nat :=
  if session.identity.key = key then 1 else 0

def openingOf (opening : List Opening) (key : Text) : Nat :=
  opening.countP fun o => o.identity.key = key

/-- The sessions of an identity that were opened and not yet retired. -/
def openOf (st : CountState) (key : Text) : Nat :=
  weight (Session.ofKey key) st.daemon.sessions + openingOf st.opening key

structure CountInv (config : Config) (st : CountState) : Prop where
  counts : ∀ key, countOf st.daemon.counts key = openOf st key
  ceiling : ∀ identity, openOf st identity.key ≤ (limitsFor config identity).maxSessions
  ids : ∀ id session, st.daemon.sessions.lookup id = some session →
    session.id = id ∧ ∃ n < st.daemon.nextSession, id = 's' :: Text.ofNat n

/-- Limits are filed by key. -/
theorem limitsFor_congr (config : Config) {a b : Identity} (h : a.key = b.key) :
    limitsFor config a = limitsFor config b := by
  simp only [limitsFor, h]

theorem openingOf_append (opening : List Opening) (o : Opening) (key : Text) :
    openingOf (opening ++ [o]) key =
      openingOf opening key + if key = o.identity.key then 1 else 0 := by
  simp only [openingOf, List.countP_append, List.countP_singleton, decide_eq_true_eq,
    eq_comm (a := key)]

theorem openingOf_eraseIdx {opening : List Opening} {index : Nat} {o : Opening}
    (h : opening[index]? = some o) (key : Text) :
    openingOf (opening.eraseIdx index) key + (if key = o.identity.key then 1 else 0) =
      openingOf opening key := by
  have hcount := countP_eraseIdx h fun x : Opening => decide (x.identity.key = key)
  simpa only [openingOf, decide_eq_true_eq, eq_comm (a := key)] using hcount

theorem CountInv.fresh {config : Config} {st : CountState} (hinv : CountInv config st) :
    st.daemon.sessions.lookup ('s' :: Text.ofNat st.daemon.nextSession) = none := by
  rw [Option.eq_none_iff_forall_ne_some]
  intro session hlookup
  obtain ⟨-, n, hn, heq⟩ := hinv.ids _ session hlookup
  have hsame := Text.ofNat_injective (List.cons.inj heq).2
  omega

/-! ### Each step -/

/-- A step that closes as many sessions of each identity as it gives back. -/
theorem CountInv.gaveBack {config : Config} {st next : CountState} (hinv : CountInv config st)
    (closed : Text → Nat) (hopen : ∀ key, openOf next key + closed key = openOf st key)
    (hcounts : ∀ key, countOf next.daemon.counts key = countOf st.daemon.counts key - closed key)
    (hids : ∀ id session, next.daemon.sessions.lookup id = some session →
      session.id = id ∧ ∃ n < next.daemon.nextSession, id = 's' :: Text.ofNat n) :
    CountInv config next := by
  refine ⟨?_, ?_, hids⟩
  · intro key
    have hkey := hopen key
    rw [hcounts, hinv.counts]
    omega
  · intro identity
    have hkey := hopen identity.key
    have hceiling := hinv.ceiling identity
    omega

theorem begin_refused {config : Config} {st : CountState} (hinv : CountInv config st) {d : Daemon}
    (h : Refused st.daemon d) : CountInv config { st with daemon := d } := by
  apply hinv.gaveBack (fun _ => 0)
  · intro key
    simp only [openOf, h.sessions, Nat.add_zero]
  · exact h.counts
  · simp only [h.sessions, h.nextSession]
    exact hinv.ids

theorem begin_began {config : Config} {st : CountState} (hinv : CountInv config st) {call : Call}
    {d : Daemon} {o : Opening} (h : Began config st.daemon call d o) :
    CountInv config ⟨d, st.opening ++ [o]⟩ := by
  obtain ⟨hbelow, hcounts⟩ := countOf_openSession_ok h.opened
  have hstate := h.state
  subst hstate
  have hopen : ∀ key, openOf ⟨{ st.daemon with
        counts := (openSession st.daemon.counts o.identity (limitsFor config o.identity)).1 },
      st.opening ++ [o]⟩ key = openOf st key + if key = o.identity.key then 1 else 0 := by
    intro key
    simp only [openOf, openingOf_append]
    omega
  refine ⟨?_, ?_, hinv.ids⟩
  · intro key
    rw [hopen, hcounts, hinv.counts]
  · intro identity
    have hceiling := hinv.ceiling identity
    rw [hopen]
    split
    · -- the count `open_session` compared is the number of open sessions
      rename_i hkey
      rw [hinv.counts, ← hkey, limitsFor_congr config hkey.symm] at hbelow
      omega
    · exact hceiling

/-- The session moves from the waiting calls to the map. -/
theorem finish_started {config : Config} {st : CountState} (hinv : CountInv config st)
    {index : Nat} {o : Opening} (hopening : st.opening[index]? = some o) {d : Daemon}
    {session : Session} (h : Started st.daemon o d session) :
    CountInv config ⟨d, st.opening.eraseIdx index⟩ := by
  have hfresh := hinv.fresh
  rw [← h.id] at hfresh
  have hopen : ∀ key, openOf ⟨d, st.opening.eraseIdx index⟩ key = openOf st key := by
    intro key
    have hmoved := openingOf_eraseIdx hopening key
    have hweight : weight (Session.ofKey key) d.sessions =
        Session.ofKey key session + weight (Session.ofKey key) st.daemon.sessions := by
      rw [h.sessions, weight_insert, erase_eq_self hfresh]
    simp only [openOf, hweight, Session.ofKey, h.identity, eq_comm (a := o.identity.key)]
    omega
  apply hinv.gaveBack (fun _ => 0) hopen
  · intro key
    rw [h.counts, Nat.sub_zero]
  · intro id found hlookup
    simp only [h.sessions, h.nextSession] at hlookup ⊢
    by_cases hid : id = session.id
    · subst hid
      rw [AList.lookup_insert, Option.some.injEq] at hlookup
      subst hlookup
      exact ⟨rfl, st.daemon.nextSession, Nat.lt_succ_self _, h.id⟩
    · rw [AList.lookup_insert_ne hid] at hlookup
      obtain ⟨hfield, n, hn, hname⟩ := hinv.ids id found hlookup
      exact ⟨hfield, n, Nat.lt_succ_of_lt hn, hname⟩

/-- With one session open, giving back two counts is giving back one. -/
theorem countOf_close_twice {counts : Table Text Nat} {identity : Identity}
    (h : countOf counts identity.key = 1) (key : Text) :
    countOf (closeSession (closeSession counts identity) identity) key =
      countOf counts key - if key = identity.key then 1 else 0 := by
  rw [countOf_closeSession, countOf_closeSession]
  split
  · rename_i hkey
    rw [hkey, h]
  · rfl

/-- What is left of a call that failed: one count fewer, and nothing else. -/
structure GaveUp (d : Daemon) (o : Opening) (d' : Daemon) : Prop where
  counts : ∀ key, countOf d'.counts key =
    countOf d.counts key - if key = o.identity.key then 1 else 0
  sessions : d'.sessions = d.sessions
  nextSession : d.nextSession ≤ d'.nextSession

theorem finishSession_alone {d : Daemon} {o : Opening} {outcome : Outcome}
    (hfresh : d.sessions.lookup ('s' :: Text.ofNat d.nextSession) = none)
    (halone : outcome.lookupOk = true ∨ countOf d.counts o.identity.key = 1) :
    (∃ d' session, finishSession d o outcome = (d', .ok session) ∧ Started d o d' session) ∨
      ∃ d' e, finishSession d o outcome = (d', .error e) ∧ GaveUp d o d' := by
  rcases finishSession_cases d o outcome hfresh with
    hstarted | ⟨d', e, heq, -, hundone⟩ | ⟨d', e, heq, hno, hundone⟩
  · exact Or.inl hstarted
  · refine Or.inr ⟨d', e, heq, ?_, hundone.sessions, hundone.nextSession⟩
    intro key
    rw [hundone.counts, countOf_closeSession]
  · have hone : countOf d.counts o.identity.key = 1 := by
      rcases halone with hok | hone
      · rw [hno] at hok
        cases hok
      · exact hone
    refine Or.inr ⟨d', e, heq, ?_, hundone.sessions, hundone.nextSession⟩
    intro key
    rw [hundone.counts]
    exact countOf_close_twice hone key

theorem finish_gaveUp {config : Config} {st : CountState} (hinv : CountInv config st)
    {index : Nat} {o : Opening} (hopening : st.opening[index]? = some o) {d : Daemon}
    (h : GaveUp st.daemon o d) : CountInv config ⟨d, st.opening.eraseIdx index⟩ := by
  apply hinv.gaveBack (fun key => if key = o.identity.key then 1 else 0)
  · intro key
    have hgone := openingOf_eraseIdx hopening key
    simp only [openOf, h.sessions]
    omega
  · exact h.counts
  · intro id session hlookup
    simp only [h.sessions] at hlookup
    obtain ⟨hfield, n, hn, hname⟩ := hinv.ids id session hlookup
    exact ⟨hfield, n, Nat.lt_of_lt_of_le hn h.nextSession, hname⟩

theorem finish_inv {config : Config} {st : CountState} (hinv : CountInv config st)
    {index : Nat} {o : Opening} (hopening : st.opening[index]? = some o) {outcome : Outcome}
    (halone : outcome.lookupOk = true ∨ countOf st.daemon.counts o.identity.key = 1) :
    CountInv config ⟨(finishSession st.daemon o outcome).1, st.opening.eraseIdx index⟩ := by
  rcases finishSession_alone hinv.fresh halone with
    ⟨d, session, heq, hstarted⟩ | ⟨d, e, heq, hgaveUp⟩
  · rw [heq]
    exact finish_started hinv hopening hstarted
  · rw [heq]
    exact finish_gaveUp hinv hopening hgaveUp

theorem retire_inv {config : Config} {st : CountState} (hinv : CountInv config st) {id : Text}
    {session : Session} (hlookup : st.daemon.sessions.lookup id = some session) :
    CountInv config { st with daemon := retire st.daemon session } := by
  obtain ⟨rfl, -⟩ := hinv.ids id session hlookup
  apply hinv.gaveBack (fun key => if key = session.identity.key then 1 else 0)
  · intro key
    have hweight := weight_erase (Session.ofKey key) hlookup
    simp only [Session.ofKey, eq_comm (a := session.identity.key)] at hweight
    simp only [openOf, retire, Daemon.closeSession, Daemon.log] at hweight ⊢
    omega
  · intro key
    exact countOf_closeSession _ _ key
  · intro id' found hfound
    have hfound' : (st.daemon.sessions.erase session.id).lookup id' = some found := hfound
    by_cases hid : id' = session.id
    · rw [hid, AList.lookup_erase] at hfound'
      cases hfound'
    · rw [AList.lookup_erase_ne hid] at hfound'
      exact hinv.ids id' found hfound'

/-! ### Whole runs -/

theorem countStep_inv {config : Config} {st next : CountState} {a : CountStep}
    (hinv : CountInv config st) (halone : LookupAlone st a)
    (h : countStep config st a = some next) : CountInv config next := by
  cases a with
  | begin call =>
    simp only [countStep] at h
    rcases beginSession_cases config st.daemon call with
      ⟨d, e, heq, hrefused⟩ | ⟨d, o, heq, hbegan⟩
    · rw [heq, Option.some.injEq] at h
      subst h
      exact begin_refused hinv hrefused
    · rw [heq, Option.some.injEq] at h
      subst h
      exact begin_began hinv hbegan
  | finish index outcome =>
    simp only [countStep, Option.map_eq_some_iff] at h
    obtain ⟨o, hopening, rfl⟩ := h
    simp only [LookupAlone, hopening] at halone
    exact finish_inv hinv hopening halone
  | retire id =>
    simp only [countStep, Option.map_eq_some_iff] at h
    obtain ⟨session, hlookup, rfl⟩ := h
    exact retire_inv hinv hlookup

theorem new_count (config : Config) : CountInv config CountState.new :=
  ⟨fun _ => rfl, fun _ => Nat.zero_le _, fun _ _ h => (by cases h)⟩

/-- A failed call leaves every count as it was. -/
theorem createSession_error_counts {config : Config} {st : CountState}
    (hinv : CountInv config st) {call : Call} {outcome : Outcome} {d : Daemon} {e : BusError}
    (h : createSession config st.daemon call outcome = (d, .error e))
    (halone : ∀ d' o, beginSession config st.daemon call = (d', .ok o) →
      outcome.lookupOk = true ∨ countOf st.daemon.counts o.identity.key = 0) (key : Text) :
    countOf d.counts key = countOf st.daemon.counts key := by
  unfold createSession at h
  rcases beginSession_cases config st.daemon call with
    ⟨d', e', hbegin, hrefused⟩ | ⟨d', o, hbegin, hbegan⟩
  · rw [hbegin, Prod.mk.injEq] at h
    rw [← h.1]
    exact hrefused.counts key
  · have hcounts : ∀ key, countOf d'.counts key =
        countOf st.daemon.counts key + if key = o.identity.key then 1 else 0 := by
      rw [hbegan.state]
      exact (countOf_openSession_ok hbegan.opened).2
    have halone' : outcome.lookupOk = true ∨ countOf d'.counts o.identity.key = 1 := by
      rcases halone d' o hbegin with hok | hzero
      · exact Or.inl hok
      · right
        rw [hcounts, hzero, if_pos rfl]
    rw [hbegin] at h
    dsimp only at h
    rcases finishSession_alone (begin_began hinv hbegan).fresh halone' with
      ⟨d'', session, heq, -⟩ | ⟨d'', e'', heq, hgaveUp⟩
    · rw [heq, Prod.mk.injEq] at h
      cases h.2
    · rw [heq, Prod.mk.injEq] at h
      rw [← h.1, hgaveUp.counts, hcounts]
      omega

/-- **Session counts match** the sessions that are open, and stay within the
    ceiling, in every run whose failed lookups are alone; and a call that fails
    then changes no count. -/
theorem session_counts_match (config : Config) (steps : List CountStep) (st : CountState)
    (hrun : runs (countStep config) CountState.new steps = some st)
    (halone : along (countStep config) LookupAlone CountState.new steps) :
    (∀ identity : Identity,
      countOf st.daemon.counts identity.key = openOf st identity.key ∧
        openOf st identity.key ≤ (limitsFor config identity).maxSessions) ∧
    ∀ (call : Call) (outcome : Outcome) (d : Daemon) (e : BusError),
      createSession config st.daemon call outcome = (d, .error e) →
      (∀ d' o, beginSession config st.daemon call = (d', .ok o) →
        outcome.lookupOk = true ∨ countOf st.daemon.counts o.identity.key = 0) →
      ∀ key, countOf d.counts key = countOf st.daemon.counts key := by
  have hinv : CountInv config st :=
    runs_invariant_along (countStep config) (P := CountInv config) (C := LookupAlone)
      (fun _ _ _ hinv halone hstep => countStep_inv hinv halone hstep) (new_count config) halone
      hrun
  refine ⟨fun identity => ⟨hinv.counts identity.key, hinv.ceiling identity⟩, ?_⟩
  intro call outcome d e hfailed hcall key
  exact createSession_error_counts hinv hfailed hcall key

/-- No backend reads the model. -/
def noBackend : Outcome :=
  { allWell with backend := some (.error "no backend is configured".toList) }

def noSocket : Outcome := { allWell with socketpair := .error "too many open files".toList }

theorem failures_alone_counted :
    ∃ st, runs (countStep openConfig) CountState.new
        [.begin (openCall ∅), .finish 0 noBackend, .begin (openCall ∅), .begin (openCall ∅),
          .finish 0 allWell, .finish 0 noSocket] = some st ∧
      countOf st.daemon.counts (editorSession "s1").identity.key = 1 :=
  ⟨_, rfl, ((session_counts_match openConfig
    [.begin (openCall ∅), .finish 0 noBackend, .begin (openCall ∅), .begin (openCall ∅),
      .finish 0 allWell, .finish 0 noSocket] _ rfl (by decide)).1
    (editorSession "s1").identity).1.trans (by decide)⟩

/-- A session is open and another of the same identity meets no backend. -/
theorem failed_lookup_uncounts :
    ¬ ∀ (config : Config) (steps : List CountStep) (st : CountState),
      runs (countStep config) CountState.new steps = some st →
      ∀ identity : Identity, countOf st.daemon.counts identity.key = openOf st identity.key := by
  intro hall
  have hcount := hall openConfig
    [.begin (openCall ∅), .finish 0 allWell, .begin (openCall ∅), .finish 0 noBackend] _ rfl
    (editorSession "s1").identity
  revert hcount
  decide

end AiDaemon
