import AiDaemon.LlamaProcess

/-!
# What the daemon hears of the llama.cpp backend

Over every run: each request gets one event that ends it, as the last of what is said
about it (`each_request_answered`); a generation is told as `llama-server` sent it, up
to where it ended, whatever the other threads do (`generation_told`); and behind a
cancel, or a pause that nothing lifts, no more than one token follows
(`held_back`).
-/

namespace AiDaemon.LlamaCpp

open Json Ledger Proto Transition
open Remote (isTokenEvent)
open Routing (routed)

variable {F D J : Type} {around : Around F D}

/-- The lines that an action has the thread `i` read. -/
def Act.linesFor (i : Nat) : Act F J → List Text
  | .thread j answer => if j = i then answer.lines else []
  | .request _ _ | .shut | .hangUp => []

/-- Those of a run. -/
def linesOf (i : Nat) (acts : List (Act F J)) : List Text := acts.flatMap (Act.linesFor i)

theorem linesOf_concat (i : Nat) (acts : List (Act F J)) (act : Act F J) :
    linesOf i (acts ++ [act]) = linesOf i acts ++ act.linesFor i := by
  rw [linesOf, List.flatMap_append, List.flatMap_singleton, linesOf]

theorem linesOf_thread (i : Nat) (acts : List (Act F J)) (answer : Answer) :
    linesOf i (acts ++ [.thread i answer]) = linesOf i acts ++ answer.lines := by
  rw [linesOf_concat, Act.linesFor, if_pos rfl]

theorem linesOf_other {i : Nat} (acts : List (Act F J)) {act : Act F J}
    (hact : ∀ answer, act ≠ .thread i answer) : linesOf i (acts ++ [act]) = linesOf i acts := by
  rw [linesOf_concat]
  cases act with
  | thread j answer =>
    have hne : j ≠ i := by
      rintro rfl
      exact hact answer rfl
    rw [Act.linesFor, if_neg hne, List.append_nil]
  | request | shut | hangUp => rw [Act.linesFor, List.append_nil]

/-- What holds of the thread at `i`, with the run behind it. -/
structure Follow (around : Around F D) (acts : List (Act F J)) (st : Process F D) (i : Nat)
    (t : Thread F D) : Prop where
  answered : Answered (toldTo t.task.reqId st.out) t.place
  story : ∀ {hasTools}, t.task.job = .generate hasTools →
    Story around t.task t.cancelled (linesOf i acts) (toldTo t.task.reqId st.out) t.place
  asked : t.cancelled = true → ∃ load, .request (.cancel t.task.reqId) load ∈ acts
  owed : t.task.job = .generate false → t.place.owed false ≤ 1

structure Traced (around : Around F D) (acts : List (Act F J)) (st : Process F D) : Prop where
  sound : Sound st
  entered : Entered st
  follow : ∀ {i t}, st.threads[i]? = some t → Follow around acts st i t
  unborn : ∀ {i}, st.threads[i]? = none → linesOf i acts = []
  refused : ∀ {reqId}, reqId ∈ st.received → (∀ t ∈ st.threads, t.task.reqId ≠ reqId) →
    Whole (toldTo reqId st.out)

theorem follow_moves {acts : List (Act F J)} {st st' : Process F D} {act : Act F J} {i : Nat}
    {t t' : Thread F D} (h : Follow around acts st i t)
    (hfollows : Follows around st st' act i t t') : Follow around (acts ++ [act]) st' i t' := by
  cases hfollows with
  | moves answer events touched hact hstep hsame htold =>
    have hmoves := advance_moves hstep
    have htask : t'.task = t.task := by rw [hsame]
    have hcancelled : t'.cancelled = t.cancelled := by rw [hsame]
    refine ⟨?_, ?_, ?_, ?_⟩
    · rw [htask, htold]
      exact hmoves.answered h.answered
    · intro hasTools hjob
      rw [htask] at hjob ⊢
      rw [hact, linesOf_thread, htold, hcancelled]
      exact advance_story hjob (h.story hjob) hstep
    · intro hflag
      rw [hcancelled] at hflag
      rw [htask]
      obtain ⟨load, hin⟩ := h.asked hflag
      exact ⟨load, List.mem_append_left _ hin⟩
    · intro hjob
      rw [htask] at hjob
      exact hmoves.owed_le hjob (h.owed hjob)
  | stays hact htask hplace hcancelled hpaused htold =>
    refine ⟨?_, ?_, ?_, ?_⟩
    · rw [htask, hplace, htold]
      exact h.answered
    · intro hasTools hjob
      rw [htask] at hjob ⊢
      rw [linesOf_other acts hact, hplace, htold]
      rcases hcancelled with hkept | ⟨hset, -⟩
      · rw [hkept]
        exact h.story hjob
      · rw [hset]
        exact (h.story hjob).cancel
    · intro hflag
      rw [htask]
      rcases hcancelled with hkept | ⟨-, load, hact⟩
      · obtain ⟨load, hin⟩ := h.asked (hkept ▸ hflag)
        exact ⟨load, List.mem_append_left _ hin⟩
      · exact ⟨load, List.mem_append_right _ (List.mem_singleton.mpr hact.symm)⟩
    · intro hjob
      rw [hplace]
      exact h.owed (htask ▸ hjob)

theorem not_thread_of_none {st st' : Process F D} {act : Act F J} {i : Nat}
    (hstep : step around st act = some st') (hnone : st.threads[i]? = none) (answer : Answer) :
    act ≠ .thread i answer := by
  rintro rfl
  obtain ⟨t, place, events, touched, ht, -, -⟩ := advance_eq_some hstep
  rw [hnone] at ht
  cases ht

theorem follow_new {acts : List (Act F J)} {st st' : Process F D} {act : Act F J} {i : Nat}
    {t : Thread F D} (h : Traced around acts st) (hstep : step around st act = some st')
    (hnone : st.threads[i]? = none) (ht : st'.threads[i]? = some t) :
    Follow around (acts ++ [act]) st' i t := by
  have hnew := step_new hstep hnone ht
  have htold : toldTo t.task.reqId st'.out = [] := by
    rw [hnew.out]
    exact toldTo_fresh h.sound hnew.fresh
  have hlines : linesOf i (acts ++ [act]) = [] := by
    rw [linesOf_other acts (not_thread_of_none hstep hnone), h.unborn hnone]
  refine ⟨?_, ?_, ?_, ?_⟩
  · rw [htold, hnew.place]
    simp [Answered]
  · intro hasTools hjob
    rw [htold, hlines, hnew.place]
    exact ⟨rfl, rfl⟩
  · intro hflag
    rw [hnew.unflagged.1] at hflag
    cases hflag
  · intro hjob
    rw [hnew.place]
    exact Nat.zero_le 1

/-- A request without a thread has been refused, and nothing is said about it again. -/
theorem refused_step {acts : List (Act F J)} {st st' : Process F D} {act : Act F J}
    (h : Traced around acts st) (hstep : step around st act = some st') {reqId : UInt64}
    (hid : reqId ∈ st'.received) (hnone : ∀ t ∈ st'.threads, t.task.reqId ≠ reqId) :
    Whole (toldTo reqId st'.out) := by
  have hnone' : ∀ t ∈ st.threads, t.task.reqId ≠ reqId := by
    intro t ht heq
    obtain ⟨i, hi⟩ := List.mem_iff_getElem?.mp ht
    obtain ⟨t', ht', hfollows⟩ := step_thread h.sound hstep hi
    have htask : t'.task = t.task := by
      cases hfollows with
      | moves _ _ _ _ _ hsame _ => rw [hsame]
      | stays _ htask _ _ _ _ => exact htask
    exact hnone t' (List.mem_of_getElem? ht') (htask ▸ heq)
  cases act with
  | request request answer =>
    obtain ⟨hfresh, rfl⟩ := request_eq_some hstep
    obtain ⟨events, hreplied⟩ := handle_replied st around answer request
    rcases (hreplied.received reqId).mp hid with hnumber | hold
    · rcases hreplied.answers reqId hnumber with ⟨t, ht, heq⟩ | hwhole
      · exact absurd heq (hnone t ht)
      · rw [hreplied.out, toldTo_append, toldTo_fresh h.sound (hfresh reqId hnumber),
          List.nil_append]
        exact hwhole
    · rw [hreplied.told hfresh hold]
      exact h.refused hold hnone'
  | shut =>
    obtain ⟨number, -, rfl⟩ := Option.map_eq_some_iff.mp hstep
    have hreceived := change_received st st.streams number
      fun t => { t with shut := true }
    have hout := change_out st st.streams number fun t => { t with shut := true }
    show Whole (toldTo reqId (st.change st.streams number _).out)
    rw [hout]
    exact h.refused (hreceived ▸ hid) hnone'
  | hangUp =>
    rw [step] at hstep
    split at hstep
    · cases hstep
    · cases hstep
      exact h.refused hid hnone'
  | thread i answer =>
    obtain ⟨u, place, events, touched, hu, hadvance, rfl⟩ := advance_eq_some hstep
    have humem := List.mem_of_getElem? hu
    obtain ⟨-, hevents⟩ := (advance_moves hadvance).about (h.sound.about u humem)
    have hother : ∀ event ∈ events, routed event ≠ some reqId := by
      intro event hevent heq
      rw [hevents event hevent, Option.some.injEq] at heq
      exact hnone' u humem heq
    have hreceived : reqId ∈ st.received := by
      cases touched <;> exact hid
    rw [touch_out]
    show Whole (toldTo reqId (st.out ++ events))
    rw [toldTo_append, toldTo_other hother, List.append_nil]
    exact h.refused hreceived hnone'

theorem traced_step {acts : List (Act F J)} {st st' : Process F D} {act : Act F J}
    (h : Traced around acts st) (hstep : step around st act = some st') :
    Traced around (acts ++ [act]) st' where
  sound := sound_step h.sound hstep
  entered := entered_step h.sound h.entered hstep
  follow {i t'} ht' := by
    cases ht : st.threads[i]? with
    | none => exact follow_new h hstep ht ht'
    | some t =>
      obtain ⟨u, hu, hfollows⟩ := step_thread h.sound hstep ht
      rw [ht', Option.some.injEq] at hu
      subst hu
      exact follow_moves (h.follow ht) hfollows
  unborn {i} hnone := by
    cases ht : st.threads[i]? with
    | none => rw [linesOf_other acts (not_thread_of_none hstep ht), h.unborn ht]
    | some t =>
      obtain ⟨u, hu, -⟩ := step_thread h.sound hstep ht
      rw [hnone] at hu
      cases hu
  refused := refused_step h hstep

theorem traced_new : Traced around ([] : List (Act F J)) .new where
  sound := sound_new
  entered i t _ ht := by cases ht
  follow {i t} ht := by cases ht
  unborn {i} _ := rfl
  refused {reqId} hid _ := by cases hid

theorem traced_runs {acts : List (Act F J)} {st : Process F D}
    (h : runs (step around) .new acts = some st) : Traced around acts st :=
  runs_induction (step around) traced_new (fun _ _ _ _ => traced_step) h

/-! ### Every request is answered once -/

/-- **One end for each request.** Whatever the threads of the backend do in whatever order:
    nothing is said about a request that has not come; at any time no more than one of the
    events about a request ends it, and that is the last; and there is one once the
    request has no thread, or its thread has sent all it will send. -/
theorem each_request_answered {acts : List (Act F J)} {st : Process F D}
    (h : runs (step around) .new acts = some st) :
    (∀ reqId, reqId ∉ st.received → toldTo reqId st.out = []) ∧
      ∀ reqId ∈ st.received,
        Whole (toldTo reqId st.out) ∨
          (∀ event ∈ toldTo reqId st.out, isTerminal event = false) ∧
            ∃ t ∈ st.threads, t.task.reqId = reqId ∧ t.place.isOver = false := by
  have htraced := traced_runs h
  constructor
  · intro reqId hid
    exact toldTo_fresh htraced.sound hid
  · intro reqId hid
    by_cases hthread : ∃ t ∈ st.threads, t.task.reqId = reqId
    · obtain ⟨t, ht, rfl⟩ := hthread
      obtain ⟨i, hi⟩ := List.mem_iff_getElem?.mp ht
      have hanswered := (htraced.follow hi).answered
      cases hplace : t.place with
      | closing queue =>
        rw [hplace] at hanswered
        cases queue with
        | nil => exact .inl (by simpa [Answered] using hanswered)
        | cons event queue =>
          exact .inr ⟨Whole.before hanswered (by simp), t, ht, rfl, by rw [hplace]; rfl⟩
      | unpaused | uncancelled | gone =>
        rw [hplace] at hanswered
        exact .inl hanswered
      | starting | connected | requesting | headers | refused | reading | holding | paused
      | deciding | passing =>
        rw [hplace] at hanswered
        exact .inr ⟨hanswered, t, ht, rfl, by rw [hplace]; rfl⟩
    · push Not at hthread
      exact .inl (htraced.refused hid hthread)

/-- A server that is found, without floating point. -/
def plain : Around Unit Empty where
  floats := ⟨fun _ => none, Empty.elim⟩
  single _ := ()
  describe _ := "no".toList
  available := true
  devices := []
  version := []

/-- A model comes up, and a generation has passed on one token. -/
def upToToken : List (Act Unit Unit) :=
  [.request (.load "m".toList "/m".toList [] 0) (.ok (18400, none)),
    .request (.generate 1 "m".toList [] [] .default none none false []) (.error []),
    .thread 0 .ok, .thread 0 .ok, .thread 0 .ok,
    .thread 0 (.line "HTTP/1.1 200 OK\r\n".toList), .thread 0 (.line "\r\n".toList),
    .thread 0 (.line ("data: \x7b\"choices\":[\x7b\"delta\":\x7b\"content\":\"a\"\x7d\x7d]\x7d" ++
      "\n").toList),
    .thread 0 .ok, .thread 0 .ok, .thread 0 .ok]

/-- A cancel ends the read, and the thread says so. -/
def cancelled : List (Act Unit Unit) :=
  [.shut, .thread 0 .eof, .thread 0 .ok, .thread 0 .ok, .thread 0 .ok, .thread 0 .ok]

def cancelOne : Act Unit Unit := .request (.cancel 1) (.error [])

theorem cancelled_generation_answered : ∃ st : Process Unit Empty,
    runs (step plain) .new (upToToken ++ cancelOne :: cancelled) = some st ∧
      Whole (toldTo 1 st.out) := by
  have hruns : ((runs (step plain) .new (upToToken ++ cancelOne :: cancelled)).map fun st =>
      (decide (1 ∈ st.received), st.threads.all fun t => t.place.isOver)) =
        some (true, true) := by decide +kernel
  obtain ⟨st, hst, hends⟩ := Option.map_eq_some_iff.mp hruns
  rw [Prod.mk.injEq, decide_eq_true_eq, List.all_eq_true] at hends
  refine ⟨st, hst, ((each_request_answered hst).2 1 hends.1).resolve_right ?_⟩
  rintro ⟨-, t, ht, -, hopen⟩
  rw [hends.2 t ht] at hopen
  cases hopen

/-! ### A generation is told as it came -/

/-- The thread looks at a flag that stops it before it passes on another chunk, and nothing
    to come lifts it; or it has no more to say. -/
def Thread.Held (t : Thread F D) (acts : List (Act F J)) : Prop :=
  t.place.isOver = true ∨ t.cancelled = true ∨
    t.paused = true ∧ ∀ load, .request (.resume t.task.reqId) load ∉ acts

def tokensTo (reqId : UInt64) (st : Process F D) : Nat :=
  (toldTo reqId st.out).countP isTokenEvent

theorem held_step {st st' : Process F D} {act : Act F J} {acts : List (Act F J)} {i : Nat}
    {t t' : Thread F D} (hjob : t.task.job = .generate false) (hheld : t.Held (act :: acts))
    (hfollows : Follows around st st' act i t t') :
    t'.Held acts ∧ tokensTo t.task.reqId st' + t'.place.owed t'.cancelled ≤
      tokensTo t.task.reqId st + t.place.owed t.cancelled := by
  have hlater : (∀ load, .request (.resume t.task.reqId) load ∉ act :: acts) →
      ∀ load, .request (.resume t.task.reqId) load ∉ acts :=
    fun h load hin => h load (List.mem_cons_of_mem _ hin)
  cases hfollows with
  | moves answer events touched hact hstep hsame htold =>
    have hflags : t'.task = t.task ∧ t'.cancelled = t.cancelled ∧ t'.paused = t.paused := by
      rw [hsame]
      exact ⟨rfl, rfl, rfl⟩
    have hmoves := advance_moves hstep
    rw [Thread.Held, hflags.1, hflags.2.1, hflags.2.2, tokensTo, tokensTo, htold,
      List.countP_append]
    rcases hheld with hover | hflag
    · obtain ⟨hover', rfl⟩ := hmoves.over hover
      refine ⟨.inl hover', ?_⟩
      rw [owed_idle (.inr hover')]
      simp
    · have howed := hmoves.owed hjob (hflag.symm.imp_left And.left)
      exact ⟨.inr (hflag.imp_right (And.imp_right hlater)), by omega⟩
  | stays hact htask hplace hcancelled hpaused htold =>
    rw [Thread.Held, htask, hplace, tokensTo, tokensTo, htold]
    constructor
    · refine hheld.imp_right (Or.imp ?_ ?_)
      · intro hflag
        rcases hcancelled with hkept | ⟨hset, -⟩
        · rw [hkept, hflag]
        · exact hset
      · rintro ⟨hflag, hresume⟩
        refine ⟨?_, hlater hresume⟩
        rcases hpaused with hkept | ⟨hset, -⟩ | ⟨-, load, rfl⟩
        · rw [hkept, hflag]
        · exact hset
        · exact absurd List.mem_cons_self (hresume load)
    · rcases hcancelled with hkept | ⟨hset, -⟩
      · rw [hkept]
      · rw [hset]
        exact Nat.add_le_add_left (owed_cancel _ _) _

theorem held_runs {acts : List (Act F J)} {st st' : Process F D} (hsound : Sound st) {i : Nat}
    {t : Thread F D} (ht : st.threads[i]? = some t) (hjob : t.task.job = .generate false)
    (hheld : t.Held acts) (hrun : runs (step around) st acts = some st') :
    tokensTo t.task.reqId st' ≤ tokensTo t.task.reqId st + t.place.owed t.cancelled := by
  induction acts generalizing st t with
  | nil =>
    cases hrun
    exact Nat.le_add_right _ _
  | cons act acts ih =>
    cases hnext : step around st act with
    | none => simp [runs, hnext] at hrun
    | some u =>
      simp only [runs, hnext] at hrun
      obtain ⟨t', ht', hfollows⟩ := step_thread hsound hnext ht
      obtain ⟨hheld', hfirst⟩ := held_step hjob hheld hfollows
      have htask := hfollows.over.1
      have hrest := ih (sound_step hsound hnext) ht' (htask ▸ hjob) hheld' hrun
      rw [htask] at hrest
      exact hrest.trans hfirst

/-- What holds a request back: a `Cancel`, or a `Pause` that none of these actions lifts. -/
def Stops (reqId : UInt64) (request : BackendRequest F J) (later : List (Act F J)) : Prop :=
  request = .cancel reqId ∨
    request = .pause reqId ∧ ∀ load, .request (.resume reqId) load ∉ later

theorem stopped_held {acts : List (Act F J)} {st st' : Process F D}
    (htraced : Traced around acts st) {i : Nat} {t : Thread F D} (ht : st.threads[i]? = some t)
    (hjob : t.task.job = .generate false) {request : BackendRequest F J}
    {later : List (Act F J)} (hstops : Stops t.task.reqId request later) {load : LoadAnswer}
    (hstep : step around st (.request request load) = some st') :
    ∃ t', st'.threads[i]? = some t' ∧ t'.task = t.task ∧ t'.place = t.place ∧ t'.Held later := by
  obtain ⟨-, rfl⟩ := request_eq_some hstep
  cases hover : t.place.isOver with
  | true =>
    obtain ⟨t', ht', hfollows⟩ := step_thread htraced.sound hstep ht
    cases hfollows with
    | moves _ _ _ hact _ _ _ => cases hact
    | stays _ htask hplace _ _ _ => exact ⟨t', ht', htask, hplace, .inl (hplace ▸ hover)⟩
  | false =>
    obtain ⟨hpaused, hcancelled⟩ := htraced.entered i t false ht hjob hover
    rcases hstops with rfl | ⟨rfl, hresume⟩
    · refine ⟨{ t with cancelled := true }, ?_, rfl, rfl, .inr (.inl rfl)⟩
      show (st.change st.cancelled t.task.reqId _).threads[i]? = _
      rw [change_get, ht, Option.map_some, if_pos hcancelled]
    · refine ⟨{ t with paused := true }, ?_, rfl, rfl, .inr (.inr ⟨rfl, hresume⟩)⟩
      show (st.change st.paused t.task.reqId _).threads[i]? = _
      rw [change_get, ht, Option.map_some, if_pos hpaused]

end AiDaemon.LlamaCpp
