import AiDaemon.LlamaThread
import AiDaemon.Transition

/-!
# The llama.cpp backend, whatever its threads do

The process is a step function on one state, and a run is any interleaving of its main
thread and the threads of the requests.  The daemon numbers its requests, so the numbers
of the threads are distinct, and what is under a number in a table is the thread of that
number (`Sound`).  `step_thread` says what one step of the process is to one thread.
-/

namespace AiDaemon.LlamaCpp

open Json Ledger Proto Transition
open Remote (isTokenEvent)
open Routing (routed)

variable {F D J : Type}

/-- What the daemon has been told about a request. -/
def toldTo (reqId : UInt64) (out : List (BackendEvent F)) : List (BackendEvent F) :=
  out.filter fun event => routed event = some reqId

theorem toldTo_append (reqId : UInt64) (out more : List (BackendEvent F)) :
    toldTo reqId (out ++ more) = toldTo reqId out ++ toldTo reqId more :=
  List.filter_append ..

theorem toldTo_own {reqId : UInt64} {events : List (BackendEvent F)}
    (h : ∀ event ∈ events, routed event = some reqId) : toldTo reqId events = events := by
  rw [toldTo, List.filter_eq_self]
  intro event hevent
  exact decide_eq_true (h event hevent)

theorem toldTo_other {reqId : UInt64} {events : List (BackendEvent F)}
    (h : ∀ event ∈ events, routed event ≠ some reqId) : toldTo reqId events = [] := by
  rw [toldTo, List.filter_eq_nil_iff]
  intro event hevent
  exact fun heq => h event hevent (of_decide_eq_true heq)

/-! ### The tables -/

/-- Under a number is the thread of that number. -/
def Points (table : Table UInt64 Nat) (threads : List (Thread F D)) : Prop :=
  ∀ reqId i, table.lookup reqId = some i →
    ∃ t, threads[i]? = some t ∧ t.task.reqId = reqId

structure Sound (st : Process F D) : Prop where
  distinct : (st.threads.map fun t => t.task.reqId).Nodup
  known : ∀ t ∈ st.threads, t.task.reqId ∈ st.received
  paused : Points st.paused st.threads
  cancelled : Points st.cancelled st.threads
  streams : Points st.streams st.threads
  about : ∀ t ∈ st.threads, t.place.About t.task.reqId
  spoken : ∀ event ∈ st.out, ∀ reqId, routed event = some reqId → reqId ∈ st.received

theorem Sound.unique {st : Process F D} (h : Sound st) {i j : Nat} {t u : Thread F D}
    (ht : st.threads[i]? = some t) (hu : st.threads[j]? = some u)
    (hsame : t.task.reqId = u.task.reqId) : i = j := by
  have hlt : i < (st.threads.map fun t => t.task.reqId).length := by
    rw [List.length_map]
    exact (List.getElem?_eq_some_iff.mp ht).1
  refine (List.getElem?_inj hlt h.distinct).mp ?_
  rw [List.getElem?_map, List.getElem?_map, ht, hu, Option.map_some, Option.map_some, hsame]

theorem sound_new : Sound (Process.new : Process F D) where
  distinct := List.nodup_nil
  known := by simp [Process.new]
  paused := by simp [Points, Process.new]
  cancelled := by simp [Points, Process.new]
  streams := by simp [Points, Process.new]
  about := by simp [Process.new]
  spoken := by simp [Process.new]

/-- Threads that keep their task keep the tables right. -/
theorem Points.of_tasks {table : Table UInt64 Nat} {threads threads' : List (Thread F D)}
    (h : Points table threads)
    (htasks : ∀ (i : Nat) (t : Thread F D), threads[i]? = some t →
      ∃ t', threads'[i]? = some t' ∧ t'.task = t.task) :
    Points table threads' := by
  intro reqId i hlookup
  obtain ⟨t, ht, hid⟩ := h reqId i hlookup
  obtain ⟨t', ht', htask⟩ := htasks i t ht
  exact ⟨t', ht', by rw [htask, hid]⟩

theorem Points.erase {table : Table UInt64 Nat} {threads : List (Thread F D)}
    (h : Points table threads) (reqId : UInt64) : Points (table.erase reqId) threads := by
  intro other i hlookup
  by_cases heq : other = reqId
  · rw [heq, AList.lookup_erase] at hlookup
    cases hlookup
  · rw [AList.lookup_erase_ne heq] at hlookup
    exact h other i hlookup

theorem Points.insert {table : Table UInt64 Nat} {threads : List (Thread F D)}
    (h : Points table threads) {i : Nat} {t : Thread F D} (ht : threads[i]? = some t) :
    Points (table.insert t.task.reqId i) threads := by
  intro other j hlookup
  by_cases heq : other = t.task.reqId
  · rw [heq, AList.lookup_insert, Option.some.injEq] at hlookup
    subst hlookup
    exact ⟨t, ht, heq.symm⟩
  · rw [AList.lookup_insert_ne heq] at hlookup
    exact h other j hlookup

/-! ### What the main thread does -/

section

variable {st : Process F D}

/-- A change of flags: the tasks and the places stay. -/
structure IsFlag (f : Thread F D → Thread F D) : Prop where
  task : ∀ t, (f t).task = t.task
  place : ∀ t, (f t).place = t.place

theorem change_get (table : Table UInt64 Nat) (reqId : UInt64) (f : Thread F D → Thread F D)
    (i : Nat) :
    (st.change table reqId f).threads[i]? =
      st.threads[i]?.map fun t => if table.lookup reqId = some i then f t else t := by
  unfold Process.change
  split
  · rename_i j hlookup
    rw [List.getElem?_modify, hlookup]
    simp only [Option.some.injEq, Option.map_eq_map]
  · rename_i hnone
    rw [hnone]
    simp

theorem Sound.withModels (h : Sound st) (models : Table Text Loaded) :
    Sound { st with models := models } :=
  ⟨h.distinct, h.known, h.paused, h.cancelled, h.streams, h.about, h.spoken⟩

theorem Sound.withCancelling (h : Sound st) (cancelling : Option UInt64) :
    Sound { st with cancelling := cancelling } :=
  ⟨h.distinct, h.known, h.paused, h.cancelled, h.streams, h.about, h.spoken⟩

theorem Sound.stop (h : Sound st) : Sound st.stop :=
  ⟨h.distinct, h.known, h.paused, h.cancelled, h.streams, h.about, h.spoken⟩

theorem Sound.send (h : Sound st) (events : List (BackendEvent F))
    (hevents : ∀ event ∈ events, ∀ reqId, routed event = some reqId → reqId ∈ st.received) :
    Sound (st.send events) where
  distinct := h.distinct
  known := h.known
  paused := h.paused
  cancelled := h.cancelled
  streams := h.streams
  about := h.about
  spoken := by
    intro event hevent
    rcases List.mem_append.mp hevent with hin | hin
    · exact h.spoken event hin
    · exact hevents event hin

theorem Sound.receive (h : Sound st) (reqId : UInt64) : Sound (st.receive reqId) where
  distinct := h.distinct
  known t ht := List.mem_cons_of_mem _ (h.known t ht)
  paused := h.paused
  cancelled := h.cancelled
  streams := h.streams
  about := h.about
  spoken event hevent reqId hrouted := List.mem_cons_of_mem _ (h.spoken event hevent reqId hrouted)

/-- Threads with the same tasks and places make as good a process. -/
theorem Sound.ofThreads (h : Sound st) {threads : List (Thread F D)}
    (hlength : threads.length = st.threads.length)
    (hthreads : ∀ (i : Nat) (t : Thread F D), st.threads[i]? = some t →
      ∃ t', threads[i]? = some t' ∧ t'.task = t.task ∧ t'.place.About t'.task.reqId) :
    Sound { st with threads := threads } := by
  have htasks : threads.map (fun t => t.task.reqId) = st.threads.map fun t => t.task.reqId := by
    refine List.ext_getElem? fun i => ?_
    rw [List.getElem?_map, List.getElem?_map]
    cases ht : st.threads[i]? with
    | none =>
      rw [List.getElem?_eq_none_iff] at ht
      rw [List.getElem?_eq_none (hlength ▸ ht)]
    | some t =>
      obtain ⟨t', ht', htask, -⟩ := hthreads i t ht
      rw [ht', Option.map_some, Option.map_some, htask]
  have hpoints : ∀ {table : Table UInt64 Nat}, Points table st.threads → Points table threads := by
    intro table hpoints
    refine hpoints.of_tasks fun i t ht => ?_
    obtain ⟨t', ht', htask, -⟩ := hthreads i t ht
    exact ⟨t', ht', htask⟩
  refine ⟨htasks ▸ h.distinct, ?_, hpoints h.paused, hpoints h.cancelled, hpoints h.streams, ?_,
    h.spoken⟩
  · intro t' ht'
    have hmem : t'.task.reqId ∈ threads.map fun t => t.task.reqId := List.mem_map_of_mem ht'
    rw [htasks, List.mem_map] at hmem
    obtain ⟨t, ht, heq⟩ := hmem
    exact heq ▸ h.known t ht
  · intro t' ht'
    obtain ⟨i, hi, hget⟩ := List.mem_iff_getElem.mp ht'
    obtain ⟨u, hu, -, habout⟩ := hthreads i _ (List.getElem?_eq_getElem (hlength ▸ hi))
    rw [List.getElem?_eq_getElem hi, hget, Option.some.injEq] at hu
    subst hu
    exact habout

theorem Sound.change (h : Sound st) (table : Table UInt64 Nat) (reqId : UInt64)
    {f : Thread F D → Thread F D} (hf : IsFlag f) : Sound (st.change table reqId f) := by
  have hsound : Sound { st with threads := (st.change table reqId f).threads } := by
    refine h.ofThreads ?_ ?_
    · unfold Process.change
      split
      · exact List.length_modify ..
      · rfl
    · intro i t ht
      rw [change_get, ht]
      refine ⟨_, rfl, ?_, ?_⟩
      · split
        · exact hf.task t
        · rfl
      · have habout := h.about t (List.mem_of_getElem? ht)
        split
        · rw [hf.task, hf.place]
          exact habout
        · exact habout
  have hsame : { st with threads := (st.change table reqId f).threads } =
      st.change table reqId f := by
    unfold Process.change
    split <;> rfl
  exact hsame ▸ hsound

theorem Sound.spawn (h : Sound st) (task : Task) (hfresh : task.reqId ∉ st.received) :
    Sound ((st.receive task.reqId).spawn task) := by
  have hold : ∀ {i : Nat} {t : Thread F D}, st.threads[i]? = some t →
      ((st.receive task.reqId).spawn task).threads[i]? = some t := by
    intro i t ht
    have hlt := (List.getElem?_eq_some_iff.mp ht).1
    exact (List.getElem?_append_left hlt).trans ht
  have hpoints : ∀ {table : Table UInt64 Nat}, Points table st.threads →
      Points table ((st.receive task.reqId).spawn task).threads := by
    intro table hpoints
    exact hpoints.of_tasks fun i t ht => ⟨t, hold ht, rfl⟩
  refine ⟨?_, ?_, hpoints h.paused, hpoints h.cancelled, hpoints h.streams, ?_, ?_⟩
  · show ((st.threads ++ [_]).map fun t : Thread F D => t.task.reqId).Nodup
    rw [List.map_append, List.nodup_append']
    refine ⟨h.distinct, by simp, ?_⟩
    intro reqId hin hnew
    obtain ⟨t, ht, rfl⟩ := List.mem_map.mp hin
    have hsame : t.task.reqId = task.reqId := by simpa using hnew
    exact hfresh (hsame ▸ h.known t ht)
  · intro t ht
    rcases List.mem_append.mp ht with hin | hin
    · exact List.mem_cons_of_mem _ (h.known t hin)
    · rw [List.mem_singleton.mp hin]
      exact List.mem_cons_self
  · intro t ht
    rcases List.mem_append.mp ht with hin | hin
    · exact h.about t hin
    · rw [List.mem_singleton.mp hin]
      trivial
  · exact (h.receive task.reqId).spoken

/-- The thread of a generation is entered in two tables. -/
theorem Sound.enter (h : Sound st) {i : Nat} {t : Thread F D} (ht : st.threads[i]? = some t) :
    Sound { st with
      paused := st.paused.insert t.task.reqId i
      cancelled := st.cancelled.insert t.task.reqId i } :=
  ⟨h.distinct, h.known, h.paused.insert ht, h.cancelled.insert ht, h.streams, h.about, h.spoken⟩

theorem sound_handle {around : Around F D} (h : Sound st) (answer : LoadAnswer)
    (request : BackendRequest F J)
    (hfresh : ∀ reqId ∈ Process.numberOf request, reqId ∉ st.received) :
    Sound (st.handle around answer request) := by
  have hunrouted : ∀ {event : BackendEvent F}, routed event = none → Sound (st.send [event]) := by
    intro event hevent
    refine h.send _ ?_
    intro other hother reqId hrouted
    rw [List.mem_singleton.mp hother, hevent] at hrouted
    cases hrouted
  have hrefuse : ∀ (reqId : UInt64) (code message : Text),
      Sound ((st.receive reqId).send [.error (some reqId) code message]) := by
    intro reqId code message
    refine (h.receive reqId).send _ ?_
    intro event hevent other hrouted
    rw [List.mem_singleton.mp hevent] at hrouted
    obtain rfl : reqId = other := Option.some.inj hrouted
    exact List.mem_cons_self
  cases request with
  | hello proto =>
    rw [Process.handle]
    split
    · exact Sound.stop (hunrouted rfl)
    · exact hunrouted rfl
  | load modelId path digest nCtx =>
    show Sound (st.load around modelId nCtx answer)
    unfold Process.load
    split
    · exact hunrouted rfl
    · split
      · exact hunrouted rfl
      · exact (hunrouted rfl).withModels _
  | unload modelId => exact (hunrouted rfl).withModels _
  | generate reqId modelId sessionId messages params grammar tools parallelTools attachments =>
    rw [Process.handle]
    split
    · have hnumber : reqId ∉ st.received := hfresh reqId rfl
      exact (h.spawn ⟨reqId, modelId, _⟩ hnumber).enter
        (List.getElem?_concat_length ..)
    · exact hrefuse _ _ _
  | embed reqId modelId inputs =>
    exact h.spawn ⟨reqId, modelId, .embed⟩ (hfresh reqId rfl)
  | generateMedia reqId modelId sessionId kind prompt params count => exact hrefuse _ _ _
  | tokenize reqId modelId text =>
    exact h.spawn ⟨reqId, modelId, .tokenize⟩ (hfresh reqId rfl)
  | cancel reqId =>
    have hflag : IsFlag fun t : Thread F D => { t with cancelled := true } :=
      ⟨fun _ => rfl, fun _ => rfl⟩
    exact (h.change st.cancelled reqId hflag).withCancelling (some reqId)
  | pause reqId => exact h.change _ _ ⟨fun _ => rfl, fun _ => rfl⟩
  | resume reqId => exact h.change _ _ ⟨fun _ => rfl, fun _ => rfl⟩
  | dropCache sessionId => exact h
  | shutdown => exact h.stop

/-! ### A step of the process -/

theorem touch_threads (i : Nat) (reqId : UInt64) (touched : Touch) :
    (st.touch i reqId touched).threads = st.threads := by
  cases touched <;> rfl

theorem touch_out (i : Nat) (reqId : UInt64) (touched : Touch) :
    (st.touch i reqId touched).out = st.out := by
  cases touched <;> rfl

theorem Sound.touch (h : Sound st) {i : Nat} {t : Thread F D} (ht : st.threads[i]? = some t)
    (touched : Touch) : Sound (st.touch i t.task.reqId touched) := by
  cases touched with
  | nothing => exact h
  | register =>
    exact ⟨h.distinct, h.known, h.paused, h.cancelled, h.streams.insert ht, h.about, h.spoken⟩
  | forgetPaused =>
    exact ⟨h.distinct, h.known, h.paused.erase _, h.cancelled, h.streams, h.about, h.spoken⟩
  | forgetCancelled =>
    exact ⟨h.distinct, h.known, h.paused, h.cancelled.erase _, h.streams, h.about, h.spoken⟩
  | forgetStream =>
    exact ⟨h.distinct, h.known, h.paused, h.cancelled, h.streams.erase _, h.about, h.spoken⟩

variable {around : Around F D}

/-- A step of a thread, taken apart. -/
theorem advance_eq_some {st' : Process F D} {i : Nat} {answer : Answer}
    (h : st.advance around i answer = some st') :
    ∃ t place events touched, st.threads[i]? = some t ∧
      advance around t.task ((st.models.lookup t.task.modelId).map Loaded.port) t.paused
        t.cancelled t.place answer = some (place, events, touched) ∧
      st' = ({ st with threads := st.threads.set i { t with place } }.send events).touch i
        t.task.reqId touched := by
  obtain ⟨t, ht, hstep⟩ := Option.bind_eq_some_iff.mp h
  obtain ⟨⟨place, events, touched⟩, hadvance, heq⟩ := Option.map_eq_some_iff.mp hstep
  exact ⟨t, place, events, touched, ht, hadvance, heq.symm⟩

theorem sound_advance {st' : Process F D} (h : Sound st) {i : Nat} {answer : Answer}
    (hstep : st.advance around i answer = some st') : Sound st' := by
  obtain ⟨t, place, events, touched, ht, hadvance, rfl⟩ := advance_eq_some hstep
  obtain ⟨habout, hevents⟩ :=
    (advance_moves hadvance).about (h.about t (List.mem_of_getElem? ht))
  have hlt := (List.getElem?_eq_some_iff.mp ht).1
  have hthreads : Sound { st with threads := st.threads.set i { t with place } } := by
    refine h.ofThreads (List.length_set ..) ?_
    intro j u hu
    by_cases hij : i = j
    · subst hij
      rw [ht, Option.some.injEq] at hu
      subst hu
      exact ⟨_, List.getElem?_set_self hlt, rfl, habout⟩
    · exact ⟨u, (List.getElem?_set_ne hij).trans hu, rfl, h.about u (List.mem_of_getElem? hu)⟩
  have hsent := hthreads.send events (by
    intro event hevent reqId hrouted
    rw [hevents event hevent, Option.some.injEq] at hrouted
    exact hrouted ▸ h.known t (List.mem_of_getElem? ht))
  exact hsent.touch (t := { t with place }) (List.getElem?_set_self hlt) touched

theorem request_eq_some {st' : Process F D} {request : BackendRequest F J} {answer : LoadAnswer}
    (h : step around st (.request request answer) = some st') :
    (∀ reqId ∈ Process.numberOf request, reqId ∉ st.received) ∧
      st' = st.handle around answer request := by
  rw [step] at h
  split at h
  · cases h
  · rename_i hguard
    push Not at hguard
    cases h
    exact ⟨hguard.2.2, rfl⟩

theorem sound_step {st' : Process F D} {act : Act F J} (h : Sound st)
    (hstep : step around st act = some st') : Sound st' := by
  cases act with
  | request request answer =>
    obtain ⟨hfresh, rfl⟩ := request_eq_some hstep
    exact sound_handle h answer request hfresh
  | shut =>
    obtain ⟨reqId, -, rfl⟩ := Option.map_eq_some_iff.mp hstep
    have hflag : IsFlag fun t : Thread F D => { t with shut := true } :=
      ⟨fun _ => rfl, fun _ => rfl⟩
    exact (h.change st.streams reqId hflag).withCancelling none
  | hangUp =>
    rw [step] at hstep
    split at hstep
    · cases hstep
    · cases hstep
      exact h.stop
  | thread i answer => exact sound_advance h hstep

/-- What a step of the process is to the thread at `i`: its own step, or at most a change
    of its flags by a request with its number. -/
inductive Follows (around : Around F D) (st st' : Process F D) (act : Act F J) (i : Nat)
    (t t' : Thread F D) : Prop where
  | moves (answer : Answer) (events : List (BackendEvent F)) (touched : Touch)
      (hact : act = .thread i answer)
      (hstep : advance around t.task ((st.models.lookup t.task.modelId).map Loaded.port) t.paused
        t.cancelled t.place answer = some (t'.place, events, touched))
      (hsame : t' = { t with place := t'.place })
      (htold : toldTo t.task.reqId st'.out = toldTo t.task.reqId st.out ++ events)
  | stays (hact : ∀ answer, act ≠ .thread i answer)
      (htask : t'.task = t.task) (hplace : t'.place = t.place)
      (hcancelled : t'.cancelled = t.cancelled ∨
        t'.cancelled = true ∧ ∃ load, act = .request (.cancel t.task.reqId) load)
      (hpaused : t'.paused = t.paused ∨
        (t'.paused = true ∧ ∃ load, act = .request (.pause t.task.reqId) load) ∨
        t'.paused = false ∧ ∃ load, act = .request (.resume t.task.reqId) load)
      (htold : toldTo t.task.reqId st'.out = toldTo t.task.reqId st.out)

theorem follows_advance {st' : Process F D} (h : Sound st) {i j : Nat} {answer : Answer}
    (hstep : st.advance around j answer = some st') {t : Thread F D}
    (ht : st.threads[i]? = some t) :
    ∃ t', st'.threads[i]? = some t' ∧
      Follows around st st' (.thread j answer : Act F J) i t t' := by
  obtain ⟨u, place, events, touched, hu, hadvance, rfl⟩ := advance_eq_some hstep
  obtain ⟨-, hevents⟩ := (advance_moves hadvance).about (h.about u (List.mem_of_getElem? hu))
  have hlt := (List.getElem?_eq_some_iff.mp hu).1
  rw [touch_threads]
  by_cases hij : j = i
  · subst hij
    rw [hu, Option.some.injEq] at ht
    subst ht
    refine ⟨_, List.getElem?_set_self hlt, .moves answer events touched rfl hadvance rfl ?_⟩
    rw [touch_out]
    exact (toldTo_append ..).trans (by rw [toldTo_own hevents])
  · refine ⟨t, (List.getElem?_set_ne hij).trans ht, .stays ?_ rfl rfl (.inl rfl) (.inl rfl) ?_⟩
    · intro answer' heq
      cases heq
      exact hij rfl
    · have hother : ∀ event ∈ events, routed event ≠ some t.task.reqId := by
        intro event hevent heq
        rw [hevents event hevent, Option.some.injEq] at heq
        exact hij (h.unique hu ht heq)
      rw [touch_out]
      refine (toldTo_append ..).trans ?_
      rw [toldTo_other hother, List.append_nil]

theorem change_follows {table : Table UInt64 Nat} (hpoints : Points table st.threads)
    (reqId : UInt64) (f : Thread F D → Thread F D) {i : Nat} {t : Thread F D}
    (ht : st.threads[i]? = some t) :
    ∃ t', (st.change table reqId f).threads[i]? = some t' ∧
      (t' = t ∨ reqId = t.task.reqId ∧ t' = f t) := by
  rw [change_get, ht]
  by_cases hlookup : table.lookup reqId = some i
  · obtain ⟨u, hu, hid⟩ := hpoints reqId i hlookup
    rw [ht, Option.some.injEq] at hu
    subst hu
    exact ⟨_, rfl, .inr ⟨hid.symm, if_pos hlookup⟩⟩
  · exact ⟨_, rfl, .inl (if_neg hlookup)⟩

theorem change_out (st : Process F D) (table : Table UInt64 Nat) (reqId : UInt64)
    (f : Thread F D → Thread F D) : (st.change table reqId f).out = st.out := by
  unfold Process.change
  split <;> rfl

/-- A thread that nothing happens to. -/
theorem Follows.same {st' : Process F D} {act : Act F J} {i : Nat} {t : Thread F D}
    (hact : ∀ answer, act ≠ .thread i answer)
    (htold : toldTo t.task.reqId st'.out = toldTo t.task.reqId st.out) :
    Follows around st st' act i t t :=
  .stays hact rfl rfl (.inl rfl) (.inl rfl) htold

/-- What a request has said about it at once: nothing, where a thread will answer it, or
    one event. -/
structure Replied (st st' : Process F D) (number : Option UInt64)
    (events : List (BackendEvent F)) : Prop where
  out : st'.out = st.out ++ events
  about : ∀ event ∈ events, ∀ reqId, routed event = some reqId → reqId ∈ number
  received : ∀ reqId, reqId ∈ st'.received ↔ reqId ∈ number ∨ reqId ∈ st.received
  answers : ∀ reqId ∈ number,
    (∃ t ∈ st'.threads, t.task.reqId = reqId) ∨ Whole (toldTo reqId events)

theorem replied_aside {st' : Process F D} {event : BackendEvent F} (hevent : routed event = none)
    (hout : st'.out = st.out ++ [event]) (hreceived : st'.received = st.received) :
    Replied st st' none [event] := by
  refine ⟨hout, ?_, ?_, ?_⟩
  · intro other hother reqId hrouted
    rw [List.mem_singleton.mp hother, hevent] at hrouted
    cases hrouted
  · intro reqId
    rw [hreceived]
    simp
  · rintro reqId ⟨⟩

theorem replied_silent {st' : Process F D} (hout : st'.out = st.out)
    (hreceived : st'.received = st.received) : Replied st st' none [] := by
  refine ⟨by rw [hout, List.append_nil], by simp, ?_, ?_⟩
  · intro reqId
    rw [hreceived]
    simp
  · rintro reqId ⟨⟩

theorem replied_refused (reqId : UInt64) (code message : Text) :
    Replied st ((st.receive reqId).send [.error (some reqId) code message]) (some reqId)
      [.error (some reqId) code message] := by
  refine ⟨rfl, ?_, ?_, ?_⟩
  · intro event hevent other hrouted
    rw [List.mem_singleton.mp hevent] at hrouted
    exact hrouted
  · intro other
    simp [Process.receive, Process.send, eq_comm]
  · intro other hother
    obtain rfl : reqId = other := Option.some.inj hother
    right
    rw [toldTo_own (by simp [routed])]
    exact ⟨[], _, rfl, rfl, by simp⟩

theorem replied_spawned {st' : Process F D} (task : Task) (hout : st'.out = st.out)
    (hreceived : st'.received = task.reqId :: st.received)
    (hthreads : st'.threads = st.threads ++ [⟨task, .starting, false, false, false⟩]) :
    Replied st st' (some task.reqId) [] := by
  refine ⟨by rw [hout, List.append_nil], by simp, ?_, ?_⟩
  · intro reqId
    rw [hreceived]
    simp [eq_comm]
  · intro reqId hreqId
    obtain rfl : task.reqId = reqId := Option.some.inj hreqId
    left
    rw [hthreads]
    exact ⟨_, List.mem_append_right _ (List.mem_singleton_self _), rfl⟩

theorem change_received (st : Process F D) (table : Table UInt64 Nat) (reqId : UInt64)
    (f : Thread F D → Thread F D) : (st.change table reqId f).received = st.received := by
  unfold Process.change
  split <;> rfl

theorem handle_replied (st : Process F D) (around : Around F D) (answer : LoadAnswer)
    (request : BackendRequest F J) :
    ∃ events, Replied st (st.handle around answer request) (Process.numberOf request) events := by
  cases request with
  | hello proto =>
    rw [Process.handle]
    split
    · exact ⟨_, replied_aside rfl rfl rfl⟩
    · exact ⟨_, replied_aside rfl rfl rfl⟩
  | load modelId path digest nCtx =>
    rw [Process.handle]
    unfold Process.load
    split
    · exact ⟨_, replied_aside rfl rfl rfl⟩
    · split
      · exact ⟨_, replied_aside rfl rfl rfl⟩
      · exact ⟨_, replied_aside rfl rfl rfl⟩
  | unload modelId => exact ⟨_, replied_aside rfl rfl rfl⟩
  | generate reqId modelId sessionId messages params grammar tools parallelTools attachments =>
    rw [Process.handle]
    split
    · exact ⟨_, replied_spawned
        ⟨reqId, modelId, .generate (tools.any fun t => !t.isEmpty)⟩ rfl rfl rfl⟩
    · exact ⟨_, replied_refused reqId _ _⟩
  | embed reqId modelId inputs =>
    exact ⟨_, replied_spawned ⟨reqId, modelId, .embed⟩ rfl rfl rfl⟩
  | generateMedia reqId modelId sessionId kind prompt params count =>
    exact ⟨_, replied_refused reqId _ _⟩
  | tokenize reqId modelId text =>
    exact ⟨_, replied_spawned ⟨reqId, modelId, .tokenize⟩ rfl rfl rfl⟩
  | cancel reqId =>
    exact ⟨_, replied_silent (change_out st st.cancelled reqId _)
      (change_received st st.cancelled reqId _)⟩
  | pause reqId =>
    exact ⟨_, replied_silent (change_out st st.paused reqId _)
      (change_received st st.paused reqId _)⟩
  | resume reqId =>
    exact ⟨_, replied_silent (change_out st st.paused reqId _)
      (change_received st st.paused reqId _)⟩
  | dropCache sessionId => exact ⟨_, replied_silent rfl rfl⟩
  | shutdown => exact ⟨_, replied_silent rfl rfl⟩

/-- Nothing is said about a request that came before. -/
theorem Replied.told {st' : Process F D} {number : Option UInt64}
    {events : List (BackendEvent F)} (h : Replied st st' number events)
    (hfresh : ∀ reqId ∈ number, reqId ∉ st.received) {reqId : UInt64}
    (hid : reqId ∈ st.received) : toldTo reqId st'.out = toldTo reqId st.out := by
  have hother : ∀ event ∈ events, routed event ≠ some reqId := by
    intro event hevent hrouted
    exact hfresh reqId (h.about event hevent reqId hrouted) hid
  rw [h.out, toldTo_append, toldTo_other hother, List.append_nil]

theorem follows_handle (h : Sound st) (answer : LoadAnswer) (request : BackendRequest F J)
    (hfresh : ∀ reqId ∈ Process.numberOf request, reqId ∉ st.received) {i : Nat}
    {t : Thread F D} (ht : st.threads[i]? = some t) :
    ∃ t', (st.handle around answer request).threads[i]? = some t' ∧
      Follows around st (st.handle around answer request) (.request request answer) i t t' := by
  have hact : ∀ other, (.request request answer : Act F J) ≠ .thread i other := by
    intro other heq
    cases heq
  obtain ⟨events, hreplied⟩ := handle_replied st around answer request
  have htold := hreplied.told hfresh (h.known t (List.mem_of_getElem? ht))
  have hsame : (st.handle around answer request).threads[i]? = some t →
      ∃ t', (st.handle around answer request).threads[i]? = some t' ∧
        Follows around st (st.handle around answer request) (.request request answer) i t t' :=
    fun hkept => ⟨t, hkept, .same hact htold⟩
  have hspawned : ∀ task : Task, (st.threads ++ [⟨task, .starting, false, false, false⟩])[i]? =
      some t := by
    intro task
    exact (List.getElem?_append_left (List.getElem?_eq_some_iff.mp ht).1).trans ht
  cases request with
  | hello proto =>
    refine hsame ?_
    rw [Process.handle]
    split <;> exact ht
  | load modelId path digest nCtx =>
    refine hsame ?_
    rw [Process.handle]
    unfold Process.load
    split
    · exact ht
    · split <;> exact ht
  | unload modelId => exact hsame ht
  | generate reqId modelId sessionId messages params grammar tools parallelTools attachments =>
    refine hsame ?_
    rw [Process.handle]
    split
    · exact hspawned _
    · exact ht
  | embed reqId modelId inputs => exact hsame (hspawned _)
  | generateMedia reqId modelId sessionId kind prompt params count => exact hsame ht
  | tokenize reqId modelId text => exact hsame (hspawned _)
  | cancel reqId =>
    obtain ⟨t', ht', hflag⟩ := change_follows h.cancelled reqId
      (fun t => { t with cancelled := true }) ht
    rcases hflag with rfl | ⟨rfl, rfl⟩
    · exact hsame ht'
    · exact ⟨_, ht', .stays hact rfl rfl (.inr ⟨rfl, answer, rfl⟩) (.inl rfl) htold⟩
  | pause reqId =>
    obtain ⟨t', ht', hflag⟩ := change_follows h.paused reqId
      (fun t => { t with paused := true }) ht
    rcases hflag with rfl | ⟨rfl, rfl⟩
    · exact hsame ht'
    · exact ⟨_, ht', .stays hact rfl rfl (.inl rfl) (.inr (.inl ⟨rfl, answer, rfl⟩)) htold⟩
  | resume reqId =>
    obtain ⟨t', ht', hflag⟩ := change_follows h.paused reqId
      (fun t => { t with paused := false }) ht
    rcases hflag with rfl | ⟨rfl, rfl⟩
    · exact hsame ht'
    · exact ⟨_, ht', .stays hact rfl rfl (.inl rfl) (.inr (.inr ⟨rfl, answer, rfl⟩)) htold⟩
  | dropCache sessionId => exact hsame ht
  | shutdown => exact hsame ht

/-- **One thread in a step of the process.** -/
theorem step_thread {st' : Process F D} {act : Act F J} (h : Sound st)
    (hstep : step around st act = some st') {i : Nat} {t : Thread F D}
    (ht : st.threads[i]? = some t) :
    ∃ t', st'.threads[i]? = some t' ∧ Follows around st st' act i t t' := by
  cases act with
  | request request answer =>
    obtain ⟨hfresh, rfl⟩ := request_eq_some hstep
    exact follows_handle h answer request hfresh ht
  | shut =>
    obtain ⟨reqId, -, rfl⟩ := Option.map_eq_some_iff.mp hstep
    obtain ⟨t', ht', hflag⟩ := change_follows h.streams reqId (fun t => { t with shut := true }) ht
    have hact : ∀ answer, (.shut : Act F J) ≠ .thread i answer := by
      intro answer heq
      cases heq
    have hout := change_out st st.streams reqId fun t => { t with shut := true }
    refine ⟨t', ht', ?_⟩
    rcases hflag with rfl | ⟨rfl, rfl⟩
    · exact .same hact (congrArg _ hout)
    · exact .stays hact rfl rfl (.inl rfl) (.inl rfl) (congrArg _ hout)
  | hangUp =>
    have hact : ∀ answer, (.hangUp : Act F J) ≠ .thread i answer := by
      intro answer heq
      cases heq
    rw [step] at hstep
    split at hstep
    · cases hstep
    · cases hstep
      exact ⟨t, ht, .same hact rfl⟩
  | thread j answer => exact follows_advance h hstep ht

theorem toldTo_fresh (h : Sound st) {reqId : UInt64} (hid : reqId ∉ st.received) :
    toldTo reqId st.out = [] := by
  refine toldTo_other ?_
  intro event hevent heq
  exact hid (h.spoken event hevent reqId heq)

/-- A thread that was not there before has just been started, under a new number. -/
structure IsNew (st st' : Process F D) (i : Nat) (t : Thread F D) : Prop where
  place : t.place = .starting
  unflagged : t.cancelled = false ∧ t.paused = false
  index : i = st.threads.length
  fresh : t.task.reqId ∉ st.received
  out : st'.out = st.out
  entered : ∀ hasTools, t.task.job = .generate hasTools →
    st'.paused.lookup t.task.reqId = some i ∧ st'.cancelled.lookup t.task.reqId = some i

theorem isNew_concat {st' : Process F D} (task : Task) (hid : task.reqId ∉ st.received)
    (hthreads : st'.threads = st.threads ++ [⟨task, .starting, false, false, false⟩])
    (hout : st'.out = st.out)
    (hentered : ∀ hasTools, task.job = .generate hasTools →
      st'.paused.lookup task.reqId = some st.threads.length ∧
        st'.cancelled.lookup task.reqId = some st.threads.length)
    {i : Nat} {t : Thread F D} (hnone : st.threads[i]? = none)
    (ht : st'.threads[i]? = some t) : IsNew st st' i t := by
  rw [List.getElem?_eq_none_iff] at hnone
  rw [hthreads, List.getElem?_append_right hnone, List.getElem?_singleton] at ht
  split at ht
  · cases ht
    obtain rfl : i = st.threads.length := by omega
    exact ⟨rfl, ⟨rfl, rfl⟩, rfl, hid, hout, hentered⟩
  · cases ht

theorem step_new {st' : Process F D} {act : Act F J}
    (hstep : step around st act = some st') {i : Nat} {t : Thread F D}
    (hnone : st.threads[i]? = none) (ht : st'.threads[i]? = some t) : IsNew st st' i t := by
  have hsame : st'.threads.length = st.threads.length → IsNew st st' i t := by
    intro hlength
    rw [List.getElem?_eq_none_iff] at hnone
    rw [List.getElem?_eq_none (hlength ▸ hnone)] at ht
    cases ht
  have hchange : ∀ (table : Table UInt64 Nat) (reqId : UInt64) (f : Thread F D → Thread F D),
      (st.change table reqId f).threads.length = st.threads.length := by
    intro table reqId f
    unfold Process.change
    split
    · exact List.length_modify ..
    · rfl
  cases act with
  | request request answer =>
    obtain ⟨hfresh, rfl⟩ := request_eq_some hstep
    cases request with
    | hello proto =>
      refine hsame ?_
      rw [Process.handle]
      split <;> rfl
    | load modelId path digest nCtx =>
      refine hsame ?_
      rw [Process.handle]
      unfold Process.load
      split
      · rfl
      · split <;> rfl
    | unload modelId => exact hsame rfl
    | generate reqId modelId sessionId messages params grammar tools parallelTools attachments =>
      cases hattached : attachments.isEmpty with
      | true =>
        refine isNew_concat ⟨reqId, modelId, .generate (tools.any fun t => !t.isEmpty)⟩
          (hfresh reqId rfl) ?_ ?_ ?_ hnone ht
        · rw [Process.handle, if_pos hattached]
          rfl
        · rw [Process.handle, if_pos hattached]
          rfl
        · intro _ _
          rw [Process.handle, if_pos hattached]
          exact ⟨AList.lookup_insert .., AList.lookup_insert ..⟩
      | false =>
        refine hsame ?_
        rw [Process.handle, hattached, if_neg Bool.false_ne_true]
        rfl
    | embed reqId modelId inputs =>
      refine isNew_concat ⟨reqId, modelId, .embed⟩ (hfresh reqId rfl) ?_ ?_ ?_ hnone ht
      · rfl
      · rfl
      · rintro _ ⟨⟩
    | generateMedia reqId modelId sessionId kind prompt params count => exact hsame rfl
    | tokenize reqId modelId text =>
      refine isNew_concat ⟨reqId, modelId, .tokenize⟩ (hfresh reqId rfl) ?_ ?_ ?_ hnone ht
      · rfl
      · rfl
      · rintro _ ⟨⟩
    | cancel reqId => exact hsame (hchange st.cancelled reqId _)
    | pause reqId => exact hsame (hchange st.paused reqId _)
    | resume reqId => exact hsame (hchange st.paused reqId _)
    | dropCache sessionId => exact hsame rfl
    | shutdown => exact hsame rfl
  | shut =>
    obtain ⟨reqId, -, rfl⟩ := Option.map_eq_some_iff.mp hstep
    exact hsame (hchange st.streams reqId _)
  | hangUp =>
    rw [step] at hstep
    split at hstep
    · cases hstep
    · cases hstep
      exact hsame rfl
  | thread j answer =>
    obtain ⟨u, place, events, touched, -, -, rfl⟩ := advance_eq_some hstep
    refine hsame ?_
    rw [touch_threads]
    exact List.length_set ..

/-! ### Flags can be reached -/

/-- Both flags of a generation that has not said all it will say are in their tables. -/
def Entered (st : Process F D) : Prop :=
  ∀ i t hasTools, st.threads[i]? = some t → t.task.job = .generate hasTools →
    t.place.isOver = false →
      st.paused.lookup t.task.reqId = some i ∧ st.cancelled.lookup t.task.reqId = some i

/-- The tables keep what they have about a thread that has more to say. -/
def Keeps (st st' : Process F D) : Prop :=
  ∀ i t, st.threads[i]? = some t → ∀ t', st'.threads[i]? = some t' → t'.place.isOver = false →
    (st.paused.lookup t.task.reqId = some i → st'.paused.lookup t.task.reqId = some i) ∧
      (st.cancelled.lookup t.task.reqId = some i → st'.cancelled.lookup t.task.reqId = some i)

theorem keeps_of_tables {st' : Process F D} (hpaused : st'.paused = st.paused)
    (hcancelled : st'.cancelled = st.cancelled) : Keeps st st' := by
  intro i t _ t' _ _
  rw [hpaused, hcancelled]
  exact ⟨id, id⟩

theorem lookup_erase_kept {table : Table UInt64 Nat} {reqId other : UInt64} {i : Nat}
    (hne : reqId ≠ other) (h : table.lookup reqId = some i) :
    (table.erase other).lookup reqId = some i := by
  rw [AList.lookup_erase_ne hne]
  exact h

theorem keeps_advance {st' : Process F D} (h : Sound st) {j : Nat} {answer : Answer}
    (hstep : st.advance around j answer = some st') : Keeps st st' := by
  obtain ⟨u, place, events, touched, hu, hadvance, rfl⟩ := advance_eq_some hstep
  intro i t ht t' ht' hopen
  have hlt := (List.getElem?_eq_some_iff.mp hu).1
  rw [touch_threads] at ht'
  by_cases hforgets : touched = .forgetPaused ∨ touched = .forgetCancelled
  · -- only a thread that is over forgets its flags, and it is another one
    have hother : j ≠ i := by
      rintro rfl
      have hset := (List.getElem?_set_self hlt).symm.trans ht'
      cases hset
      rw [advance_forgets hadvance hforgets] at hopen
      cases hopen
    have hne : t.task.reqId ≠ u.task.reqId := fun heq => hother (h.unique hu ht heq.symm)
    rcases hforgets with rfl | rfl
    · exact ⟨lookup_erase_kept hne, id⟩
    · exact ⟨id, lookup_erase_kept hne⟩
  · rw [not_or] at hforgets
    cases touched with
    | nothing | register | forgetStream => exact ⟨id, id⟩
    | forgetPaused => exact absurd rfl hforgets.1
    | forgetCancelled => exact absurd rfl hforgets.2

theorem change_tables (st : Process F D) (table : Table UInt64 Nat) (reqId : UInt64)
    (f : Thread F D → Thread F D) :
    (st.change table reqId f).paused = st.paused ∧
      (st.change table reqId f).cancelled = st.cancelled := by
  unfold Process.change
  split <;> exact ⟨rfl, rfl⟩

theorem keeps_handle (h : Sound st) (answer : LoadAnswer) (request : BackendRequest F J)
    (hfresh : ∀ reqId ∈ Process.numberOf request, reqId ∉ st.received) :
    Keeps st (st.handle around answer request) := by
  have hchange : ∀ (table : Table UInt64 Nat) (reqId : UInt64) (f : Thread F D → Thread F D),
      Keeps st (st.change table reqId f) := fun table reqId f =>
    keeps_of_tables (change_tables _ table reqId f).1 (change_tables _ table reqId f).2
  cases request with
  | hello proto =>
    rw [Process.handle]
    split <;> exact keeps_of_tables rfl rfl
  | load modelId path digest nCtx =>
    rw [Process.handle]
    unfold Process.load
    split
    · exact keeps_of_tables rfl rfl
    · split <;> exact keeps_of_tables rfl rfl
  | unload modelId => exact keeps_of_tables rfl rfl
  | generate reqId modelId sessionId messages params grammar tools parallelTools attachments =>
    rw [Process.handle]
    split
    · intro i t ht t' _ _
      have hne : t.task.reqId ≠ reqId := by
        rintro rfl
        exact hfresh _ rfl (h.known t (List.mem_of_getElem? ht))
      exact ⟨(AList.lookup_insert_ne hne).trans, (AList.lookup_insert_ne hne).trans⟩
    · exact keeps_of_tables rfl rfl
  | embed reqId modelId inputs => exact keeps_of_tables rfl rfl
  | generateMedia reqId modelId sessionId kind prompt params count =>
    exact keeps_of_tables rfl rfl
  | tokenize reqId modelId text => exact keeps_of_tables rfl rfl
  | cancel reqId => exact hchange st.cancelled reqId _
  | pause reqId => exact hchange st.paused reqId _
  | resume reqId => exact hchange st.paused reqId _
  | dropCache sessionId => exact keeps_of_tables rfl rfl
  | shutdown => exact keeps_of_tables rfl rfl

theorem Follows.over {st' : Process F D} {act : Act F J} {i : Nat} {t t' : Thread F D}
    (h : Follows around st st' act i t t') :
    t'.task = t.task ∧ (t.place.isOver = true → t'.place.isOver = true) := by
  cases h with
  | moves answer events touched hact hstep hsame htold =>
    exact ⟨by rw [hsame], fun hover => ((advance_moves hstep).over hover).1⟩
  | stays hact htask hplace hcancelled hpaused htold => exact ⟨htask, fun hover => hplace ▸ hover⟩

theorem keeps_step {st' : Process F D} {act : Act F J} (h : Sound st)
    (hstep : step around st act = some st') : Keeps st st' := by
  cases act with
  | request request answer =>
    obtain ⟨hfresh, rfl⟩ := request_eq_some hstep
    exact keeps_handle h answer request hfresh
  | shut =>
    obtain ⟨reqId, -, rfl⟩ := Option.map_eq_some_iff.mp hstep
    obtain ⟨hpaused, hcancelled⟩ := change_tables st st.streams reqId
      fun t => { t with shut := true }
    exact keeps_of_tables hpaused hcancelled
  | hangUp =>
    rw [step] at hstep
    split at hstep
    · cases hstep
    · cases hstep
      exact keeps_of_tables rfl rfl
  | thread j answer => exact keeps_advance h hstep

theorem entered_step {st' : Process F D} {act : Act F J} (h : Sound st) (hentered : Entered st)
    (hstep : step around st act = some st') : Entered st' := by
  intro i t' hasTools ht' hjob hopen
  cases ht : st.threads[i]? with
  | none => exact (step_new hstep ht ht').entered hasTools hjob
  | some t =>
    obtain ⟨u, hu, hfollows⟩ := step_thread h hstep ht
    rw [ht', Option.some.injEq] at hu
    subst hu
    obtain ⟨htask, hover⟩ := hfollows.over
    have hopen' : t.place.isOver = false := by
      rw [Bool.eq_false_iff]
      intro htrue
      rw [hover htrue] at hopen
      cases hopen
    obtain ⟨hpaused, hcancelled⟩ := hentered i t hasTools ht (htask ▸ hjob) hopen'
    obtain ⟨hkeptPaused, hkeptCancelled⟩ := keeps_step h hstep i t ht t' ht' hopen
    rw [htask]
    exact ⟨hkeptPaused hpaused, hkeptCancelled hcancelled⟩

end

end AiDaemon.LlamaCpp
