import AiDaemon.SchedSlots
import AiDaemon.Transition

/-!
# Pause messages against pause flags

`admit`, `attach` and `release` move the `paused` flags while they hold the
scheduler's lock, and send the matching `set_paused` messages after dropping it.
The global state below therefore keeps, beside `Inner`, the messages that are
queued and not yet sent and the log of what the backends have received.

A thread sends what its call queued before that call returns, so the next call
on the same slot finds nothing of its own pending; calls on different slots
interleave freely.  `Backend::begin` numbers requests from a counter, so a slot
is attached to a request no slot was attached to before.

Nothing orders the sends of two threads.  A background `attach` that pauses
itself can be overtaken by the `release` that resumes it (`pause_overtaken`),
which leaves the request paused at the backend for good.  What is true is that
flags and messages agree whenever the messages of each request arrive in the
order they were queued.
-/

namespace AiDaemon.Sched

open Transition

structure PauseState where
  inner : Inner
  /-- Queued messages, oldest first, each with the ticket whose call queued it. -/
  pending : List (Nat × SetPaused)
  /-- What the backends have received, oldest first. -/
  delivered : List SetPaused
  /-- The requests slots have been attached to. -/
  begun : List (Text × Nat)

def PauseState.new : PauseState := ⟨Inner.new, [], [], []⟩

inductive PauseStep where
  | enqueue (session : Text) (cls : Class)
  | admitTurn (ticket : Nat)
  | attach (ticket : Nat) (backend : Text) (reqId : Nat)
  | charge (now : Nat) (session : Text) (tokens : Nat)
  | release (ticket : Nat)
  | deliver (owner : Nat)
deriving DecidableEq

/-- The slot exists and its thread is between calls. -/
def between (st : PauseState) (ticket : Nat) : Bool :=
  st.inner.running.any (fun r => r.ticket = ticket) && st.pending.all (fun e => e.1 ≠ ticket)

/-- The next message `owner`'s call will send, with what is queued around it. -/
def nextOf (owner : Nat) : List (Nat × SetPaused) →
    Option (List (Nat × SetPaused) × SetPaused × List (Nat × SetPaused))
  | [] => none
  | e :: rest =>
    if e.1 = owner then some ([], e.2, rest)
    else (nextOf owner rest).map fun (before, msg, after) => (e :: before, msg, after)

def queue (st : PauseState) (ticket : Nat) (next : Inner × List SetPaused) : PauseState :=
  { st with inner := next.1, pending := st.pending ++ next.2.map fun msg => (ticket, msg) }

def pauseStep (s : Scheduler) (st : PauseState) : PauseStep → Option PauseState
  | .enqueue session cls => some { st with inner := enqueue st.inner session cls }
  | .admitTurn ticket => (admitTurn s st.inner ticket).map (queue st ticket)
  | .attach ticket backend reqId =>
    if between st ticket ∧ (backend, reqId) ∉ st.begun then
      some { queue st ticket (attach st.inner ticket backend reqId) with
        begun := (backend, reqId) :: st.begun }
    else none
  | .charge now session tokens => some { st with inner := charge st.inner now session tokens }
  | .release ticket =>
    if between st ticket then some (queue st ticket (release st.inner ticket)) else none
  | .deliver owner =>
    (nextOf owner st.pending).map fun (before, msg, after) =>
      { st with pending := before ++ after, delivered := st.delivered ++ [msg] }

def SetPaused.request (msg : SetPaused) : Text × Nat := (msg.backend, msg.reqId)

/-- The last value in a log of messages for a request; a request nobody wrote
    to is running. -/
def lastPaused (log : List SetPaused) (q : Text × Nat) : Bool :=
  ((log.filter fun msg => msg.request = q).getLast?.map SetPaused.paused).getD false

/-- A delivery overtakes nothing queued earlier for the same request. -/
def InOrder (st : PauseState) : PauseStep → Prop
  | .deliver owner =>
    match nextOf owner st.pending with
    | some (before, msg, _) => ∀ e ∈ before, e.2.request ≠ msg.request
    | none => True
  | _ => True

instance (st : PauseState) (a : PauseStep) : Decidable (InOrder st a) :=
  match a with
  | .deliver owner =>
    match h : nextOf owner st.pending with
    | some (before, msg, _) =>
      decidable_of_iff (∀ e ∈ before, e.2.request ≠ msg.request) (by simp [InOrder, h])
    | none => isTrue (by simp [InOrder, h])
  | .enqueue _ _ | .admitTurn _ | .attach _ _ _ | .charge _ _ _ | .release _ => isTrue trivial

/-! ### Reading a log -/

theorem nextOf_eq_some {owner : Nat} {pending before after : List (Nat × SetPaused)}
    {msg : SetPaused} (h : nextOf owner pending = some (before, msg, after)) :
    pending = before ++ (owner, msg) :: after := by
  induction pending generalizing before with
  | nil => cases h
  | cons e rest ih =>
    by_cases he : e.1 = owner
    · simp only [nextOf, he, if_true, Option.some.injEq, Prod.mk.injEq] at h
      obtain ⟨rfl, rfl, rfl⟩ := h
      simp [← he]
    · simp only [nextOf, he, if_false, Option.map_eq_some_iff] at h
      obtain ⟨⟨before', msg', after'⟩, hnext, heq⟩ := h
      simp only [Prod.mk.injEq] at heq
      obtain ⟨rfl, rfl, rfl⟩ := heq
      rw [ih hnext]
      rfl

/-- Sending a message early changes nothing for a request it does not overtake. -/
theorem lastPaused_deliver {delivered before after : List SetPaused} {msg : SetPaused}
    (horder : ∀ m ∈ before, m.request ≠ msg.request) (q : Text × Nat) :
    lastPaused (delivered ++ [msg] ++ (before ++ after)) q =
      lastPaused (delivered ++ (before ++ msg :: after)) q := by
  have hfilter : (delivered ++ [msg] ++ (before ++ after)).filter (fun m => m.request = q) =
      (delivered ++ (before ++ msg :: after)).filter fun m => m.request = q := by
    simp only [List.filter_append, List.filter_cons]
    by_cases hmsg : msg.request = q
    · have hnone : before.filter (fun m => m.request = q) = [] := by
        rw [List.filter_eq_nil_iff]
        intro m hm
        rw [decide_eq_true_eq, ← hmsg]
        exact horder m hm
      simp [hmsg, hnone]
    · simp [hmsg]
  simp only [lastPaused, hfilter]

/-- Appending messages that all carry one value. -/
theorem lastPaused_append {log msgs : List SetPaused} {value : Bool}
    (hvalue : ∀ m ∈ msgs, m.paused = value) (q : Text × Nat) :
    lastPaused (log ++ msgs) q =
      if ∃ m ∈ msgs, m.request = q then value else lastPaused log q := by
  by_cases hex : ∃ m ∈ msgs, m.request = q
  · rw [if_pos hex]
    obtain ⟨m, hm, hmq⟩ := hex
    have hne : msgs.filter (fun m => m.request = q) ≠ [] := by
      apply List.ne_nil_of_mem
      exact List.mem_filter.mpr ⟨hm, by simpa using hmq⟩
    obtain ⟨last, hlast⟩ := Option.isSome_iff_exists.mp (List.getLast?_isSome.mpr hne)
    have hmem := (List.mem_filter.mp (List.mem_of_getLast? hlast)).1
    simp only [lastPaused, List.filter_append, List.getLast?_append, hlast]
    exact hvalue last hmem
  · rw [if_neg hex]
    have hnil : msgs.filter (fun m => m.request = q) = [] := by
      rw [List.filter_eq_nil_iff]
      intro m hm
      rw [decide_eq_true_eq]
      exact fun hmq => hex ⟨m, hm, hmq⟩
    simp only [lastPaused, List.filter_append, hnil, List.append_nil]

theorem lastPaused_fresh {log : List SetPaused} {q : Text × Nat}
    (h : ∀ m ∈ log, m.request ≠ q) : lastPaused log q = false := by
  have hnil : log.filter (fun m => m.request = q) = [] := by
    rw [List.filter_eq_nil_iff]
    intro m hm
    rw [decide_eq_true_eq]
    exact h m hm
  simp [lastPaused, hnil]

/-! ### Flags and queued messages agree -/

/-- Everything sent and still to be sent, in the order it was queued. -/
def PauseState.log (st : PauseState) : List SetPaused :=
  st.delivered ++ st.pending.map Prod.snd

structure PauseInv (s : Scheduler) (st : PauseState) : Prop where
  slots : SlotInv s st.inner
  agree : ∀ r ∈ st.inner.running, ∀ q, r.request = some q → lastPaused st.log q = r.paused
  running_begun : ∀ r ∈ st.inner.running, ∀ q, r.request = some q → q ∈ st.begun
  log_begun : ∀ msg ∈ st.log, msg.request ∈ st.begun
  request_unique : ∀ a ∈ st.inner.running, ∀ b ∈ st.inner.running, ∀ q,
    a.request = some q → b.request = some q → a.ticket = b.ticket

theorem log_queue (st : PauseState) (ticket : Nat) (next : Inner × List SetPaused) :
    (queue st ticket next).log = st.log ++ next.2 := by
  simp [PauseState.log, queue, Function.comp_def]

theorem pauseMsg_eq_some {r : Running} {msg : SetPaused} :
    pauseMsg r = some msg ↔
      r.cls = .background ∧ r.paused = false ∧ r.request = some msg.request ∧
        msg.paused = true := by
  unfold pauseMsg
  split
  · rename_i h
    simp only [Option.map_eq_some_iff, h.1, h.2, true_and]
    constructor
    · rintro ⟨q, hq, rfl⟩
      exact ⟨hq, rfl⟩
    · rintro ⟨hq, hp⟩
      refine ⟨msg.request, hq, ?_⟩
      cases msg
      simp only [SetPaused.request] at hp ⊢
      rw [hp]
  · rename_i h
    constructor
    · intro hnone
      cases hnone
    · rintro ⟨hc, hp, -⟩
      exact absurd ⟨hc, hp⟩ h

theorem resumeMsg_eq_some {r : Running} {msg : SetPaused} :
    resumeMsg r = some msg ↔
      r.paused = true ∧ r.request = some msg.request ∧ msg.paused = false := by
  unfold resumeMsg
  split
  · rename_i h
    simp only [Option.map_eq_some_iff, h, true_and]
    constructor
    · rintro ⟨q, hq, rfl⟩
      exact ⟨hq, rfl⟩
    · rintro ⟨hq, hp⟩
      refine ⟨msg.request, hq, ?_⟩
      cases msg
      simp only [SetPaused.request] at hp ⊢
      rw [hp]
  · rename_i h
    constructor
    · intro hnone
      cases hnone
    · rintro ⟨hp, -⟩
      exact absurd hp h

/-- An attached entry is not the one just admitted. -/
theorem mem_of_attached {running : List Running} {me : Waiter} {r : Running} {q : Text × Nat}
    (hr : r ∈ running ++ [me.entry]) (hq : r.request = some q) : r ∈ running := by
  rcases List.mem_append.mp hr with hr | hr
  · exact hr
  · rw [List.mem_singleton.mp hr] at hq
    cases hq

section Entry

variable {s : Scheduler} {st : PauseState} (hinv : PauseInv s st)
include hinv

/-- Two attached entries of the running list with one request are one entry. -/
theorem PauseInv.eq_of_request {a b : Running} (ha : a ∈ st.inner.running)
    (hb : b ∈ st.inner.running) {q : Text × Nat} (haq : a.request = some q)
    (hbq : b.request = some q) : a = b :=
  eq_of_ticket hinv.slots ha hb (hinv.request_unique a ha b hb q haq hbq)

/-- An interactive arrival: what it queues for an entry is what it sets there. -/
theorem agree_pause {r : Running} (hr : r ∈ st.inner.running) {q : Text × Nat}
    (hq : r.request = some q) (me : Waiter) :
    lastPaused (st.log ++ (st.inner.running ++ [me.entry]).filterMap pauseMsg) q =
      (pauseEntry r).paused := by
  have hvalue : ∀ m ∈ (st.inner.running ++ [me.entry]).filterMap pauseMsg, m.paused = true := by
    intro m hm
    obtain ⟨x, -, hx⟩ := List.mem_filterMap.mp hm
    exact (pauseMsg_eq_some.mp hx).2.2.2
  rw [lastPaused_append hvalue]
  by_cases hpausing : r.cls = .background ∧ r.paused = false
  · have hmsg : ∃ m ∈ (st.inner.running ++ [me.entry]).filterMap pauseMsg, m.request = q := by
      refine ⟨⟨q.1, q.2, true⟩, ?_, rfl⟩
      exact List.mem_filterMap.mpr ⟨r, List.mem_append_left _ hr,
        pauseMsg_eq_some.mpr ⟨hpausing.1, hpausing.2, hq, rfl⟩⟩
    rw [if_pos hmsg, pauseEntry_background hpausing.1]
  · -- nobody else carries this request, so nothing was queued for it
    have hmsg : ¬ ∃ m ∈ (st.inner.running ++ [me.entry]).filterMap pauseMsg, m.request = q := by
      rintro ⟨m, hm, hmq⟩
      obtain ⟨x, hx, hxm⟩ := List.mem_filterMap.mp hm
      obtain ⟨hxc, hxp, hxq, -⟩ := pauseMsg_eq_some.mp hxm
      rw [hmq] at hxq
      have hsame := hinv.eq_of_request (mem_of_attached hx hxq) hr hxq hq
      subst hsame
      exact hpausing ⟨hxc, hxp⟩
    rw [if_neg hmsg, hinv.agree r hr q hq, pauseEntry, if_neg hpausing]

/-- The last interactive departure, for an entry that stays. -/
theorem agree_resume {ticket : Nat} {r : Running} (hr : r ∈ remaining st.inner ticket)
    {q : Text × Nat} (hq : r.request = some q) :
    lastPaused (st.log ++ (remaining st.inner ticket).filterMap resumeMsg) q = false := by
  have hsub : (remaining st.inner ticket) ⊆ st.inner.running :=
    List.filter_sublist.subset
  have hvalue : ∀ m ∈ (remaining st.inner ticket).filterMap resumeMsg, m.paused = false := by
    intro m hm
    obtain ⟨x, -, hx⟩ := List.mem_filterMap.mp hm
    exact (resumeMsg_eq_some.mp hx).2.2
  rw [lastPaused_append hvalue]
  cases hp : r.paused with
  | true =>
    have hmsg : ∃ m ∈ (remaining st.inner ticket).filterMap resumeMsg, m.request = q :=
      ⟨⟨q.1, q.2, false⟩, List.mem_filterMap.mpr ⟨r, hr, resumeMsg_eq_some.mpr ⟨hp, hq, rfl⟩⟩,
        rfl⟩
    rw [if_pos hmsg]
  | false =>
    have hmsg : ¬ ∃ m ∈ (remaining st.inner ticket).filterMap resumeMsg, m.request = q := by
      rintro ⟨m, hm, hmq⟩
      obtain ⟨x, hx, hxm⟩ := List.mem_filterMap.mp hm
      obtain ⟨hxp, hxq, -⟩ := resumeMsg_eq_some.mp hxm
      rw [hmq] at hxq
      have hsame := hinv.eq_of_request (hsub hx) (hsub hr) hxq hq
      rw [hsame, hp] at hxp
      cases hxp
    rw [if_neg hmsg, hinv.agree r (hsub hr) q hq, hp]

end Entry

/-- A step that begins no request keeps the invariant when its attached entries
    are old ones, its messages are for old ones, and the two agree. -/
theorem queue_pause {s : Scheduler} {st : PauseState} (hinv : PauseInv s st) {ticket : Nat}
    {next : Inner × List SetPaused} (hslots : SlotInv s next.1)
    (hentry : ∀ r ∈ next.1.running, ∀ q, r.request = some q →
      (∃ old ∈ st.inner.running, old.request = some q ∧ old.ticket = r.ticket) ∧
        lastPaused (st.log ++ next.2) q = r.paused)
    (hmsgs : ∀ msg ∈ next.2, ∃ old ∈ st.inner.running, old.request = some msg.request) :
    PauseInv s (queue st ticket next) := by
  refine ⟨hslots, ?_, ?_, ?_, ?_⟩
  · intro r hr q hq
    rw [log_queue]
    exact (hentry r hr q hq).2
  · intro r hr q hq
    obtain ⟨⟨old, hold, holdq, -⟩, -⟩ := hentry r hr q hq
    exact hinv.running_begun old hold q holdq
  · intro msg hmsg
    rw [log_queue] at hmsg
    rcases List.mem_append.mp hmsg with hmsg | hmsg
    · exact hinv.log_begun msg hmsg
    · obtain ⟨old, hold, holdq⟩ := hmsgs msg hmsg
      exact hinv.running_begun old hold _ holdq
  · intro a ha b hb q haq hbq
    obtain ⟨⟨a', ha', haq', hat⟩, -⟩ := hentry a ha q haq
    obtain ⟨⟨b', hb', hbq', hbt⟩, -⟩ := hentry b hb q hbq
    rw [← hat, ← hbt]
    exact hinv.request_unique a' ha' b' hb' q haq' hbq'

theorem admitTurn_pause {s : Scheduler} {st : PauseState} (hinv : PauseInv s st) {ticket : Nat}
    {next : Inner × List SetPaused} (h : admitTurn s st.inner ticket = some next) :
    PauseInv s (queue st ticket next) := by
  obtain ⟨inner, msgs⟩ := next
  have hslots := admitTurn_slots hinv.slots h
  obtain ⟨me, -, hadmitted⟩ := admitTurn_cases h
  rcases hadmitted.running with ⟨-, hrun, rfl⟩ | ⟨-, hrun, rfl⟩
  · apply queue_pause hinv hslots
    · intro r hr q hq
      rw [hrun] at hr
      obtain ⟨old, hold, rfl⟩ := List.mem_map.mp hr
      rw [pauseEntry_request] at hq
      have hmem := mem_of_attached hold hq
      exact ⟨⟨old, hmem, hq, (pauseEntry_ticket old).symm⟩, agree_pause hinv hmem hq me⟩
    · intro msg hmsg
      obtain ⟨x, hx, hxm⟩ := List.mem_filterMap.mp hmsg
      have hxq := (pauseMsg_eq_some.mp hxm).2.2.1
      exact ⟨x, mem_of_attached hx hxq, hxq⟩
  · apply queue_pause hinv hslots
    · intro r hr q hq
      rw [hrun] at hr
      have hmem := mem_of_attached hr hq
      rw [List.append_nil]
      exact ⟨⟨r, hmem, hq, rfl⟩, hinv.agree r hmem q hq⟩
    · intro msg hmsg
      cases hmsg

theorem release_pause {s : Scheduler} {st : PauseState} (hinv : PauseInv s st) (ticket : Nat) :
    PauseInv s (queue st ticket (release st.inner ticket)) := by
  have hslots := release_slots hinv.slots ticket
  have hsub : (remaining st.inner ticket) ⊆ st.inner.running :=
    List.filter_sublist.subset
  rcases release_cases st.inner ticket with ⟨-, heq⟩ | ⟨-, heq⟩
  · rw [heq] at hslots ⊢
    apply queue_pause hinv hslots
    · intro r hr q hq
      rw [List.append_nil]
      exact ⟨⟨r, hsub hr, hq, rfl⟩, hinv.agree r (hsub hr) q hq⟩
    · intro msg hmsg
      cases hmsg
  · rw [heq] at hslots ⊢
    apply queue_pause hinv hslots
    · intro r hr q hq
      obtain ⟨old, hold, rfl⟩ := List.mem_map.mp hr
      exact ⟨⟨old, hsub hold, hq, rfl⟩, agree_resume hinv hold hq⟩
    · intro msg hmsg
      obtain ⟨x, hx, hxm⟩ := List.mem_filterMap.mp hmsg
      exact ⟨x, hsub hx, (resumeMsg_eq_some.mp hxm).2.1⟩

/-- A slot whose own entry `attach` does not pause was not paused before. -/
theorem unpaused_before_attach {s : Scheduler} {inner : Inner} (hinv : SlotInv s inner)
    {r : Running} (hr : r ∈ inner.running)
    (hstay : ¬ (r.cls = .background ∧ shouldPause inner r.ticket = true)) :
    r.paused = false := by
  cases hcls : r.cls with
  | interactive => exact hinv.interactive_unpaused r hr hcls
  | background =>
    apply hinv.none_paused _ r hr
    rintro ⟨x, hx, hxc⟩
    apply hstay
    refine ⟨hcls, ?_⟩
    simp only [shouldPause, List.any_eq_true, decide_eq_true_eq]
    refine ⟨x, hx, hxc, ?_⟩
    intro hticket
    rw [eq_of_ticket hinv hx hr hticket, hcls] at hxc
    cases hxc

/-- What `attach` sends: one message, and only when it pauses its own entry. -/
theorem attach_msgs {s : Scheduler} {inner : Inner} (hinv : SlotInv s inner) {r : Running}
    (hr : r ∈ inner.running) (backend : Text) (reqId : Nat) :
    (attach inner r.ticket backend reqId).2 =
      if r.cls = .background ∧ shouldPause inner r.ticket = true then [⟨backend, reqId, true⟩]
      else [] := by
  have hfind : inner.running.find? (fun x => x.ticket = r.ticket) = some r := by
    cases hfound : inner.running.find? (fun x => x.ticket = r.ticket) with
    | none =>
      have hno := List.find?_eq_none.mp hfound r hr
      simp at hno
    | some x =>
      have hxt : x.ticket = r.ticket := by simpa using List.find?_some hfound
      rw [eq_of_ticket hinv (List.mem_of_find?_eq_some hfound) hr hxt]
  simp only [attach, hfind, Option.any_some, decide_eq_true_eq]

/-- An entry after `attach` is an old one, or the slot's own. -/
theorem mem_attach {s : Scheduler} {inner : Inner} (hinv : SlotInv s inner) {mine r : Running}
    (hmine : mine ∈ inner.running) {backend : Text} {reqId : Nat}
    (hr : r ∈ (attach inner mine.ticket backend reqId).1.running) :
    r ∈ inner.running ∨ r = attachEntry backend reqId (shouldPause inner mine.ticket) mine := by
  rcases mem_updateFirst hr with hmem | ⟨old, hmem, hticket, rfl⟩
  · exact Or.inl hmem
  · rw [eq_of_ticket hinv hmem hmine (of_decide_eq_true hticket)]
    exact Or.inr rfl

@[simp] theorem attachEntry_request (backend : Text) (reqId : Nat) (pause : Bool) (r : Running) :
    (attachEntry backend reqId pause r).request = some (backend, reqId) := rfl

section Attach

variable {s : Scheduler} {st : PauseState} (hinv : PauseInv s st) {mine : Running}
  (hmine : mine ∈ st.inner.running) {backend : Text} {reqId : Nat}
  (hfresh : (backend, reqId) ∉ st.begun)
include hinv hmine

theorem mem_attach_msgs {m : SetPaused} (hm : m ∈ (attach st.inner mine.ticket backend reqId).2) :
    m.request = (backend, reqId) ∧ m.paused = true := by
  rw [attach_msgs hinv.slots hmine backend reqId] at hm
  split at hm
  · rw [List.mem_singleton.mp hm]
    exact ⟨rfl, rfl⟩
  · cases hm

include hfresh

/-- The slot's own entry: nothing was ever sent for its request before. -/
theorem agree_attach_own :
    lastPaused (st.log ++ (attach st.inner mine.ticket backend reqId).2) (backend, reqId) =
      (attachEntry backend reqId (shouldPause st.inner mine.ticket) mine).paused := by
  have hlast : lastPaused st.log (backend, reqId) = false := by
    apply lastPaused_fresh
    intro m hm heq
    have hbegun := hinv.log_begun m hm
    rw [heq] at hbegun
    exact hfresh hbegun
  rw [lastPaused_append fun m hm => (mem_attach_msgs hinv hmine hm).2, hlast,
    attach_msgs hinv.slots hmine]
  by_cases hpausing : mine.cls = .background ∧ shouldPause st.inner mine.ticket = true
  · simp [attachEntry, hpausing, SetPaused.request]
  · rw [if_neg hpausing, if_neg (by simp), attachEntry]
    simp only [if_neg hpausing]
    exact (unpaused_before_attach hinv.slots hmine hpausing).symm

/-- Every other entry: the message is for a request it does not carry. -/
theorem agree_attach_other {r : Running} (hr : r ∈ st.inner.running) {q : Text × Nat}
    (hq : r.request = some q) :
    lastPaused (st.log ++ (attach st.inner mine.ticket backend reqId).2) q = r.paused := by
  have hbegun := hinv.running_begun r hr q hq
  rw [lastPaused_append fun m hm => (mem_attach_msgs hinv hmine hm).2, if_neg,
    hinv.agree r hr q hq]
  rintro ⟨m, hm, rfl⟩
  rw [(mem_attach_msgs hinv hmine hm).1] at hbegun
  exact hfresh hbegun

end Attach

theorem attach_pause {s : Scheduler} {st : PauseState} (hinv : PauseInv s st) {ticket : Nat}
    {backend : Text} {reqId : Nat} (hslot : ∃ r ∈ st.inner.running, r.ticket = ticket)
    (hfresh : (backend, reqId) ∉ st.begun) :
    PauseInv s { queue st ticket (attach st.inner ticket backend reqId) with
      begun := (backend, reqId) :: st.begun } := by
  obtain ⟨mine, hmine, rfl⟩ := hslot
  have hlog := log_queue st mine.ticket (attach st.inner mine.ticket backend reqId)
  refine ⟨attach_slots hinv.slots mine.ticket backend reqId, ?_, ?_, ?_, ?_⟩
  · intro r hr q hq
    show lastPaused (queue st mine.ticket (attach st.inner mine.ticket backend reqId)).log q = _
    rw [hlog]
    rcases mem_attach hinv.slots hmine hr with hmem | rfl
    · exact agree_attach_other hinv hmine hfresh hmem hq
    · rw [attachEntry_request, Option.some.injEq] at hq
      subst hq
      exact agree_attach_own hinv hmine hfresh
  · intro r hr q hq
    rcases mem_attach hinv.slots hmine hr with hmem | rfl
    · exact List.mem_cons_of_mem _ (hinv.running_begun r hmem q hq)
    · rw [attachEntry_request, Option.some.injEq] at hq
      rw [← hq]
      exact List.mem_cons_self
  · intro msg hmsg
    have hmsg' : msg ∈ st.log ++ (attach st.inner mine.ticket backend reqId).2 := hlog ▸ hmsg
    rcases List.mem_append.mp hmsg' with hmsg | hmsg
    · exact List.mem_cons_of_mem _ (hinv.log_begun msg hmsg)
    · rw [(mem_attach_msgs hinv hmine hmsg).1]
      exact List.mem_cons_self
  · -- the fresh request belongs to nobody else
    have hother : ∀ r ∈ st.inner.running, r.request ≠ some (backend, reqId) :=
      fun r hr hq => hfresh (hinv.running_begun r hr _ hq)
    intro a ha b hb q haq hbq
    rcases mem_attach hinv.slots hmine ha with ha | rfl
    · rcases mem_attach hinv.slots hmine hb with hb | rfl
      · exact hinv.request_unique a ha b hb q haq hbq
      · exact absurd (haq.trans hbq.symm) (hother a ha)
    · rcases mem_attach hinv.slots hmine hb with hb | rfl
      · exact absurd (hbq.trans haq.symm) (hother b hb)
      · rfl

theorem deliver_pause {s : Scheduler} {st : PauseState} (hinv : PauseInv s st) {owner : Nat}
    {before after : List (Nat × SetPaused)} {msg : SetPaused}
    (hnext : nextOf owner st.pending = some (before, msg, after))
    (horder : ∀ e ∈ before, e.2.request ≠ msg.request) :
    PauseInv s { st with pending := before ++ after, delivered := st.delivered ++ [msg] } := by
  have hpending := nextOf_eq_some hnext
  have hlog : st.log = st.delivered ++ (before.map Prod.snd ++ msg :: after.map Prod.snd) := by
    simp [PauseState.log, hpending]
  have hlog' : PauseState.log
      { st with pending := before ++ after, delivered := st.delivered ++ [msg] } =
        st.delivered ++ [msg] ++ (before.map Prod.snd ++ after.map Prod.snd) := by
    simp [PauseState.log]
  refine ⟨hinv.slots, ?_, hinv.running_begun, ?_, hinv.request_unique⟩
  · intro r hr q hq
    have horder' : ∀ m ∈ before.map Prod.snd, m.request ≠ msg.request := by
      intro m hm
      obtain ⟨e, he, rfl⟩ := List.mem_map.mp hm
      exact horder e he
    rw [hlog', lastPaused_deliver horder', ← hlog]
    exact hinv.agree r hr q hq
  · intro m hm
    apply hinv.log_begun
    rw [hlog'] at hm
    rw [hlog]
    simp only [List.mem_append, List.mem_cons, List.not_mem_nil, or_false] at hm ⊢
    tauto

/-! ### Whole interleavings -/

theorem between_slot {st : PauseState} {ticket : Nat} (h : between st ticket = true) :
    ∃ r ∈ st.inner.running, r.ticket = ticket := by
  simp only [between, Bool.and_eq_true, List.any_eq_true, decide_eq_true_eq] at h
  exact h.1

theorem pauseStep_inv {s : Scheduler} {st next : PauseState} {a : PauseStep}
    (hinv : PauseInv s st) (horder : InOrder st a) (h : pauseStep s st a = some next) :
    PauseInv s next := by
  cases a with
  | enqueue session cls =>
    simp only [pauseStep, Option.some.injEq] at h
    subst h
    exact ⟨enqueue_slots hinv.slots session cls, hinv.agree, hinv.running_begun, hinv.log_begun,
      hinv.request_unique⟩
  | admitTurn ticket =>
    simp only [pauseStep, Option.map_eq_some_iff] at h
    obtain ⟨admitted, hadmit, rfl⟩ := h
    exact admitTurn_pause hinv hadmit
  | attach ticket backend reqId =>
    simp only [pauseStep] at h
    split at h
    · rename_i hguard
      cases h
      exact attach_pause hinv (between_slot hguard.1) hguard.2
    · cases h
  | charge now session tokens =>
    simp only [pauseStep, Option.some.injEq] at h
    subst h
    exact ⟨hinv.slots.congr rfl rfl rfl, hinv.agree, hinv.running_begun, hinv.log_begun,
      hinv.request_unique⟩
  | release ticket =>
    simp only [pauseStep] at h
    split at h
    · cases h
      exact release_pause hinv ticket
    · cases h
  | deliver owner =>
    simp only [pauseStep, Option.map_eq_some_iff] at h
    obtain ⟨⟨before, msg, after⟩, hnext, rfl⟩ := h
    simp only [InOrder, hnext] at horder
    exact deliver_pause hinv hnext horder

theorem new_pause (s : Scheduler) : PauseInv s PauseState.new :=
  ⟨new_slots s, fun _ hr => (by cases hr), fun _ hr => (by cases hr), fun _ hm => (by cases hm),
    fun _ ha => (by cases ha)⟩

/-- **Pause messages agree with pause flags** at every quiet moment of every
    interleaving in which no delivery overtakes an older message for the same
    request. -/
theorem pause_agrees_in_order (config : Config) (steps : List PauseStep) (st : PauseState)
    (hrun : runs (pauseStep (Scheduler.new config)) PauseState.new steps = some st)
    (horder : along (pauseStep (Scheduler.new config)) InOrder PauseState.new steps)
    (hquiet : st.pending = []) :
    ∀ r ∈ st.inner.running, ∀ q, r.request = some q → lastPaused st.delivered q = r.paused := by
  intro r hr q hq
  have hinv : PauseInv (Scheduler.new config) st :=
    runs_invariant_along (pauseStep (Scheduler.new config)) (P := PauseInv (Scheduler.new config))
      (C := InOrder) (fun _ _ _ hinv horder hstep => pauseStep_inv hinv horder hstep)
      (new_pause _) horder hrun
  have hagree := hinv.agree r hr q hq
  rw [PauseState.log, hquiet, List.map_nil, List.append_nil] at hagree
  exact hagree

/-- Two interactive slots and one background slot. -/
def chatAndBatch : Config := ⟨2 ^ 30, 2, 1, by decide⟩

/-- A chat holds a slot while a batch request attaches, which queues its pause;
    then the chat ends, which queues the resume. Nothing has been sent. -/
def chatThenBatch : List PauseStep :=
  [.enqueue "chat".toList .interactive, .admitTurn 1, .attach 1 "mock".toList 1,
    .enqueue "batch".toList .background, .admitTurn 2, .attach 2 "mock".toList 2, .release 1]

/-- The batch request alone, after two deliveries. -/
def batchLeft (first second : Bool) : PauseState where
  inner := ⟨[⟨2, "batch".toList, .background, some "mock".toList, some 2, false⟩], [], ∅, ∅, 0, 3⟩
  pending := []
  delivered := [⟨"mock".toList, 2, first⟩, ⟨"mock".toList, 2, second⟩]
  begun := [("mock".toList, 2), ("mock".toList, 1)]

theorem pause_delivered_first :
    runs (pauseStep (Scheduler.new chatAndBatch)) PauseState.new
        (chatThenBatch ++ [.deliver 2, .deliver 1]) = some (batchLeft true false) ∧
      ∀ r ∈ (batchLeft true false).inner.running, ∀ q, r.request = some q →
        lastPaused (batchLeft true false).delivered q = r.paused :=
  ⟨rfl, pause_agrees_in_order chatAndBatch (chatThenBatch ++ [.deliver 2, .deliver 1])
    (batchLeft true false) rfl (by decide) rfl⟩

/-- The resume is sent first. The batch request runs as far as the scheduler
    knows, and the last word its backend had is to pause it. -/
theorem pause_overtaken :
    ¬ ∀ (config : Config) (steps : List PauseStep) (st : PauseState),
      runs (pauseStep (Scheduler.new config)) PauseState.new steps = some st →
      st.pending = [] →
      ∀ r ∈ st.inner.running, ∀ q, r.request = some q →
        lastPaused st.delivered q = r.paused := by
  intro hall
  have hflags := hall chatAndBatch (chatThenBatch ++ [.deliver 1, .deliver 2])
    (batchLeft false true) rfl rfl _ List.mem_cons_self ("mock".toList, 2) rfl
  revert hflags
  decide

end AiDaemon.Sched
