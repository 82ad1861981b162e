import AiDaemon.LlamaCpp
import AiDaemon.RemoteBilling
import AiDaemon.Routing

/-!
# What a generation of the llama.cpp backend tells the daemon

A thread is followed from its start, with the lines it has read and the events it has
sent.  `Story` is what these have to do with the place where it stands, and
`advance_story` that every step keeps it, whatever the flags are at the time.  At the
end of its story a thread has told the daemon all of the reply (`Told`): a token for
each chunk that has text, in order, and one event to end it.
-/

namespace AiDaemon.LlamaCpp

open Json Proto
open Remote (isTokenEvent)
open Routing (routed)

variable {F D : Type}

/-! ### What is told -/

/-- The last event of a request. -/
def isTerminal : BackendEvent F → Bool
  | .done .. | .error (some _) .. => true
  | _ => false

/-- A request has been answered: one event ends it, and it is the last. -/
def Whole (told : List (BackendEvent F)) : Prop :=
  ∃ body last, told = body ++ [last] ∧ isTerminal last = true ∧
    ∀ event ∈ body, isTerminal event = false

def isBlank (line : Text) : Bool := line = "\r\n".toList || line = "\n".toList

/-- The lines behind the first blank one. -/
def dataLines : List Text → List Text
  | [] => []
  | line :: lines => if isBlank line then lines else dataLines lines

/-- What the loop has gathered from lines. -/
def summary (floats : Floats D) (lines : List Text) : Generating :=
  lines.foldl
    (fun s line =>
      match lineOf floats line with
      | .chunk chunk => s.chunk chunk
      | _ => s)
    .new

section

variable (around : Around F D) (task : Task)

/-- The events of lines. -/
def passed (lines : List Text) : List (BackendEvent F) :=
  lines.flatMap fun line =>
    match lineOf around.floats line with
    | .chunk chunk => chunkEvents around task chunk
    | _ => []

/-- All that the daemon is told of a reply with these lines. The last line may not count:
    it ends the reply, or a cancel came before it was passed on. -/
def Told (cancelled : Bool) (data : List Text) (told : List (BackendEvent F)) : Prop :=
  ∃ past, (past = data ∨ ∃ line, data = past ++ [line] ∧
      (lineOf around.floats line = .done ∨ cancelled = true)) ∧
    ((∃ message, told = passed around task past ++ [errorEvent task message]) ∨
      told = passed around task past ++ lastEvents around task (summary around.floats past) ∨
      cancelled = true ∧ told = passed around task past ++
        lastEvents around task (summary around.floats past).cancelled)

/-- The chunk that a thread holds is the last line it has read. -/
def Holds (s : Generating) (chunk : Value D) (data : List Text)
    (told : List (BackendEvent F)) : Prop :=
  ∃ past line, data = past ++ [line] ∧ lineOf around.floats line = .chunk chunk ∧
    s = summary around.floats past ∧ told = passed around task past

/-- Where a generation stands, what it has read and what it has told. -/
def Story (cancelled : Bool) (lines : List Text) (told : List (BackendEvent F)) :
    Place F D → Prop
  | .starting | .connected | .requesting => lines = [] ∧ told = []
  | .headers _ => (∀ line ∈ lines, isBlank line = false) ∧ told = []
  | .refused => dataLines lines = [] ∧ told = []
  | .reading s =>
    (∃ line ∈ lines, isBlank line = true) ∧ s = summary around.floats (dataLines lines) ∧
      told = passed around task (dataLines lines)
  | .holding s chunk | .paused s chunk | .deciding s chunk | .passing s chunk =>
    (∃ line ∈ lines, isBlank line = true) ∧ Holds around task s chunk (dataLines lines) told
  | .closing queue => Told around task cancelled (dataLines lines) (told ++ queue)
  | .unpaused | .uncancelled | .gone => Told around task cancelled (dataLines lines) told

end

/-- The lines an answer brings. -/
def Answer.lines : Answer → List Text
  | .line text => [text]
  | .ok | .failed _ | .eof | .response _ => []

theorem dataLines_eq_nil {lines : List Text} (h : ∀ line ∈ lines, isBlank line = false) :
    dataLines lines = [] := by
  induction lines with
  | nil => rfl
  | cons line lines ih =>
    rw [List.forall_mem_cons] at h
    rw [dataLines, h.1, if_neg Bool.false_ne_true, ih h.2]

theorem dataLines_append {lines : List Text} (h : ∃ line ∈ lines, isBlank line = true)
    (more : List Text) : dataLines (lines ++ more) = dataLines lines ++ more := by
  induction lines with
  | nil => simp at h
  | cons line lines ih =>
    rw [List.cons_append, dataLines, dataLines]
    by_cases hline : isBlank line = true
    · rw [if_pos hline, if_pos hline]
    · rw [if_neg hline, if_neg hline]
      refine ih ?_
      simpa [hline] using h

theorem dataLines_head {lines : List Text} (h : ∀ line ∈ lines, isBlank line = false)
    (line : Text) : dataLines (lines ++ [line]) = [] := by
  induction lines with
  | nil => simp [dataLines]
  | cons first lines ih =>
    rw [List.forall_mem_cons] at h
    rw [List.cons_append, dataLines, h.1, if_neg Bool.false_ne_true, ih h.2]

theorem summary_append (floats : Floats D) (lines : List Text) (line : Text) :
    summary floats (lines ++ [line]) =
      match lineOf floats line with
      | .chunk chunk => (summary floats lines).chunk chunk
      | _ => summary floats lines := by
  rw [summary, List.foldl_append]
  rfl

theorem passed_append (around : Around F D) (task : Task) (lines : List Text) (line : Text) :
    passed around task (lines ++ [line]) =
      passed around task lines ++
        match lineOf around.floats line with
        | .chunk chunk => chunkEvents around task chunk
        | _ => [] := by
  rw [passed, List.flatMap_append, List.flatMap_singleton]
  rfl

section

variable {around : Around F D} {task : Task} {cancelled : Bool}

theorem Told.mono {data : List Text} {told : List (BackendEvent F)}
    (h : Told around task false data told) : Told around task cancelled data told := by
  obtain ⟨past, hpast, htold⟩ := h
  refine ⟨past, ?_, ?_⟩
  · rcases hpast with h | ⟨line, hdata, hdone | hfalse⟩
    · exact .inl h
    · exact .inr ⟨line, hdata, .inl hdone⟩
    · cases hfalse
  · rcases htold with h | h | ⟨hfalse, -⟩
    · exact .inl h
    · exact .inr (.inl h)
    · cases hfalse

theorem Story.cancel {lines : List Text} {told : List (BackendEvent F)} {place : Place F D}
    (h : Story around task cancelled lines told place) :
    Story around task true lines told place := by
  cases cancelled with
  | true => exact h
  | false =>
    cases place with
    | closing queue => exact Told.mono h
    | unpaused | uncancelled | gone => exact Told.mono h
    | starting | connected | requesting | headers | refused | reading | holding | paused
    | deciding | passing => exact h

theorem Told.error {data : List Text} {told : List (BackendEvent F)}
    (h : told = passed around task data) (message : Text) :
    Told around task cancelled data (told ++ [errorEvent task message]) :=
  ⟨data, .inl rfl, .inl ⟨message, by rw [h]⟩⟩

theorem Told.early (message : Text) :
    Told around task cancelled [] [errorEvent (F := F) task message] :=
  ⟨[], .inl rfl, .inl ⟨message, rfl⟩⟩

/-- The lines are at their end, or the last one does not count. -/
theorem Told.last {data : List Text} {told : List (BackendEvent F)} {s : Generating}
    (hs : s = summary around.floats data) (h : told = passed around task data) :
    Told around task cancelled data
      (told ++ lastEvents around task (if cancelled then s.cancelled else s)) := by
  refine ⟨data, .inl rfl, .inr ?_⟩
  subst hs h
  cases cancelled with
  | true => exact .inr ⟨rfl, rfl⟩
  | false => exact .inl rfl

theorem start_story {hasTools : Bool} (hjob : task.job = .generate hasTools)
    {port : Option UInt16} {answer : Answer} {place : Place F D}
    (h : start around task port answer = some place) :
    answer.lines = [] ∧ Story around task cancelled [] [] place := by
  unfold start at h
  rw [hjob] at h
  split at h
  · cases h
    exact ⟨rfl, Told.early _⟩
  · cases h
    exact ⟨rfl, rfl, rfl⟩
  · cases h
    exact ⟨rfl, Told.early _⟩
  · cases ‹Job.generate hasTools = .embed›
  · cases ‹Job.generate hasTools = .embed›
  · cases ‹Job.generate hasTools = .tokenize›
  · cases ‹Job.generate hasTools = .tokenize›
  · cases h

theorem headerLine_story {lines : List Text} (hlines : ∀ line ∈ lines, isBlank line = false)
    (statusOk : Bool) (line : Text) :
    Story around task cancelled (lines ++ [line]) [] (headerLine statusOk line : Place F D) := by
  unfold headerLine
  have hdata := dataLines_head hlines line
  by_cases hblank : line = "\r\n".toList ∨ line = "\n".toList
  · have hfound : ∃ blank ∈ lines ++ [line], isBlank blank = true :=
      ⟨line, by simp, by simpa [isBlank] using hblank⟩
    simp only [if_pos hblank]
    generalize (if "HTTP/".toList.isPrefixOf line = true then decide (" 200 ".toList <:+: line)
      else statusOk) = status
    cases status with
    | true => exact ⟨hfound, by rw [hdata]; rfl, by rw [hdata]; rfl⟩
    | false => exact ⟨hdata, rfl⟩
  · simp only [if_neg hblank]
    refine ⟨?_, rfl⟩
    intro other hother
    rcases List.mem_append.mp hother with hin | hin
    · exact hlines other hin
    · rw [List.mem_singleton.mp hin]
      simpa [isBlank, not_or] using hblank

theorem readLine_story {lines : List Text} {told : List (BackendEvent F)} {s : Generating}
    (hhead : ∃ line ∈ lines, isBlank line = true)
    (hs : s = summary around.floats (dataLines lines))
    (htold : told = passed around task (dataLines lines)) (line : Text) :
    Story around task cancelled (lines ++ [line]) told (readLine around task s line) := by
  have hdata := dataLines_append hhead [line]
  have hhead' : ∃ blank ∈ lines ++ [line], isBlank blank = true := by
    obtain ⟨blank, hin, hblank⟩ := hhead
    exact ⟨blank, List.mem_append_left _ hin, hblank⟩
  unfold readLine
  cases hline : lineOf around.floats line with
  | skipped =>
    refine ⟨hhead', ?_, ?_⟩
    · rw [hdata, summary_append, hline, hs]
    · rw [hdata, passed_append, hline, htold, List.append_nil]
  | done =>
    refine ⟨dataLines lines, .inr ⟨line, hdata, .inl hline⟩, .inr (.inl ?_)⟩
    rw [htold, hs]
  | chunk chunk => exact ⟨hhead', dataLines lines, line, hdata, hline, hs, htold⟩

/-- A generation keeps its story with every step. -/
theorem advance_story {hasTools : Bool} (hjob : task.job = .generate hasTools)
    {port : Option UInt16} {paused : Bool} {place place' : Place F D} {answer : Answer}
    {events : List (BackendEvent F)} {touched : Touch} {lines : List Text}
    {told : List (BackendEvent F)} (h : Story around task cancelled lines told place)
    (hstep : advance around task port paused cancelled place answer =
      some (place', events, touched)) :
    Story around task cancelled (lines ++ answer.lines) (told ++ events) place' := by
  cases place with
  | starting =>
    obtain ⟨rfl, rfl⟩ := h
    obtain ⟨next, hstart, heq⟩ := Option.map_eq_some_iff.mp hstep
    cases heq
    obtain ⟨hlines, hstory⟩ := start_story hjob hstart
    rw [hlines]
    exact hstory
  | connected =>
    obtain ⟨rfl, rfl⟩ := h
    cases answer with
    | ok | failed =>
      cases hstep
      exact ⟨rfl, rfl⟩
    | line | eof | response => cases hstep
  | requesting =>
    obtain ⟨rfl, rfl⟩ := h
    cases answer with
    | ok =>
      cases hstep
      exact ⟨by simp [Answer.lines], rfl⟩
    | failed e =>
      cases hstep
      exact Told.early _
    | line | eof | response => cases hstep
  | headers statusOk =>
    obtain ⟨hlines, rfl⟩ := h
    cases answer with
    | line text =>
      cases hstep
      exact headerLine_story hlines statusOk text
    | eof | failed =>
      cases hstep
      rw [Answer.lines, List.append_nil]
      show Told around task cancelled (dataLines lines) _
      rw [dataLines_eq_nil hlines]
      exact Told.early _
    | ok | response => cases hstep
  | refused =>
    obtain ⟨hdata, rfl⟩ := h
    cases answer with
    | response rest =>
      cases hstep
      rw [Answer.lines, List.append_nil]
      show Told around task cancelled (dataLines lines) _
      rw [hdata]
      exact Told.early _
    | ok | failed | line | eof => cases hstep
  | reading s =>
    obtain ⟨hhead, hs, htold⟩ := h
    cases answer with
    | line text =>
      cases hstep
      rw [List.append_nil]
      exact readLine_story hhead hs htold text
    | eof =>
      cases hstep
      rw [Answer.lines, List.append_nil, List.append_nil]
      exact Told.last hs htold
    | failed e =>
      cases hstep
      rw [Answer.lines, List.append_nil, List.append_nil]
      cases cancelled with
      | true => exact Told.last hs htold
      | false => exact Told.error htold e
    | ok | response => cases hstep
  | holding s chunk =>
    cases answer with
    | ok =>
      cases hstep
      rw [Answer.lines, List.append_nil, List.append_nil]
      cases paused <;> exact h
    | failed | line | eof | response => cases hstep
  | paused s chunk =>
    cases answer with
    | ok =>
      cases hstep
      rw [Answer.lines, List.append_nil, List.append_nil]
      cases cancelled <;> exact h
    | failed | line | eof | response => cases hstep
  | deciding s chunk =>
    cases answer with
    | ok =>
      cases hstep
      rw [Answer.lines, List.append_nil, List.append_nil]
      cases cancelled with
      | true =>
        -- the line that is held does not count
        obtain ⟨-, past, line, hdata, -, hs, htold⟩ := h
        refine ⟨past, .inr ⟨line, hdata, .inr rfl⟩, .inr (.inr ⟨rfl, ?_⟩)⟩
        rw [htold, hs]
      | false => exact h
    | failed | line | eof | response => cases hstep
  | passing s chunk =>
    cases answer with
    | ok =>
      cases hstep
      rw [Answer.lines, List.append_nil]
      obtain ⟨hhead, past, line, hdata, hline, hs, htold⟩ := h
      refine ⟨hhead, ?_, ?_⟩
      · rw [hdata, summary_append, hline, hs]
      · rw [hdata, passed_append, hline, htold]
    | failed | line | eof | response => cases hstep
  | closing queue =>
    cases answer with
    | ok =>
      cases queue with
      | cons event queue =>
        cases hstep
        rw [Answer.lines, List.append_nil]
        show Told around task cancelled (dataLines lines) (told ++ [event] ++ queue)
        rw [List.append_assoc]
        exact h
      | nil =>
        simp only [advance, hjob] at hstep
        cases hstep
        rw [Answer.lines, List.append_nil, List.append_nil]
        show Told around task cancelled (dataLines lines) told
        rw [← List.append_nil told]
        exact h
    | failed | line | eof | response => cases queue <;> cases hstep
  | unpaused | uncancelled =>
    cases answer with
    | ok =>
      cases hstep
      rw [Answer.lines, List.append_nil, List.append_nil]
      exact h
    | failed | line | eof | response => cases hstep
  | gone => cases answer <;> cases hstep

end

/-! ### What a step can do -/

/-- The request is under way. -/
def Place.isOpen : Place F D → Bool
  | .closing _ | .unpaused | .uncancelled | .gone => false
  | _ => true

/-- It is, and no token is about to be passed on. -/
def Place.isIdle : Place F D → Bool
  | .deciding _ _ | .passing _ _ => false
  | place => place.isOpen

/-- Its thread has said all it will say. -/
def Place.isOver : Place F D → Bool
  | .unpaused | .uncancelled | .gone => true
  | _ => false

section

variable (around : Around F D) (task : Task)

/-- How a request is brought to its end. -/
inductive Ending : List (BackendEvent F) → Prop where
  | error (message : Text) : Ending [errorEvent task message]
  | last (s : Generating) : Ending (lastEvents around task s)
  | embed (response : Except Text Text) : Ending (embedEvents around task response)
  | tokenize (response : Except Text Text) : Ending (tokenizeEvents around task response)

/-- The steps of a thread with these flags, and what is sent. -/
inductive Moves (paused cancelled : Bool) :
    Place F D → Place F D → List (BackendEvent F) → Prop where
  | quiet {place place' : Place F D} (h : place.isOpen = true) (h' : place'.isIdle = true) :
      Moves paused cancelled place place' []
  | wake {place : Place F D} (s : Generating) (chunk : Value D) (h : place.isOpen = true)
      (hflags : paused = false ∨ cancelled = true) :
      Moves paused cancelled place (.deciding s chunk) []
  | decide (s : Generating) (chunk : Value D) (hflag : cancelled = false) :
      Moves paused cancelled (.deciding s chunk) (.passing s chunk) []
  | pass (s : Generating) (chunk : Value D) :
      Moves paused cancelled (.passing s chunk) (.reading (s.chunk chunk))
        (chunkEvents around task chunk)
  | finish {place : Place F D} {queue : List (BackendEvent F)} (h : place.isOpen = true)
      (hqueue : Ending around task queue) : Moves paused cancelled place (.closing queue) []
  | send (event : BackendEvent F) (queue : List (BackendEvent F)) :
      Moves paused cancelled (.closing (event :: queue)) (.closing queue) [event]
  | leave {place' : Place F D} (h' : place'.isOver = true) :
      Moves paused cancelled (.closing []) place' []
  | forget {place place' : Place F D} (h : place.isOver = true) (h' : place'.isOver = true) :
      Moves paused cancelled place place' []

end

section

variable {around : Around F D} {task : Task} {paused cancelled : Bool}

theorem start_moves {port : Option UInt16} {answer : Answer} {place : Place F D}
    (h : start around task port answer = some place) :
    Moves around task paused cancelled .starting place [] := by
  unfold start at h
  split at h
  · cases h
    exact .finish rfl (.error _)
  · cases h
    exact .quiet rfl rfl
  · cases h
    exact .finish rfl (.error _)
  · cases h
    exact .finish rfl (.embed _)
  · cases h
    exact .finish rfl (.embed _)
  · cases h
    exact .finish rfl (.tokenize _)
  · cases h
    exact .finish rfl (.tokenize _)
  · cases h

theorem headerLine_isIdle (statusOk : Bool) (line : Text) :
    (headerLine statusOk line : Place F D).isIdle = true := by
  unfold headerLine
  generalize (if "HTTP/".toList.isPrefixOf line = true then decide (" 200 ".toList <:+: line)
    else statusOk) = status
  cases status <;> dsimp only <;> split <;> rfl

theorem readLine_moves (s : Generating) (line : Text) :
    Moves around task paused cancelled (.reading s) (readLine around task s line) [] := by
  unfold readLine
  split
  · exact .quiet rfl rfl
  · exact .finish rfl (.last s)
  · exact .quiet rfl rfl

/-- **What a step can do.** -/
theorem advance_moves {port : Option UInt16} {place place' : Place F D}
    {answer : Answer} {events : List (BackendEvent F)} {touched : Touch}
    (h : advance around task port paused cancelled place answer =
      some (place', events, touched)) :
    Moves around task paused cancelled place place' events := by
  unfold advance at h
  split at h
  · obtain ⟨next, hstart, heq⟩ := Option.map_eq_some_iff.mp h
    cases heq
    exact start_moves hstart
  · cases h
    exact .quiet rfl rfl
  · cases h
    exact .quiet rfl rfl
  · cases h
    exact .quiet rfl rfl
  · cases h
    exact .finish rfl (.error _)
  · cases h
    exact .quiet rfl (headerLine_isIdle _ _)
  · cases h
    exact .finish rfl (.error _)
  · cases h
    exact .finish rfl (.error _)
  · cases h
    exact .finish rfl (.error _)
  · cases h
    exact readLine_moves _ _
  · cases h
    exact .finish rfl (.last _)
  · cases h
    refine .finish rfl ?_
    cases cancelled with
    | true => exact .last _
    | false => exact .error _
  · cases h
    cases paused with
    | true => exact .quiet rfl rfl
    | false => exact .wake _ _ rfl (.inl rfl)
  · cases h
    cases cancelled with
    | true => exact .wake _ _ rfl (.inr rfl)
    | false => exact .quiet rfl rfl
  · cases h
    cases cancelled with
    | true => exact .finish rfl (.last _)
    | false => exact .decide _ _ rfl
  · cases h
    exact .pass _ _
  · cases h
    exact .send _ _
  · split at h
    · cases h
      exact .leave rfl
    · cases h
      exact .leave rfl
    · cases h
      exact .leave rfl
  · cases h
    exact .forget rfl rfl
  · cases h
    exact .forget rfl rfl
  · cases h

theorem Moves.over {place place' : Place F D} {events : List (BackendEvent F)}
    (h : Moves around task paused cancelled place place' events) (hover : place.isOver = true) :
    place'.isOver = true ∧ events = [] := by
  cases h with
  | quiet hopen _ | wake _ _ hopen _ | finish hopen _ =>
    cases place <;> first | (cases hopen; done) | cases hover
  | decide | pass | send | leave => cases hover
  | forget _ hover' => exact ⟨hover', rfl⟩

/-- A flag is taken out of its table when the thread has said all it will say. -/
theorem advance_forgets {port : Option UInt16} {place place' : Place F D} {answer : Answer}
    {events : List (BackendEvent F)} {touched : Touch}
    (h : advance around task port paused cancelled place answer = some (place', events, touched))
    (htouched : touched = .forgetPaused ∨ touched = .forgetCancelled) : place'.isOver = true := by
  unfold advance at h
  split at h
  case h_1 =>
    obtain ⟨next, -, heq⟩ := Option.map_eq_some_iff.mp h
    cases heq
    simp at htouched
  case h_18 =>
    split at h
    · cases h
      rfl
    · cases h
      rfl
    · cases h
      rfl
  all_goals cases h
  all_goals first | rfl | simp at htouched

/-! ### One event ends a request -/

/-- What is said about a request so far, and that it is over when it is. -/
def Answered (told : List (BackendEvent F)) : Place F D → Prop
  | .closing queue => Whole (told ++ queue)
  | .unpaused | .uncancelled | .gone => Whole told
  | _ => ∀ event ∈ told, isTerminal event = false

theorem isOpen_of_isIdle {place : Place F D} (h : place.isIdle = true) : place.isOpen = true := by
  cases place <;> first | rfl | cases h

theorem answered_open {told : List (BackendEvent F)} {place : Place F D}
    (h : place.isOpen = true) : Answered told place ↔ ∀ event ∈ told, isTerminal event = false := by
  cases place <;> first | rfl | cases h

theorem answered_over {told : List (BackendEvent F)} {place : Place F D}
    (h : place.isOver = true) : Answered told place ↔ Whole told := by
  cases place <;> first | rfl | cases h

theorem Ending.whole {queue : List (BackendEvent F)} (h : Ending around task queue) :
    Whole queue := by
  cases h with
  | error message => exact ⟨[], _, rfl, rfl, by simp⟩
  | last s =>
    refine ⟨_, _, rfl, rfl, ?_⟩
    intro event hevent
    split at hevent
    · rw [List.mem_singleton.mp hevent]
      rfl
    · split at hevent
      · obtain ⟨word, -, rfl⟩ := List.mem_map.mp hevent
        rfl
      · cases hevent
  | embed response =>
    unfold embedEvents
    split
    · exact ⟨[], _, rfl, rfl, by simp⟩
    · split
      · exact ⟨[], _, rfl, rfl, by simp⟩
      · split
        · exact ⟨[], _, rfl, rfl, by simp⟩
        · exact ⟨[_], _, rfl, rfl, by simp [isTerminal]⟩
  | tokenize response =>
    unfold tokenizeEvents
    split
    · exact ⟨[], _, rfl, rfl, by simp⟩
    · split
      · exact ⟨[], _, rfl, rfl, by simp⟩
      · exact ⟨[_], _, rfl, rfl, by simp [isTerminal]⟩

theorem Whole.after {told queue : List (BackendEvent F)}
    (htold : ∀ event ∈ told, isTerminal event = false) (h : Whole queue) :
    Whole (told ++ queue) := by
  obtain ⟨body, last, rfl, hlast, hbody⟩ := h
  refine ⟨told ++ body, last, by rw [List.append_assoc], hlast, ?_⟩
  intro event hevent
  rcases List.mem_append.mp hevent with hin | hin
  · exact htold event hin
  · exact hbody event hin

/-- While something is still to be sent nothing has ended the request. -/
theorem Whole.before {told queue : List (BackendEvent F)} (h : Whole (told ++ queue))
    (hqueue : queue ≠ []) : ∀ event ∈ told, isTerminal event = false := by
  obtain ⟨body, last, heq, -, hbody⟩ := h
  obtain ⟨init, final, rfl⟩ := (List.eq_nil_or_concat queue).resolve_left hqueue
  rw [List.concat_eq_append, ← List.append_assoc] at heq
  obtain ⟨hsame, -⟩ := List.append_inj' heq rfl
  intro event hevent
  exact hbody event (hsame ▸ List.mem_append_left init hevent)

theorem chunkEvents_not_terminal (chunk : Value D) :
    ∀ event ∈ chunkEvents around task chunk, isTerminal event = false := by
  intro event hevent
  unfold chunkEvents at hevent
  split at hevent
  · split at hevent
    · cases hevent
    · rw [List.mem_singleton.mp hevent]
      rfl
  · cases hevent

theorem Moves.answered {place place' : Place F D} {events told : List (BackendEvent F)}
    (h : Moves around task paused cancelled place place' events) (htold : Answered told place) :
    Answered (told ++ events) place' := by
  cases h with
  | quiet hopen hidle =>
    rw [List.append_nil, answered_open (isOpen_of_isIdle hidle)]
    exact (answered_open hopen).mp htold
  | wake s chunk hopen hflags =>
    rw [List.append_nil]
    exact (answered_open hopen).mp htold
  | decide s chunk hflag =>
    rw [List.append_nil]
    exact htold
  | pass s chunk =>
    intro event hevent
    rcases List.mem_append.mp hevent with hin | hin
    · exact htold event hin
    · exact chunkEvents_not_terminal chunk event hin
  | finish hopen hqueue =>
    rw [List.append_nil]
    exact Whole.after ((answered_open hopen).mp htold) hqueue.whole
  | send event queue =>
    show Whole (told ++ [event] ++ queue)
    rw [List.append_assoc]
    exact htold
  | leave hover =>
    rw [answered_over hover]
    exact htold
  | forget hover hover' =>
    rw [List.append_nil, answered_over hover']
    exact (answered_over hover).mp htold

/-! ### A thread speaks of its own request -/

/-- What is still to be sent is about this request. -/
def Place.About (reqId : UInt64) : Place F D → Prop
  | .closing queue => ∀ event ∈ queue, routed event = some reqId
  | _ => True

theorem Ending.about {queue : List (BackendEvent F)} (h : Ending around task queue) :
    ∀ event ∈ queue, routed event = some task.reqId := by
  cases h with
  | error message => simp [errorEvent, routed]
  | last s =>
    intro event hevent
    rcases List.mem_append.mp hevent with hin | hin
    · split at hin
      · rw [List.mem_singleton.mp hin]
        rfl
      · split at hin
        · obtain ⟨word, -, rfl⟩ := List.mem_map.mp hin
          rfl
        · cases hin
    · rw [List.mem_singleton.mp hin]
      rfl
  | embed response =>
    unfold embedEvents
    split
    · simp [errorEvent, routed]
    · split
      · simp [errorEvent, routed]
      · split <;> simp [errorEvent, routed]
  | tokenize response =>
    unfold tokenizeEvents
    split
    · simp [errorEvent, routed]
    · split <;> simp [errorEvent, routed]

theorem chunkEvents_about (chunk : Value D) :
    ∀ event ∈ chunkEvents around task chunk, routed event = some task.reqId := by
  intro event hevent
  unfold chunkEvents at hevent
  split at hevent
  · split at hevent
    · cases hevent
    · rw [List.mem_singleton.mp hevent]
      rfl
  · cases hevent

theorem Moves.about {place place' : Place F D} {events : List (BackendEvent F)}
    (h : Moves around task paused cancelled place place' events) (habout : place.About task.reqId) :
    place'.About task.reqId ∧ ∀ event ∈ events, routed event = some task.reqId := by
  have hopen_about : ∀ {p : Place F D}, p.isOpen = true → p.About task.reqId := by
    intro p hopen
    cases p <;> trivial
  have hover_about : ∀ {p : Place F D}, p.isOver = true → p.About task.reqId := by
    intro p hover
    cases p <;> trivial
  cases h with
  | quiet hopen hidle => exact ⟨hopen_about (isOpen_of_isIdle hidle), by simp⟩
  | wake s chunk hopen hflags => exact ⟨trivial, by simp⟩
  | decide s chunk hflag => exact ⟨trivial, by simp⟩
  | pass s chunk => exact ⟨trivial, chunkEvents_about chunk⟩
  | finish hopen hqueue => exact ⟨hqueue.about, by simp⟩
  | send event queue =>
    obtain ⟨hevent, hqueue⟩ := List.forall_mem_cons.mp habout
    exact ⟨hqueue, by simpa using hevent⟩
  | leave hover => exact ⟨hover_about hover, by simp⟩
  | forget hover hover' => exact ⟨hover_about hover', by simp⟩

/-! ### Text that can no longer be held back -/

/-- The tokens a thread sends without another look at a flag that stops it. -/
def Place.owed (cancelled : Bool) : Place F D → Nat
  | .deciding _ _ => if cancelled then 0 else 1
  | .passing _ _ => 1
  | .closing queue => queue.countP isTokenEvent
  | _ => 0

theorem owed_cancel (cancelled : Bool) (place : Place F D) :
    place.owed true ≤ place.owed cancelled := by
  cases place <;> simp [Place.owed]

theorem countP_lastEvents (hjob : task.job = .generate false) (s : Generating) :
    (lastEvents around task s).countP isTokenEvent = 0 := by
  have htools : task.hasTools = false := by
    rw [Task.hasTools, hjob]
    rfl
  simp [lastEvents, htools, isTokenEvent]

theorem countP_chunkEvents_le (chunk : Value D) :
    (chunkEvents around task chunk).countP isTokenEvent ≤ 1 := by
  refine List.countP_le_length.trans ?_
  unfold chunkEvents
  split
  · split <;> simp
  · simp

theorem Ending.countP (hjob : task.job = .generate false) {queue : List (BackendEvent F)}
    (h : Ending around task queue) : queue.countP isTokenEvent = 0 := by
  cases h with
  | error message => rfl
  | last s => exact countP_lastEvents hjob s
  | embed response =>
    unfold embedEvents
    split
    · rfl
    · split
      · rfl
      · split <;> rfl
  | tokenize response =>
    unfold tokenizeEvents
    split
    · rfl
    · split <;> rfl

theorem owed_idle {place : Place F D} (h : place.isIdle = true ∨ place.isOver = true) :
    place.owed cancelled = 0 := by
  cases place <;> first | rfl | (rcases h with h | h <;> cases h)

/-- Without tools there is at most one. -/
theorem Moves.owed_le (hjob : task.job = .generate false) {place place' : Place F D}
    {events : List (BackendEvent F)} (h : Moves around task paused cancelled place place' events)
    (howed : place.owed false ≤ 1) : place'.owed false ≤ 1 := by
  cases h with
  | quiet hopen hidle => exact (owed_idle (.inl hidle)).trans_le (Nat.zero_le 1)
  | wake s chunk hopen hflags => exact le_rfl
  | decide s chunk hflag => exact le_rfl
  | pass s chunk => exact Nat.zero_le 1
  | finish hopen hqueue => exact (hqueue.countP hjob).trans_le (Nat.zero_le 1)
  | send event queue => exact (List.sublist_cons_self event queue).countP_le.trans howed
  | leave hover => exact (owed_idle (.inr hover)).trans_le (Nat.zero_le 1)
  | forget hover hover' => exact (owed_idle (.inr hover')).trans_le (Nat.zero_le 1)

/-- **Held back.** While one of its flags is set a thread sends no more tokens than it
    owes. -/
theorem Moves.owed (hjob : task.job = .generate false) (hheld : paused = true ∨ cancelled = true)
    {place place' : Place F D} {events : List (BackendEvent F)}
    (h : Moves around task paused cancelled place place' events) :
    events.countP isTokenEvent + place'.owed cancelled ≤ place.owed cancelled := by
  cases h with
  | quiet hopen hidle =>
    rw [owed_idle (.inl hidle)]
    exact Nat.zero_le _
  | wake s chunk hopen hflags =>
    -- whoever comes out of a pause while held has been cancelled
    obtain rfl : cancelled = true := by
      rcases hflags with rfl | h
      · exact hheld.resolve_left Bool.false_ne_true
      · exact h
    exact Nat.zero_le _
  | decide s chunk hflag =>
    rw [hflag]
    exact le_rfl
  | pass s chunk => exact countP_chunkEvents_le chunk
  | finish hopen hqueue =>
    have hnone : (Place.closing _ : Place F D).owed cancelled = 0 := hqueue.countP hjob
    rw [hnone]
    exact Nat.zero_le _
  | send event queue =>
    show [event].countP isTokenEvent + queue.countP isTokenEvent ≤ _
    rw [← List.countP_append]
    exact le_rfl
  | leave hover =>
    rw [owed_idle (.inr hover)]
    exact Nat.zero_le _
  | forget hover hover' =>
    rw [owed_idle (.inr hover')]
    exact Nat.zero_le _

end

end AiDaemon.LlamaCpp
