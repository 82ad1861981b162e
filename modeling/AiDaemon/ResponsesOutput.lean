import AiDaemon.ShimResponses

/-!
# The output of a Responses reply

A stream announces the items of its output, finishes them, and sends all of them
again in its last event; the reply in one piece has that same list.  Where they
come apart is the message.  The stream announces it at the first token, be it
empty, and the list leaves it out when there is no text.  So the stream
describes the response that it completes unless all its tokens are empty
(`responses_stream_describes_iff`).
-/

namespace AiDaemon.Shim

open Proto Relay

variable {F : Type}

/-! ### What a stream should say -/

/-- The item as it is announced. -/
def Item.announced : Item → ItemAdded
  | .message _ => .message
  | .call c => .call c

def ResponsesData.addedIndex : ResponsesData → Option Nat
  | .itemAdded index _ => some index
  | _ => none

def ResponsesData.response : ResponsesData → Option ResponsesReply
  | .completed response => some response
  | _ => none

/-- The items of a stream are numbered from zero, each is announced before it is
    done, and they are those of the output. -/
structure DescribesItems (datas : List ResponsesData) (output : List Item) : Prop where
  added : datas.filterMap ResponsesData.addedIndex =
    List.range (datas.filterMap ResponsesData.addedIndex).length
  followed : ∀ before index item after, datas = before ++ .itemAdded index item :: after →
    ∃ done, ResponsesData.itemDone index done ∈ after ∧ done.announced = item
  output : ∀ index item, output[index]? = some item ↔ .itemDone index item ∈ datas

/-- A stream describes the response that it completes. -/
structure Describes (events : List Numbered) (reply : ResponsesReply) : Prop where
  sequence : events.map Numbered.seq = List.range events.length
  completed : (events.map Numbered.data).filterMap ResponsesData.response = [reply]
  items : DescribesItems (events.map Numbered.data) reply.output

def isToken : Event F → Bool
  | .token _ _ => true
  | _ => false

/-- No token, or a token that is not empty. -/
def TokensSay (events : List (Event F)) : Prop :=
  (∀ event ∈ events, isToken event = false) ∨ ∃ event ∈ events, tokenOf event ≠ []

/-! ### Announcing items -/

/-- The data announces or finishes an item. -/
def ResponsesData.aboutItem : ResponsesData → Bool
  | .itemAdded _ _ | .itemDone _ _ => true
  | _ => false

/-- Items announced and finished one after the other, numbered from `n`. An item
    that is open has been announced. -/
inductive Announces : Nat → Option Item → List ResponsesData → List Item → Prop where
  | nil (n : Nat) : Announces n none [] []
  | other {n : Nat} {opened : Option Item} {data : ResponsesData} {datas : List ResponsesData}
      {items : List Item} : data.aboutItem = false → Announces n opened datas items →
      Announces n opened (data :: datas) items
  | added {n : Nat} {item : Item} {datas : List ResponsesData} {items : List Item} :
      Announces n (some item) datas items →
      Announces n none (.itemAdded n item.announced :: datas) items
  | done {n : Nat} {item : Item} {datas : List ResponsesData} {items : List Item} :
      Announces (n + 1) none datas items →
      Announces n (some item) (.itemDone n item :: datas) (item :: items)

namespace Announces

variable {n : Nat} {opened : Option Item} {datas : List ResponsesData} {items : List Item}

theorem others {before : List ResponsesData} (hbefore : ∀ data ∈ before, data.aboutItem = false)
    (h : Announces n opened datas items) : Announces n opened (before ++ datas) items := by
  induction before with
  | nil => exact h
  | cons data before ih =>
    exact .other (hbefore data List.mem_cons_self)
      (ih fun other hother => hbefore other (List.mem_cons_of_mem data hother))

theorem mem_done (h : Announces n opened datas items) (index : Nat) (item : Item) :
    ResponsesData.itemDone index item ∈ datas ↔ n ≤ index ∧ items[index - n]? = some item := by
  induction h with
  | nil => simp
  | other hdata _ ih =>
    rw [List.mem_cons, ih]
    refine or_iff_right ?_
    rintro rfl
    cases hdata
  | added _ ih =>
    rw [List.mem_cons, ih]
    exact or_iff_right (by simp)
  | @done n first datas items _ ih =>
    rw [List.mem_cons, ih, ResponsesData.itemDone.injEq]
    rcases Nat.lt_trichotomy index n with hless | rfl | hmore
    · exact iff_of_false (by omega) (by omega)
    · simp [eq_comm]
    · obtain ⟨k, rfl⟩ := Nat.exists_eq_add_of_lt hmore
      have hback : n + k + 1 - n = k + 1 := by omega
      have hback' : n + k + 1 - (n + 1) = k := by omega
      rw [hback, hback', List.getElem?_cons_succ]
      constructor
      · rintro (⟨hsame, -⟩ | ⟨-, hget⟩)
        · omega
        · exact ⟨by omega, hget⟩
      · rintro ⟨-, hget⟩
        exact Or.inr ⟨by omega, hget⟩

/-- An item that is open gets done. -/
theorem done_of_open {item : Item} (h : Announces n (some item) datas items) :
    ResponsesData.itemDone n item ∈ datas := by
  generalize hopened : some item = opened at h
  induction h with
  | nil => cases hopened
  | other _ _ ih => exact List.mem_cons_of_mem _ (ih hopened)
  | added => cases hopened
  | done =>
    cases hopened
    exact List.mem_cons_self

theorem addedIndex (h : Announces n opened datas items) :
    datas.filterMap ResponsesData.addedIndex =
      opened.elim (List.range' n items.length)
        fun _ => List.range' (n + 1) (items.length - 1) := by
  induction h with
  | nil => rfl
  | @other n opened data datas items hdata _ ih =>
    rw [List.filterMap_cons, ← ih]
    cases data <;> first | rfl | cases hdata
  | @added n item datas items h ih =>
    obtain ⟨-, hget⟩ := (h.mem_done n item).mp h.done_of_open
    rw [Nat.sub_self] at hget
    cases items with
    | nil => cases hget
    | cons first items =>
      rw [List.filterMap_cons, ih]
      simp [ResponsesData.addedIndex, List.range'_succ]
  | done _ ih =>
    rw [List.filterMap_cons, ih]
    rfl

theorem followed (h : Announces n opened datas items) {before after : List ResponsesData}
    {index : Nat} {item : ItemAdded} (hsplit : datas = before ++ .itemAdded index item :: after) :
    ∃ done, ResponsesData.itemDone index done ∈ after ∧ done.announced = item := by
  induction h generalizing before with
  | nil => simp at hsplit
  | other hdata _ ih =>
    cases before with
    | nil =>
      obtain ⟨rfl, -⟩ := List.cons.inj hsplit
      cases hdata
    | cons head before => exact ih (List.cons.inj hsplit).2
  | added h ih =>
    cases before with
    | nil =>
      obtain ⟨hhead, rfl⟩ := List.cons.inj hsplit
      cases hhead
      exact ⟨_, h.done_of_open, rfl⟩
    | cons head before => exact ih (List.cons.inj hsplit).2
  | done _ ih =>
    cases before with
    | nil => cases hsplit
    | cons head before => exact ih (List.cons.inj hsplit).2

theorem describes (h : Announces 0 none datas items) : DescribesItems datas items := by
  refine ⟨?_, ?_, ?_⟩
  · rw [h.addedIndex, Option.elim_none, List.length_range', List.range_eq_range']
  · intro before index item after hsplit
    exact h.followed hsplit
  · intro index item
    rw [h.mem_done]
    simp

/-- What the data announces is described by no other list. -/
theorem describes_iff (h : Announces 0 none datas items) (output : List Item) :
    DescribesItems datas output ↔ output = items := by
  constructor
  · intro hdescribes
    apply List.ext_getElem?
    intro index
    ext item
    rw [hdescribes.output, h.mem_done]
    simp
  · rintro rfl
    exact h.describes

end Announces

/-! ### The stream -/

/-- Data with the sequence numbers from `n` on. -/
def numberFrom (n : Nat) (datas : List ResponsesData) : List Numbered :=
  (datas.zipIdx n).map fun entry => ⟨entry.2, entry.1⟩

theorem eventsOf_sendAll (n : Nat) (datas : List ResponsesData) :
    eventsOf (sendAll n datas) = numberFrom n datas := by
  simp only [eventsOf, sendAll, numberFrom, List.filterMap_map]
  rw [← List.filterMap_eq_map]
  rfl

theorem numberFrom_append (n : Nat) (l r : List ResponsesData) :
    numberFrom n (l ++ r) = numberFrom n l ++ numberFrom (n + l.length) r := by
  simp only [numberFrom, List.zipIdx_append, List.map_append]

theorem numberFrom_data (n : Nat) (datas : List ResponsesData) :
    (numberFrom n datas).map Numbered.data = datas := by
  rw [numberFrom, List.map_map]
  exact List.zipIdx_map_fst n datas

theorem numberFrom_seq (datas : List ResponsesData) :
    (numberFrom 0 datas).map Numbered.seq = List.range (numberFrom 0 datas).length := by
  have hlength : (numberFrom 0 datas).length = datas.length := by simp [numberFrom]
  rw [hlength, numberFrom, List.map_map, List.range_eq_range']
  exact List.zipIdx_map_snd 0 datas

/-- The data fills a message. -/
def ResponsesData.fills : ResponsesData → Bool
  | .partAdded _ | .textDelta _ _ => true
  | _ => false

theorem ResponsesData.aboutItem_of_fills {data : ResponsesData} (h : data.fills = true) :
    data.aboutItem = false := by
  cases data <;> first | rfl | cases h

theorem ResponsesData.response_of_fills {data : ResponsesData} (h : data.fills = true) :
    data.response = none := by
  cases data <;> first | rfl | cases h

/-- What the loop sends before the turn ends: nothing until the first token, and
    from there on the announcement of the message and what fills it. -/
inductive Streamed : Bool → List ResponsesData → Prop where
  | silent : Streamed false []
  | message {deltas : List ResponsesData} : (∀ data ∈ deltas, data.fills = true) →
      Streamed true (.itemAdded 0 .message :: deltas)

theorem Streamed.token {textOpen : Bool} {datas : List ResponsesData} (h : Streamed textOpen datas)
    (tok : Text) :
    Streamed true (datas ++ ((if textOpen then [] else [.itemAdded 0 .message, .partAdded 0]) ++
      [.textDelta 0 tok])) := by
  cases h with
  | silent =>
    apply Streamed.message
    intro data hdata
    rcases List.mem_cons.mp hdata with rfl | hdata
    · rfl
    · rw [List.mem_singleton.mp hdata]
      rfl
  | message hdeltas =>
    apply Streamed.message
    intro data hdata
    rcases List.mem_append.mp hdata with hdata | hdata
    · exact hdeltas data hdata
    · rw [List.mem_singleton.mp hdata]
      rfl

structure StreamedInv (events : List (Event F)) (out : List (Sent Numbered))
    (s : ResponsesStream) : Prop where
  sent : ∃ datas, eventsOf out = numberFrom 1 datas ∧ s.seq = 1 + datas.length ∧
    Streamed s.textOpen datas
  text : s.text = textOf events
  calls : s.calls = callsOf events
  textOpen : s.textOpen = events.any isToken
  index : s.index = 0

theorem StreamedInv.calling {events : List (Event F)} {out : List (Sent Numbered)}
    {s : ResponsesStream} (h : StreamedInv events out s) {event : Event F}
    (htoken : isToken event = false) (htext : tokenOf event = []) :
    StreamedInv (events ++ [event]) (out ++ []) { s with calls := s.calls ++ callsIn event } := by
  rw [List.append_nil]
  refine ⟨h.sent, ?_, ?_, ?_, h.index⟩
  · simp [h.text, textOf, htext]
  · simp [h.calls, callsOf]
  · simp [h.textOpen, htoken]

theorem StreamedInv.silent {events : List (Event F)} {out : List (Sent Numbered)}
    {s : ResponsesStream} (h : StreamedInv events out s) {event : Event F}
    (htoken : isToken event = false) (htext : tokenOf event = []) (hcalls : callsIn event = []) :
    StreamedInv (events ++ [event]) (out ++ []) s := by
  have hsame := h.calling htoken htext
  simpa only [hcalls, List.append_nil] using hsame

theorem responsesStreamStep_streamed {events : List (Event F)} {out written : List (Sent Numbered)}
    {s s' : ResponsesStream} {event : Event F} (h : StreamedInv events out s)
    (hstep : responsesStreamStep s event = (written, .go s')) :
    StreamedInv (events ++ [event]) (out ++ written) s' := by
  cases event with
  | token tok logprobs =>
    obtain ⟨datas, hsent, hseq, hstreamed⟩ := h.sent
    simp only [responsesStreamStep, h.index, Prod.mk.injEq, Next.go.injEq] at hstep
    obtain ⟨rfl, rfl⟩ := hstep
    refine ⟨⟨_, ?_, ?_, hstreamed.token tok⟩, ?_, ?_, ?_, rfl⟩
    · rw [eventsOf_append, hsent, eventsOf_sendAll, hseq, ← numberFrom_append]
    · simp only [List.length_append, hseq, Nat.add_assoc]
    · simp [h.text, textOf, tokenOf]
    · simp [h.calls, callsOf, callsIn]
    · simp [isToken]
  | toolCall call =>
    cases hstep
    exact h.calling rfl rfl
  | toolCalls calls =>
    cases hstep
    exact h.calling rfl rfl
  | hello | media | vectors | tokens | notice =>
    cases hstep
    exact h.silent rfl rfl rfl
  | done | error => cases hstep

theorem responsesStreamStep_quiet (s : ResponsesStream) {event : Event F}
    (h : ends event = false) : ∃ written s', responsesStreamStep s event = (written, .go s') := by
  cases event with
  | done | error => cases h
  | hello | token | toolCall | toolCalls | media | vectors | tokens | notice => exact ⟨_, _, rfl⟩

theorem responsesStream_goes {events : List (Event F)}
    (h : ∀ event ∈ events, ends event = false) :
    ∃ out s, responsesStreamLoop.goes .new events = some (out, s) ∧ StreamedInv events out s := by
  have hgo : ∃ out s, responsesStreamLoop.goes .new events = some (out, s) :=
    responsesStreamLoop.goes_of_forall fun s event hevent =>
      responsesStreamStep_quiet s (h event hevent)
  obtain ⟨out, s, hgoes⟩ := hgo
  refine ⟨out, s, hgoes, ?_⟩
  apply Loop.goes_induction (P := StreamedInv) ?_ ?_ hgoes
  · exact ⟨⟨[], rfl, rfl, .silent⟩, rfl, rfl, rfl, rfl⟩
  · intro as out t event written t' hinv hstep
    have hnext := responsesStreamStep_streamed hinv hstep
    simpa [responsesStreamLoop] using hnext

/-! ### The end of the stream -/

theorem announces_calls (n : Nat) (calls : List ToolCall) (response : ResponsesReply) :
    Announces n none (streamCalls n calls ++ [.completed response]) (calls.map .call) := by
  induction calls generalizing n with
  | nil =>
    refine .other ?_ (.nil n)
    rfl
  | cons call calls ih =>
    have hdone : Announces n (some (.call call)) _ _ := .done (ih (n + 1))
    refine .added (.other ?_ hdone)
    rfl

/-- The items that the stream announces. -/
def announcedOf (textOpen : Bool) (text : Text) (calls : List ToolCall) : List Item :=
  (if textOpen then [.message text] else []) ++ calls.map .call

theorem announces_stream {s : ResponsesStream} {datas : List ResponsesData}
    (h : Streamed s.textOpen datas) (hindex : s.index = 0) :
    Announces 0 none (datas ++ responsesEnd s) (announcedOf s.textOpen s.text s.calls) := by
  unfold responsesEnd closeMessage announcedOf
  cases hopen : s.textOpen with
  | false =>
    rw [hopen] at h
    cases h
    simp only [hindex, Bool.false_eq_true, if_false, List.nil_append]
    exact announces_calls 0 s.calls _
  | true =>
    rw [hopen] at h
    cases h with
    | @message deltas hdeltas =>
      have hothers : ∀ data ∈ deltas, data.aboutItem = false :=
        fun data hdata => ResponsesData.aboutItem_of_fills (hdeltas data hdata)
      have hdone : Announces 0 (some (.message s.text)) _ _ :=
        .done (announces_calls 1 s.calls ⟨outputOf s.text s.calls, s.usage⟩)
      simp only [hindex, if_true, List.cons_append, List.nil_append]
      refine .added (Announces.others hothers (.other ?_ (.other ?_ hdone)))
      · rfl
      · rfl

theorem Streamed.no_response {textOpen : Bool} {datas : List ResponsesData}
    (h : Streamed textOpen datas) : datas.filterMap ResponsesData.response = [] := by
  apply List.filterMap_eq_nil_iff.mpr
  intro data hdata
  cases h with
  | silent => exact absurd hdata List.not_mem_nil
  | message hdeltas =>
    rcases List.mem_cons.mp hdata with rfl | hdata
    · rfl
    · exact ResponsesData.response_of_fills (hdeltas data hdata)

theorem response_streamCalls (n : Nat) (calls : List ToolCall) :
    (streamCalls n calls).filterMap ResponsesData.response = [] := by
  induction calls generalizing n with
  | nil => rfl
  | cons call calls ih => exact ih (n + 1)

theorem response_stream {s : ResponsesStream} {datas : List ResponsesData}
    (h : Streamed s.textOpen datas) :
    (datas ++ responsesEnd s).filterMap ResponsesData.response =
      [⟨outputOf s.text s.calls, s.usage⟩] := by
  have hdatas := h.no_response
  have hclosing : (closeMessage s).1.filterMap ResponsesData.response = [] := by
    unfold closeMessage
    split <;> rfl
  simp only [responsesEnd, List.filterMap_append, hdatas, hclosing, response_streamCalls,
    List.nil_append]
  rfl

/-- What the stream sends for a whole turn. -/
theorem responses_stream_done (turn : Turn F) :
    ∃ datas, eventsOf (relayResponsesSse turn.session).sent = numberFrom 0 datas ∧
      Announces 0 none datas
        (announcedOf (turn.events.any isToken) (textOf turn.events) (callsOf turn.events)) ∧
      datas.filterMap ResponsesData.response =
        [⟨outputOf (textOf turn.events) (callsOf turn.events), turn.usage⟩] := by
  obtain ⟨out, s, hgoes, hinv⟩ := responsesStream_goes turn.quiet
  obtain ⟨datas, hsent, hseq, hstreamed⟩ := hinv.sent
  have hrun := Loop.run_append hgoes
    (.done turn.isDone turn.usage turn.finish :: turn.behind.events) turn.behind.ending
  have hlast : responsesStreamLoop.run s
      (.done turn.isDone turn.usage turn.finish :: turn.behind.events) turn.behind.ending =
        ([], .broke { s with usage := turn.usage }) := rfl
  have hreached : Streamed { s with usage := turn.usage }.textOpen datas := hstreamed
  refine ⟨.created :: (datas ++ responsesEnd { s with usage := turn.usage }), ?_, ?_, ?_⟩
  · rw [relayResponsesSse, Turn.session, hrun, hlast]
    simp only [List.append_nil, eventsOf_append, eventsOf_head, eventsOf_sendAll, hsent, hseq]
    rw [List.append_assoc, ← numberFrom_append]
    rfl
  · rw [← hinv.textOpen, ← hinv.text, ← hinv.calls]
    refine .other ?_ (announces_stream hreached hinv.index)
    rfl
  · rw [← hinv.text, ← hinv.calls]
    exact response_stream hreached

/-! ### In one piece -/

def gatheredResponse (events : List (Event F)) : ResponsesState :=
  ⟨textOf events, callsOf events, Usage.default⟩

theorem responses_gathers : Gathers (responsesLoop (F := F) staying) gatheredResponse := by
  intro events event s hquiet hacc
  cases event with
  | done | error => cases hquiet
  | hello | token | toolCall | toolCalls | media | vectors | tokens | notice =>
    refine ⟨_, rfl, ?_, rfl⟩
    simp [hacc, gatheredResponse, textOf, tokenOf, callsOf, callsIn]

/-- The reply to a whole turn. -/
theorem responses_json_done (turn : Turn F) :
    (relayResponsesJson staying turn.session).sent =
      [.respond 200 (.ok ⟨outputOf (textOf turn.events) (callsOf turn.events), turn.usage⟩)] := by
  obtain ⟨s, hrun, hacc, hstays⟩ := responses_gathers.run_talk rfl
    (s := ⟨.new, false, 0⟩) (rfl : _ = gatheredResponse []) rfl turn.toTalk
    (.done turn.isDone turn.usage turn.finish :: turn.behind.events) turn.behind.ending
  have hlast : (responsesLoop staying).run s
      (.done turn.isDone turn.usage turn.finish :: turn.behind.events) turn.behind.ending =
        ([], .broke ⟨{ s.acc with usage := turn.usage }, s.abandoned, s.reads + 1⟩) := by
    simp [Loop.run, responsesLoop, responsesStep]
  rw [relayResponsesJson, Turn.session, hrun, hlast]
  simp [hstays, hacc, gatheredResponse]

/-! ### Both -/

theorem textOf_of_silent {events : List (Event F)} (h : ∀ event ∈ events, isToken event = false) :
    textOf events = [] := by
  refine List.flatMap_eq_nil_iff.mpr ?_
  intro event hevent
  have htoken := h event hevent
  cases event with
  | token tok logprobs => cases htoken
  | hello | toolCall | toolCalls | media | vectors | tokens | done | error | notice => rfl

/-- The message is in both lists or in neither. -/
theorem announced_iff (events : List (Event F)) :
    outputOf (textOf events) (callsOf events) =
      announcedOf (events.any isToken) (textOf events) (callsOf events) ↔ TokensSay events := by
  have hlists : outputOf (textOf events) (callsOf events) =
      announcedOf (events.any isToken) (textOf events) (callsOf events) ↔
        (events.any isToken = true → textOf events ≠ []) := by
    unfold outputOf announcedOf
    by_cases hempty : textOf events = []
    · cases events.any isToken <;> simp [hempty]
    · have hany : events.any isToken = true := by
        by_contra hnone
        refine hempty (textOf_of_silent fun event hevent => ?_)
        simpa using List.any_eq_false.mp (Bool.not_eq_true _ ▸ hnone) event hevent
      simp [hempty, hany]
  rw [hlists]
  constructor
  · intro h
    rcases Bool.eq_false_or_eq_true (events.any isToken) with hany | hnone
    · refine Or.inr ?_
      by_contra hall
      push Not at hall
      exact h hany (List.flatMap_eq_nil_iff.mpr hall)
    · refine Or.inl ?_
      intro event hevent
      simpa using List.any_eq_false.mp hnone event hevent
  · rintro (hsilent | ⟨event, hevent, hsays⟩) hany hempty
    · obtain ⟨event, hevent, htoken⟩ := List.any_eq_true.mp hany
      rw [hsilent event hevent] at htoken
      cases htoken
    · exact hsays (List.flatMap_eq_nil_iff.mp hempty event hevent)

/-- **The Responses stream describes the response that it completes**, which is
    the one of the other reply, if and only if it has no token or one that is
    not empty. -/
theorem responses_stream_describes_iff (turn : Turn F) :
    (∃ reply, (relayResponsesJson staying turn.session).sent = [.respond 200 (.ok reply)] ∧
      Describes (eventsOf (relayResponsesSse turn.session).sent) reply) ↔
      TokensSay turn.events := by
  obtain ⟨datas, hsent, hannounces, hresponse⟩ := responses_stream_done turn
  rw [responses_json_done, hsent, ← announced_iff, ← hannounces.describes_iff]
  constructor
  · rintro ⟨reply, hreply, hdescribes⟩
    cases hreply
    have hitems := hdescribes.items
    rwa [numberFrom_data] at hitems
  · intro hitems
    refine ⟨_, rfl, ⟨numberFrom_seq datas, ?_, ?_⟩⟩
    · rw [numberFrom_data]
      exact hresponse
    · rw [numberFrom_data]
      exact hitems

/-- A turn that says one empty token. -/
def emptyToken : Turn Unit where
  events := [.token [] none]
  quiet := by simp [ends]
  isDone := true
  usage := Usage.default
  finish := none
  behind := ⟨[], .closed⟩

/-- The message that the stream finishes is not in the output. -/
theorem empty_message_left_out :
    ¬ ∃ reply, (relayResponsesJson staying emptyToken.session).sent = [.respond 200 (.ok reply)] ∧
      Describes (eventsOf (relayResponsesSse emptyToken.session).sent) reply := by
  rintro ⟨reply, hreply, hdescribes⟩
  cases hreply
  have hdone := (hdescribes.items.output 0 (.message [])).mpr (by decide)
  cases hdone

end AiDaemon.Shim
