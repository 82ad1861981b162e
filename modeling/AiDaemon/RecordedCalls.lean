import AiDaemon.CallText
import AiDaemon.GrammarSound
import AiDaemon.ShimCountTokens

/-!
# Recorded tool calls (`session.rs`: `turn`; `main.rs`: `parse_messages_body`)

A worker records every tool call that it accepts in the conversation.  The shim writes
the same text for a call that a client sends back.  Whether either is read as the call
depends on the id and on the name, which a backend or a client chooses.
-/

namespace AiDaemon.RecordedCalls

open Json Proto Turn Ledger

/-! ### The source -/

section Turns

variable {R J F : Type}

/-- The calls that an event has. -/
def callsIn (x : Arrival F) : List ToolCall :=
  match x.outcome with
  | .ok (.toolCalls _ calls) => calls
  | .ok (.toolCall _ call) => [call]
  | _ => []

/-- The calls that a turn accepts. -/
def acceptedCalls (w : TurnWorker R J) (arrivals : List (Arrival F)) : List ToolCall :=
  (arrivals.takeWhile fun x => !endsTurn w x).flatMap callsIn

end Turns

variable {D : Type} (floats : Floats D)

/-- The id of a block that replays a call, its name and its input. -/
def blockId (block : Value D) : Text := (Shim.strAt "id" block).getD []

def blockName (block : Value D) : Text := (Shim.strAt "name" block).getD []

def blockInput (block : Value D) : Value D := (block.get "input".toList).getD (.obj [])

/-- The text that the shim writes for a block is read as its call. -/
def Replayed (block : Value D) : Prop :=
  fromStr floats ((Shim.toolUse block).render floats) =
    some (recorded (blockId block) (blockName block) (blockInput block))

/-- The text in the conversation is read as the call, and so is what the shim writes
    for it. -/
def Recorded (call : ToolCall) : Prop :=
  ∃ args, fromStr floats call.arguments = some args ∧
    fromStr floats (toolCallMessage call).content = some (recorded call.id call.name args) ∧
    fromStr floats ((Shim.Piece.toolCall call.id call.name args).render floats) =
      some (recorded call.id call.name args)

/-- The id and the name can stand between quotes as they are, and the arguments are read
    with two levels less. -/
def Recordable (call : ToolCall) : Prop :=
  Splices call.id ∧ Splices call.name ∧ ReadsWithin floats (recursionLimit - 2) call.arguments

/-! ### The conversation -/

section Turns

variable {R J F : Type} (w : TurnWorker R J)

@[simp] theorem send_history (st : TurnState F) (x : Arrival F) (event : Event F) :
    (st.send x event).history = st.history := by
  unfold TurnState.send
  split <;> rfl

theorem toolCallsArm_history (st : TurnState F) (x : Arrival F) (calls : List ToolCall)
    (event : Event F) : (toolCallsArm w st x calls event).1.history =
      st.history ++ if refuses w calls then [] else calls.map toolCallMessage := by
  unfold toolCallsArm refuses
  split <;> simp

theorem turnArm_history (promptEstimate : UInt64) (st : TurnState F) (x : Arrival F) :
    (turnArm w promptEstimate st x).1.history =
      st.history ++ if endsTurn w x then [] else (callsIn x).map toolCallMessage := by
  obtain ⟨outcome, now, delivered⟩ := x
  cases outcome with
  | error reason => exact (send_history st _ _).trans (List.append_nil _).symm
  | ok event =>
    cases event with
    | token reqId tok logprobs =>
      simp only [turnArm, callsIn, List.map_nil, ite_self, List.append_nil]
      cases w.stream with
      | true => exact send_history _ _ _
      | false => rfl
    | toolCall reqId call => exact toolCallsArm_history w st _ _ _
    | toolCalls reqId calls => exact toolCallsArm_history w st _ _ _
    | done reqId reported finishReason =>
      exact (send_history _ _ _).trans (List.append_nil _).symm
    | error reqId code message => exact (send_history st _ _).trans (List.append_nil _).symm
    | _ => exact (List.append_nil _).symm

/-- The calls that are accepted go into the conversation, in their order. -/
theorem drain_history (promptEstimate : UInt64) {arrivals : List (Arrival F)}
    {start st : TurnState F} (h : drain (turnArm w promptEstimate) start arrivals = some st) :
    st.history = start.history ++ (acceptedCalls w arrivals).map toolCallMessage := by
  induction arrivals generalizing start with
  | nil => cases h
  | cons x arrivals ih =>
    have hhistory := turnArm_history w promptEstimate start x
    rw [drain, turnArm_ends] at h
    cases hends : endsTurn w x with
    | true =>
      rw [hends, if_pos rfl, Option.some.injEq] at h
      rw [← h, hhistory, hends]
      simp [acceptedCalls, hends]
    | false =>
      rw [hends, if_neg Bool.false_ne_true] at h
      rw [ih h, hhistory, hends]
      simp [acceptedCalls, hends]

/-- The arguments of a call that is accepted are JSON. -/
theorem checkCalls_json {offered : List (ToolSchema J)} {calls : List ToolCall}
    (h : checkCalls w offered calls = .ok ()) : ∀ call ∈ calls, w.isJson call.arguments = true := by
  induction calls with
  | nil => exact fun call hcall => absurd hcall List.not_mem_nil
  | cons call calls ih =>
    rw [checkCalls] at h
    split at h
    · cases h
    · split at h
      · cases h
      · rename_i hjson
        exact List.forall_mem_cons.mpr ⟨by simpa using hjson, ih h⟩

theorem json_of_not_refuses {calls : List ToolCall} (h : refuses w calls = false) :
    ∀ call ∈ calls, w.isJson call.arguments = true := by
  rw [refuses, callsAreOnesWeOffered] at h
  split at h
  · cases h
  · rename_i hchecked
    split at hchecked
    · cases hchecked
    · exact checkCalls_json w hchecked

theorem acceptedCalls_json {arrivals : List (Arrival F)} :
    ∀ call ∈ acceptedCalls w arrivals, w.isJson call.arguments = true := by
  intro call hcall
  obtain ⟨x, hx, hcall⟩ := List.mem_flatMap.mp hcall
  have hgoes := not_ends_of_mem_takeWhile hx
  obtain ⟨outcome, now, delivered⟩ := x
  cases outcome with
  | error reason => exact absurd hcall List.not_mem_nil
  | ok event =>
    cases event with
    | toolCall reqId call' => exact json_of_not_refuses w hgoes call hcall
    | toolCalls reqId calls => exact json_of_not_refuses w hgoes call hcall
    | _ => exact absurd hcall List.not_mem_nil

end Turns

/-! ### Values of a body -/

theorem get_below {v u : Value D} {key : Text} (hv : v.Filed) (h : v.get key = some u) :
    u.Filed ∧ u.nesting < v.nesting := by
  cases v with
  | obj members =>
    refine ⟨lookup_filed hv h, ?_⟩
    have hle := nestingMembers_le_iff.mp le_rfl _ (mem_of_lookup h)
    rw [Value.nesting]
    exact Nat.lt_succ_of_le hle
  | null | bool | num | str | arr => cases h

theorem listAt_below {v u : Value D} {key : String} (hv : v.Filed)
    (h : u ∈ (Shim.listAt key v).getD []) : u.Filed ∧ u.nesting + 2 ≤ v.nesting := by
  cases hget : v.get key.toList with
  | none =>
    rw [Shim.listAt, hget] at h
    cases h
  | some list =>
    obtain ⟨hfiled, hless⟩ := get_below hv hget
    rw [Shim.listAt, hget] at h
    cases list with
    | arr items =>
      have hmem : u ∈ items := h
      have hle := nestingItems_le_iff.mp le_rfl u hmem
      rw [Value.nesting] at hless
      exact ⟨filedItems_iff.mp hfiled u hmem, by omega⟩
    | null | bool | num | str | obj => cases h

/-- The input of a block of a body is filed, and nests less deep than the body. -/
theorem blockInput_below {block : Value D} (h : block.Filed) :
    (blockInput block).Filed ∧ (blockInput block).nesting ≤ max 1 block.nesting := by
  cases hget : block.get "input".toList with
  | none =>
    rw [blockInput, hget]
    exact ⟨⟨List.Pairwise.nil, trivial⟩, Nat.le_max_left _ _⟩
  | some input =>
    obtain ⟨hfiled, hless⟩ := get_below h hget
    rw [blockInput, hget]
    exact ⟨hfiled, hless.le.trans (Nat.le_max_right _ _)⟩

/-! ### What is recorded -/

variable {floats}

/-- What is written for a value that does not nest too deep, in the text of a call. -/
theorem written_iff (hfloats : floats.Lawful) {id name : Text} {args : Value D}
    (hfiled : args.Filed) (hnesting : args.nesting < recursionLimit - 2) :
    fromStr floats ((Shim.Piece.toolCall id name args).render floats) =
      some (recorded id name args) ↔ Splices id ∧ Splices name := by
  have hwrite : ∀ depth, args.nesting < depth →
      Gives floats depth (write floats args) (args, []) := by
    intro depth hdepth
    have hread := reads_write hfloats args depth hdepth [] delimited_nil
    rwa [List.append_nil, normal_of_filed hfiled] at hread
  rw [render_toolCall, recorded_iff (hwrite _ (hnesting.trans (by decide))) rfl]
  exact and_congr_right fun _ => and_iff_left (hwrite _ hnesting)

theorem recorded_call_iff (hfloats : floats.Lawful) {call : ToolCall}
    (hjson : (fromStr floats call.arguments).isSome = true) :
    Recorded floats call ↔ Recordable floats call := by
  obtain ⟨args, hargs⟩ := Option.isSome_iff_exists.mp hjson
  obtain ⟨ws, hgives, hws⟩ := fromStr_eq_some.mp hargs
  constructor
  · rintro ⟨args', hargs', hcontent, -⟩
    obtain rfl := Option.some.inj (hargs.symm.trans hargs')
    rw [content_toolCallMessage, recorded_iff hgives hws] at hcontent
    obtain ⟨hid, hname, hdeep⟩ := hcontent
    exact ⟨hid, hname, args, ws, hdeep, hws⟩
  · rintro ⟨hid, hname, args', ws', hdeep, -⟩
    cases hdeep.same hgives
    obtain ⟨hfiled, hnesting⟩ := value_rules.hold.1 _ _ _ _ hdeep
    have hless : args.nesting < recursionLimit - 2 := Nat.lt_of_le_pred (by decide) hnesting
    exact ⟨args, hargs, recorded_of_splices hid hname hdeep hws,
      (written_iff hfloats hfiled hless).mpr ⟨hid, hname⟩⟩

/-- A block of a body that was read from a text. -/
theorem replayed_iff (hfloats : floats.Lawful) {text : Text} {body entry block : Value D}
    (hbody : fromStr floats text = some body) (hentry : entry ∈ Shim.entriesOf body)
    (hblock : block ∈ Shim.blocksOf entry) :
    Replayed floats block ↔ Splices (blockId block) ∧ Splices (blockName block) := by
  obtain ⟨hfiled, hnesting⟩ := fromStr_value hbody
  obtain ⟨hentryFiled, hentryNesting⟩ := listAt_below hfiled hentry
  obtain ⟨hblockFiled, hblockNesting⟩ := listAt_below hentryFiled hblock
  obtain ⟨hinputFiled, hinputNesting⟩ := blockInput_below hblockFiled
  have hless : (blockInput block).nesting < recursionLimit - 2 := by
    rw [recursionLimit] at hnesting ⊢
    omega
  exact written_iff hfloats hinputFiled hless

/-- The text of a block is a piece of the forwarded messages. -/
theorem replay_forwarded {F : Type} {debug : Text → Text} {single : Number D → F}
    {body entry block : Value D} {turn : Shim.BodyTurn F D}
    (hturn : Shim.parseMessagesBody floats debug single body = .ok turn)
    (hentry : entry ∈ Shim.entriesOf body) (hblock : block ∈ Shim.blocksOf entry)
    (huse : Shim.strAt "type" block = some "tool_use".toList) :
    (Shim.toolUse block).render floats ∈ turn.wording floats := by
  have hcall : (Shim.toolUse block).render floats ∈
      Shim.callWording floats block ++ Shim.resultWording floats block := by
    rw [Shim.callWording, if_pos huse]
    exact List.mem_append_left _ List.mem_cons_self
  have hpiece := Shim.mem_turnWording_of_tool hblock hcall
  have hwritten : (Shim.toolUse block).render floats ∈ Shim.written (turn.wording floats) := by
    rw [Shim.written_wording hturn]
    refine List.mem_append_right _ (List.mem_flatMap.mpr ⟨entry, hentry, ?_⟩)
    exact Shim.mem_written.mpr ⟨hpiece, List.cons_ne_nil _ _⟩
  exact (Shim.mem_written.mp hwritten).1

/-- A worker that offered one tool. -/
def offering : TurnWorker ℚ Nat :=
  { hosted with
    tools := some [⟨"f".toList, [], 0⟩]
    isJson := fun text => (fromStr Grammar.noDoubles text).isSome }

def called (call : ToolCall) : Arrival Nat := ⟨.ok (.toolCall 1 call), 0, true⟩

def plainCall : ToolCall := ⟨"1".toList, "f".toList, "\x7b\x7d".toList⟩

/-- A call whose id brings an id of its own. -/
def splicedCall : ToolCall where
  id := "1".toList ++ "\",\"id\":\"".toList ++ "2".toList
  name := "f".toList
  arguments := "\x7b\x7d".toList

/-- The backend says nothing more. -/
def silent : Arrival Nat := ⟨.error .timeout, 1, true⟩

/-- A body that replays a call of the tool. -/
def replaying (id : Text) : Value Empty :=
  .obj [("max_tokens".toList, .num (.posInt 9)),
    ("messages".toList, .arr [.obj [("content".toList, .arr [
      .obj [("id".toList, .str id), ("name".toList, .str "f".toList),
        ("type".toList, .str "tool_use".toList)]])]])]

theorem fromStr_replaying (id : Text) :
    fromStr Grammar.noDoubles (Json.write Grammar.noDoubles (replaying id)) =
      some (replaying id) :=
  fromStr_write Grammar.noDoubles_lawful (show 5 < recursionLimit by decide)

/-- The arguments of both. -/
theorem gives_no_arguments :
    Gives Grammar.noDoubles (recursionLimit - 2) "\x7b\x7d".toList (.obj [], []) := by
  rw [show "\x7b\x7d".toList = ['\x7b', '\x7d'] by decide]
  exact gives_obj.mpr ⟨by decide, Or.inl ⟨[], skipWs_cons (by decide) _, rfl⟩⟩

end AiDaemon.RecordedCalls
