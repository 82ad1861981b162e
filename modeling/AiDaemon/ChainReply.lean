import AiDaemon.ChainRequest

/-!
# A daemon behind a daemon: the reply (`relay_sse`, `ai-daemon-backend-remote`: `generate`)

The stream of the HTTP bridge as text, and the loop of the remote backend that reads it
line by line.  A token of the daemon behind is a chunk on a line of its own, and so is a
tool call; a notice is a comment, which is no `data`.

`reply_across` says what the daemon in front hears of a turn of the daemon behind, however
that turn ends.
-/

namespace AiDaemon.Chained

open Json Proto Relay Remote
open Shim (ChatData Sent ends memberAt memberAt_object number object relaySse singlesOf
  sseStep)

variable {D F F' J : Type}

/-! ### The stream as text -/

section Texts

variable (floats : Floats D) (id model : Text)

/-- A line of an event, and the empty one behind it. -/
def dataText (data : ChatData) : Text :=
  "data: ".toList ++ ((data.json id model).map (write floats)).getD "[DONE]".toList ++
    ['\n', '\n']

/-- What `relay_sse` writes; `curl` keeps the head to itself. -/
def sentText : Sent ChatData → Text
  | .head => []
  | .event data => dataText floats id model data
  | .comment event detail => ": ".toList ++ event ++ ' ' :: (detail ++ ['\n', '\n'])

def streamText (sent : List (Sent ChatData)) : Text := sent.flatMap (sentText floats id model)

end Texts

/-- `read_line`, as often as there is one. -/
def readLines : Text → List Text
  | [] => []
  | c :: cs =>
    if c = '\n' then [c] :: readLines cs
    else
      match readLines cs with
      | [] => [[c]]
      | line :: lines => (c :: line) :: lines

theorem readLines_line {line : Text} (h : '\n' ∉ line) (rest : Text) :
    readLines (line ++ '\n' :: rest) = (line ++ ['\n']) :: readLines rest := by
  induction line with
  | nil => rw [List.nil_append, readLines, if_pos rfl, List.nil_append]
  | cons c line ih =>
    rw [List.mem_cons, not_or] at h
    rw [List.cons_append, readLines, if_neg (Ne.symm h.1), ih h.2]
    rfl

/-- The lines of what is sent. -/
def sentLines (floats : Floats D) (id model : Text) : Sent ChatData → List Text
  | .head => []
  | .event data =>
    ["data: ".toList ++ ((data.json id model).map (write floats)).getD "[DONE]".toList ++ ['\n'],
      ['\n']]
  | .comment event detail => [": ".toList ++ event ++ ' ' :: (detail ++ ['\n']), ['\n']]

/-- A comment is one line. -/
def OneLine : Sent ChatData → Prop
  | .comment event detail => '\n' ∉ event ∧ '\n' ∉ detail
  | .head | .event _ => True

def dataMark : Text := "data: ".toList

def doneMark : Text := "[DONE]".toList

theorem not_mem_payload {floats : Floats D} (hfloats : floats.Lawful) (v : Option (Value D)) :
    '\n' ∉ dataMark ++ (v.map (write floats)).getD doneMark := by
  intro hin
  rcases List.mem_append.mp hin with hmark | hpayload
  · revert hmark
    decide
  · cases v with
    | none =>
      have hplain : '\n' ∉ doneMark := by decide
      exact hplain hpayload
    | some v =>
      have hplain := plain_write hfloats v '\n' hpayload
      revert hplain
      decide

theorem readLines_sent {floats : Floats D} (hfloats : floats.Lawful) (id model : Text)
    {sent : List (Sent ChatData)} (h : ∀ s ∈ sent, OneLine s) :
    readLines (streamText floats id model sent) = sent.flatMap (sentLines floats id model) := by
  induction sent with
  | nil => rfl
  | cons s sent ih =>
    rw [List.forall_mem_cons] at h
    have hrest := ih h.2
    rw [streamText] at hrest ⊢
    rw [List.flatMap_cons, List.flatMap_cons, ← hrest]
    have htwo : ∀ {line : Text}, '\n' ∉ line → ∀ rest,
        readLines (line ++ ['\n', '\n'] ++ rest) =
          [line ++ ['\n'], ['\n']] ++ readLines rest := by
      intro line hline rest
      rw [List.append_assoc]
      show readLines (line ++ '\n' :: ('\n' :: rest)) = _
      rw [readLines_line hline, readLines, if_pos rfl]
      rfl
    cases s with
    | head => rfl
    | event data => exact htwo (not_mem_payload hfloats (data.json id model)) _
    | comment event detail =>
      have hline : '\n' ∉ ": ".toList ++ event ++ ' ' :: detail := by
        simp [h.1.1, h.1.2]
      have hsame : sentText floats id model (.comment event detail) =
          (": ".toList ++ event ++ ' ' :: detail) ++ ['\n', '\n'] := by
        simp [sentText]
      rw [hsame, htwo hline]
      simp [sentLines]

/-! ### A line of the stream -/

theorem payloadOf_data (payload : Text) :
    payloadOf (dataMark ++ payload) = some payload.trim := by
  rw [payloadOf]
  show ((dataMark.isPrefixOf? (dataMark ++ payload)).map Text.trim) = _
  rw [Text.isPrefixOf?_append]
  rfl

theorem payloadOf_object (floats : Floats D) (members : List (String × Value D)) :
    payloadOf (dataMark ++ write floats (object members) ++ ['\n']) =
      some (write floats (object members)) := by
  obtain ⟨inner, hinner⟩ := write_object floats members
  have hbrace : Text.isWhite '\x7d' = false := by decide
  have hlf : Text.isWhite '\n' = true := by decide
  have hword : ∀ c ∈ ['\x7b'], Text.isWhite c = false := List.forall_mem_singleton.mpr (by decide)
  rw [List.append_assoc, payloadOf_data, hinner, List.cons_append, ← List.singleton_append,
    AppPortal.trim_word (List.cons_ne_nil _ _) hword, List.rdropWhile_concat_pos _ _ _ hlf,
    List.rdropWhile_concat_neg _ _ _ (by rw [hbrace]; exact Bool.false_ne_true),
    List.singleton_append]

/-! ### A chunk -/

def choiceValue (delta finishReason : Value D) : Value D :=
  object [("index", number 0), ("delta", delta), ("finish_reason", finishReason)]

theorem chatChunk_choice (id model : Text) (delta finishReason : Value D)
    (more : Option (Value D)) :
    let chunk := Shim.chatChunk id model delta finishReason
      (more.map fun usage => ("usage", usage)).toList
    chunk.get "usage".toList = more ∧ choiceOf chunk = some (choiceValue delta finishReason) := by
  intro chunk
  have husage : memberAt "usage" chunk = more := by
    cases more <;> simp [chunk, Shim.chatChunk, memberAt_object]
  have hchoices : memberAt "choices" chunk = some (.arr [choiceValue delta finishReason]) := by
    cases more <;> simp [chunk, Shim.chatChunk, memberAt_object, choiceValue]
  rw [memberAt] at husage hchoices
  refine ⟨husage, ?_⟩
  rw [choiceOf, hchoices]
  rfl

theorem choiceValue_fields (delta finishReason : Value D) :
    let choice := choiceValue delta finishReason
    deltaOf choice = some delta ∧ choice.get "finish_reason".toList = some finishReason ∧
      choice.get "logprobs".toList = none := by
  have hdelta : memberAt "delta" (choiceValue delta finishReason) = some delta := by
    simp [choiceValue, memberAt_object]
  have hfinish : memberAt "finish_reason" (choiceValue delta finishReason) =
      some finishReason := by
    simp [choiceValue, memberAt_object]
  have hlogprobs : memberAt "logprobs" (choiceValue delta finishReason) = none := by
    simp [choiceValue, memberAt_object]
  exact ⟨hdelta, hfinish, hlogprobs⟩

theorem toolCallOf_chatCall (reqId : UInt64) (n index : Nat) (call : ToolCall) :
    toolCallOf reqId n (object (("index", number (.ofNat index)) :: Shim.chatCall call) : Value D) =
      call := by
  let element : Value D := object (("index", number (.ofNat index)) :: Shim.chatCall call)
  have hid : memberAt "id" element = some (.str call.id) := by
    simp [element, Shim.chatCall, memberAt_object]
  have hfunction : memberAt "function" element =
      some (object [("name", .str call.name), ("arguments", .str call.arguments)]) := by
    simp [element, Shim.chatCall, memberAt_object]
  have hname : memberAt "name" (object [("name", .str call.name),
      ("arguments", .str call.arguments)] : Value D) = some (.str call.name) := by
    simp [memberAt_object]
  have harguments : memberAt "arguments" (object [("name", .str call.name),
      ("arguments", .str call.arguments)] : Value D) = some (.str call.arguments) := by
    simp [memberAt_object]
  rw [memberAt] at hid hfunction hname harguments
  show toolCallOf reqId n element = call
  rw [toolCallOf, idOf, nameOf, argumentsOf, hid, hfunction, Option.bind_some, Option.bind_some,
    Option.bind_some, hname, harguments]
  rfl

section Chunks

variable (g : Generation D F J) (s : Generating) (id model : Text)

/-- What is sent on for a piece of text. -/
def sentFor (tok : Text) : List (BackendEvent F) :=
  if g.tools.isEmpty ∧ tok ≠ [] then [.token g.reqId tok none] else []

theorem chunkStep_content (tok : Text) :
    chunkStep g s (Shim.chatChunk id model (object [("content", .str tok)]) .null []) =
      (sentFor g tok, { s with emitted := s.emitted + if tok = [] then 0 else 1 }) := by
  have hcontent : memberAt "content" (object [("content", .str tok)] : Value D) =
      some (.str tok) := by
    simp [memberAt_object]
  have hcalls : memberAt "tool_calls" (object [("content", .str tok)] : Value D) = none := by
    simp [memberAt_object]
  rw [memberAt] at hcontent hcalls
  obtain ⟨husage, hchoice⟩ := chatChunk_choice id model
    (object [("content", .str tok)] : Value D) .null none
  obtain ⟨hdelta, hfinish, hlogprobs⟩ := choiceValue_fields
    (object [("content", .str tok)] : Value D) .null
  rw [Option.map_none, Option.toList_none] at husage hchoice
  rw [chunkStep, noteUsage, husage]
  simp only [hchoice]
  rw [noteFinish, hfinish]
  simp only [Option.bind_some, Value.asStr]
  rw [choiceStep, toolCallsOf, contentOf, hdelta, Option.bind_some, Option.bind_some, hcalls,
    hcontent]
  simp only [Option.bind_none, Option.bind_some, Value.asStr]
  have hnone : logprobsOf g.single (choiceValue (object [("content", .str tok)]) .null) = none := by
    rw [logprobsOf, hlogprobs]
    rfl
  cases tok with
  | nil =>
    rw [if_pos rfl, sentFor, if_neg (fun h => h.2 rfl), UInt64.add_zero]
  | cons c tok =>
    rw [if_neg (List.cons_ne_nil c tok)]
    simp only [hnone, sentFor, ne_eq, reduceCtorEq, not_false_eq_true, and_true]

theorem chunkStep_toolCall (index : Nat) (call : ToolCall) :
    chunkStep g s (Shim.chatChunk id model (object [("tool_calls",
      .arr [object (("index", number (.ofNat index)) :: Shim.chatCall call)])]) .null []) =
        ([], { s with collected := s.collected ++ [call] }) := by
  generalize helement :
    (object (("index", number (.ofNat index)) :: Shim.chatCall call) : Value D) = element
  have hcalls : memberAt "tool_calls" (object [("tool_calls", .arr [element])] : Value D) =
      some (.arr [element]) := by
    simp [memberAt_object]
  rw [memberAt] at hcalls
  obtain ⟨husage, hchoice⟩ := chatChunk_choice id model
    (object [("tool_calls", .arr [element])] : Value D) .null none
  obtain ⟨hdelta, hfinish, -⟩ := choiceValue_fields
    (object [("tool_calls", .arr [element])] : Value D) .null
  rw [Option.map_none, Option.toList_none] at husage hchoice
  rw [chunkStep, noteUsage, husage]
  simp only [hchoice]
  rw [noteFinish, hfinish]
  simp only [Option.bind_some, Value.asStr]
  rw [choiceStep, toolCallsOf, hdelta, Option.bind_some, hcalls]
  simp only [Option.bind_some, Value.asArray]
  rw [collect, List.foldl_cons, List.foldl_nil, ← helement, toolCallOf_chatCall]

theorem chunkStep_finish (finishReason : Text) (usage : Usage) :
    chunkStep g s (Shim.chatChunk id model (object []) (.str finishReason)
      [("usage", Shim.chatUsage usage)]) =
        ([], { s with promptTokens := usage.promptTokens, finishReason := some finishReason }) := by
  have hprompt : memberAt "prompt_tokens" (Shim.chatUsage usage : Value D) =
      some (number usage.promptTokens) := by
    simp [Shim.chatUsage, memberAt_object]
  rw [memberAt] at hprompt
  obtain ⟨husage, hchoice⟩ := chatChunk_choice id model (object [] : Value D) (.str finishReason)
    (some (Shim.chatUsage usage))
  obtain ⟨hdelta, hfinish, -⟩ := choiceValue_fields (object [] : Value D) (.str finishReason)
  rw [Option.map_some, Option.toList_some] at husage hchoice
  have hread : ((Shim.chatUsage usage : Value D).get "prompt_tokens".toList).bind Value.asU64 =
      some usage.promptTokens := by
    rw [hprompt]
    rfl
  rw [chunkStep, noteUsage, husage]
  simp only [hchoice]
  rw [hread, noteFinish, hfinish]
  simp only [Option.bind_some, Value.asStr]
  rw [choiceStep, toolCallsOf, contentOf, hdelta]
  rfl

theorem chunkStep_error (code message : Text) :
    chunkStep g s (Shim.errorBody code message) = ([], s) := by
  have husage : memberAt "usage" (Shim.errorBody code message : Value D) = none := by
    simp [Shim.errorBody, memberAt_object]
  have hchoices : memberAt "choices" (Shim.errorBody code message : Value D) = none := by
    simp [Shim.errorBody, memberAt_object]
  rw [memberAt] at husage hchoices
  rw [chunkStep, noteUsage, husage]
  simp only [choiceOf, hchoices, Option.bind_none]

end Chunks

/-! ### What the loop does with a line -/

/-- Every piece of the stream but the mark at its end is an object, and is read as written. -/
theorem json_object {id model : Text} {data : ChatData} {v : Value D}
    (h : data.json id model = some v) : (∃ members, v = object members) ∧ Settled 7 v := by
  have hchunk : ∀ {delta finishReason : Value D} {more : List (String × Value D)},
      Settled 4 delta → Settled 4 finishReason → (∀ member ∈ more, Settled 6 member.2) →
      Settled 7 (Shim.chatChunk id model delta finishReason more) := by
    intro delta finishReason more hdelta hfinish hmore
    refine settled_object ?_
    rw [List.forall_mem_append, List.forall_mem_cons, List.forall_mem_cons, List.forall_mem_cons,
      List.forall_mem_singleton]
    refine ⟨⟨settled_str _ _, settled_str _ _, settled_str _ _, ?_⟩, hmore⟩
    refine settled_arr (List.forall_mem_singleton.mpr (settled_object ?_))
    rw [List.forall_mem_cons, List.forall_mem_cons, List.forall_mem_singleton]
    exact ⟨settled_num _ _, hdelta, hfinish⟩
  cases data with
  | content tok =>
    cases h
    refine ⟨⟨_, rfl⟩, hchunk (settled_object ?_) (settled_null _) (List.forall_mem_nil _)⟩
    exact List.forall_mem_singleton.mpr (settled_str _ _)
  | toolCall index call =>
    cases h
    refine ⟨⟨_, rfl⟩, hchunk (settled_object ?_) (settled_null _) (List.forall_mem_nil _)⟩
    refine List.forall_mem_singleton.mpr (settled_arr (List.forall_mem_singleton.mpr ?_))
    refine settled_object ?_
    rw [Shim.chatCall, List.forall_mem_cons, List.forall_mem_cons, List.forall_mem_cons,
      List.forall_mem_singleton]
    refine ⟨settled_num _ _, settled_str _ _, settled_str _ _, settled_object ?_⟩
    rw [List.forall_mem_cons, List.forall_mem_singleton]
    exact ⟨settled_str 0 _, settled_str 0 _⟩
  | finish finishReason usage =>
    cases h
    refine ⟨⟨_, rfl⟩, hchunk (settled_object (List.forall_mem_nil _)) (settled_str _ _) ?_⟩
    refine List.forall_mem_singleton.mpr (settled_object ?_)
    rw [List.forall_mem_cons, List.forall_mem_cons, List.forall_mem_singleton]
    exact ⟨settled_num _ _, settled_num _ _, settled_num _ _⟩
  | error code message =>
    cases h
    refine ⟨⟨_, rfl⟩, settled_object (List.forall_mem_singleton.mpr (settled_object ?_))⟩
    rw [List.forall_mem_cons, List.forall_mem_singleton]
    exact ⟨settled_str _ _, settled_str _ _⟩
  | done => cases h

/-- There is no cancel, and the transfer goes well. -/
structure Calm (g : Generation D F J) : Prop where
  quiet : ∀ n, g.cancelled n = false
  well : ∀ transfer, g.transfer = some transfer → transfer.success = true

section Lines

variable {g : Generation D F J} {id model : Text}

theorem lineStep_none (hcalm : Calm g) (s : Generating) {line : Text}
    (h : payloadOf line = none) :
    lineStep g s line = ([], .go { s with looked := s.looked + 1 }) := by
  simp only [lineStep, hcalm.quiet, Bool.false_eq_true, if_false, h]

theorem lineStep_json (hcalm : Calm g) (hfloats : g.floats.Lawful) (s : Generating)
    {data : ChatData} {v : Value D} (h : data.json id model = some v) :
    lineStep g s (dataMark ++ write g.floats v ++ ['\n']) =
      ((chunkStep g { s with looked := s.looked + 1 } v).1,
        .go (chunkStep g { s with looked := s.looked + 1 } v).2) := by
  obtain ⟨⟨members, rfl⟩, hsettled⟩ := json_object h
  have hread := hsettled.read hfloats (by decide)
  obtain ⟨inner, hinner⟩ := write_object g.floats members
  have hmark : write g.floats (object members) ≠ "[DONE]".toList := by
    rw [hinner]
    intro heq
    exact absurd (List.head_eq_of_cons_eq heq) (by decide)
  have hsome : write g.floats (object members) ≠ [] := by
    rw [hinner]
    exact List.cons_ne_nil _ _
  simp only [lineStep, hcalm.quiet, Bool.false_eq_true, if_false, payloadOf_object, if_neg hmark,
    if_neg hsome, hread]

theorem lineStep_mark (hcalm : Calm g) (s : Generating) :
    lineStep g s (dataMark ++ doneMark ++ ['\n']) =
      ([], .break { s with looked := s.looked + 1, stopped := true }) := by
  have hpayload : payloadOf (dataMark ++ doneMark ++ ['\n']) = some "[DONE]".toList := by
    rw [List.append_assoc, payloadOf_data]
    decide
  simp only [lineStep, hcalm.quiet, Bool.false_eq_true, if_false, hpayload, if_true]

end Lines

/-! ### A turn -/

/-- The text of an event, unless it is empty. -/
def pieceIn : Event F' → List Text
  | .token tok _ => if tok = [] then [] else [tok]
  | _ => []

def piecesOf (events : List (Event F')) : List Text := events.flatMap pieceIn

/-- What the daemon in front is told while the turn lasts. -/
def toldOf (g : Generation D F J) (pieces : List Text) : List (BackendEvent F) :=
  if g.tools.isEmpty then pieces.map fun tok => .token g.reqId tok none else []

/-- The state after some of a turn. -/
def taken (s : Generating) (events : List (Event F')) (looked : Nat) : Generating :=
  { s with
    emitted := s.emitted + .ofNat (piecesOf events).length
    collected := s.collected ++ singlesOf events
    looked }

@[simp] theorem toldOf_nil (g : Generation D F J) : toldOf g [] = [] := by
  unfold toldOf
  split <;> rfl

theorem toldOf_append (g : Generation D F J) (l r : List Text) :
    toldOf g (l ++ r) = toldOf g l ++ toldOf g r := by
  unfold toldOf
  split
  · exact List.map_append
  · rfl

/-- A notice is one line. -/
def Spoken : Event F' → Prop
  | .notice event detail => '\n' ∉ event ∧ '\n' ∉ detail
  | _ => True

theorem oneLine_sseStep (event : Event F') (h : Spoken event) :
    ∀ s ∈ (sseStep event).1, OneLine s := by
  cases event with
  | notice name detail => exact List.forall_mem_singleton.mpr h
  | token tok logprobs => exact List.forall_mem_singleton.mpr trivial
  | toolCall call => exact List.forall_mem_singleton.mpr trivial
  | done isDone usage finish =>
    rw [sseStep, List.forall_mem_cons, List.forall_mem_singleton]
    exact ⟨trivial, trivial⟩
  | error error =>
    rw [sseStep, List.forall_mem_cons, List.forall_mem_singleton]
    exact ⟨trivial, trivial⟩
  | hello | toolCalls | media | vectors | tokens => exact List.forall_mem_nil _

section Runs

variable {g : Generation D F J} (id model : Text)

/-- The lines of an event. -/
def linesOf (floats : Floats D) (id model : Text) (event : Event F') : List Text :=
  (sseStep event).1.flatMap (sentLines floats id model)

theorem payloadOf_blank : payloadOf ['\n'] = none := rfl

theorem payloadOf_comment (event detail : Text) :
    payloadOf (": ".toList ++ event ++ ' ' :: (detail ++ ['\n'])) = none := rfl

/-- The loop goes past a line of JSON and the empty line behind it. -/
theorem goes_json (hcalm : Calm g) (hfloats : g.floats.Lawful) (s : Generating)
    (data : ChatData) {v : Value D} (h : data.json id model = some v) :
    (generateLoop g).goes s (sentLines g.floats id model (.event data)) =
      let later := chunkStep g { s with looked := s.looked + 1 } v
      some (later.1, { later.2 with looked := later.2.looked + 1 }) := by
  have hlines : sentLines g.floats id model (.event data) =
      [dataMark ++ write g.floats v ++ ['\n'], ['\n']] := by
    rw [sentLines, h]
    rfl
  rw [hlines]
  simp only [Loop.goes, generateLoop, lineStep_json hcalm hfloats s h,
    lineStep_none hcalm _ payloadOf_blank, Option.map_some, List.nil_append, List.append_nil]

/-- What the loop makes of an event that does not end the turn. -/
theorem goes_event (hcalm : Calm g) (hfloats : g.floats.Lawful) (s : Generating)
    {event : Event F'} (h : ends event = false) :
    ∃ looked, (generateLoop g).goes s (linesOf g.floats id model event) =
      some (toldOf g (pieceIn event), taken s [event] looked) := by
  cases event with
  | done | error => cases h
  | token tok logprobs =>
    have hgoes := goes_json id model hcalm hfloats s
      (.content tok) rfl
    rw [chunkStep_content] at hgoes
    refine ⟨s.looked + 1 + 1, ?_⟩
    rw [linesOf, sseStep, List.flatMap_singleton, hgoes]
    by_cases hempty : tok = []
    · simp [hempty, sentFor, pieceIn, taken, piecesOf, singlesOf, Shim.singleIn]
    · simp [hempty, sentFor, pieceIn, toldOf, taken, piecesOf, singlesOf, Shim.singleIn]
  | toolCall call =>
    have hgoes := goes_json id model hcalm hfloats s
      (.toolCall 0 call) rfl
    rw [chunkStep_toolCall] at hgoes
    refine ⟨s.looked + 1 + 1, ?_⟩
    rw [linesOf, sseStep, List.flatMap_singleton, hgoes]
    simp [pieceIn, taken, piecesOf, singlesOf, Shim.singleIn]
  | notice name detail =>
    refine ⟨s.looked + 1 + 1, ?_⟩
    rw [linesOf, sseStep, List.flatMap_singleton, sentLines]
    simp only [Loop.goes, generateLoop, lineStep_none hcalm _ (payloadOf_comment name detail),
      lineStep_none hcalm _ payloadOf_blank]
    simp [pieceIn, taken, piecesOf, singlesOf, Shim.singleIn]
  | hello | toolCalls | media | vectors | tokens =>
    refine ⟨s.looked, ?_⟩
    simp [linesOf, sseStep, Loop.goes, pieceIn, taken, piecesOf, singlesOf,
      Shim.singleIn]

/-- What it makes of all that is said before the end. -/
theorem run_events (hcalm : Calm g) (hfloats : g.floats.Lawful) (s : Generating)
    {events : List (Event F')} (h : ∀ event ∈ events, ends event = false)
    (rest : List Text) :
    ∃ looked, (generateLoop g).run s (events.flatMap (linesOf g.floats id model) ++ rest) .closed =
      let later := (generateLoop g).run (taken s events looked) rest .closed
      (toldOf g (piecesOf events) ++ later.1, later.2) := by
  induction events generalizing s with
  | nil =>
    refine ⟨s.looked, ?_⟩
    have hsame : taken s ([] : List (Event F')) s.looked = s := by
      simp [taken, piecesOf, singlesOf]
    rw [hsame]
    simp [piecesOf]
  | cons event events ih =>
    rw [List.forall_mem_cons] at h
    obtain ⟨looked, hgoes⟩ := goes_event id model hcalm hfloats s h.1
    obtain ⟨looked', hrun⟩ := ih (taken s [event] looked) h.2
    have hthen : taken (taken s [event] looked) events looked' =
        taken s (event :: events) looked' := by
      simp [taken, piecesOf, singlesOf, UInt64.add_assoc]
    refine ⟨looked', ?_⟩
    rw [List.flatMap_cons, List.append_assoc, Loop.run_append hgoes, hrun, hthen]
    simp [piecesOf, toldOf_append]

/-- How a session ends. -/
inductive Close (F : Type) where
  | done (isDone : Bool) (usage : Usage) (finish : Option Text) (behind : Shim.Session F)
  | error (body : ErrorBody) (behind : Shim.Session F)
  | dies (ending : Ending Text)

/-- A session that says this and then ends. -/
def Close.session (said : List (Event F')) : Close F' → Shim.Session F'
  | .done isDone usage finish behind =>
    ⟨said ++ .done isDone usage finish :: behind.events, behind.ending⟩
  | .error body behind => ⟨said ++ .error body :: behind.events, behind.ending⟩
  | .dies ending => ⟨said, ending⟩

/-- The last that the stream sends. -/
def Close.sent : Close F' → List (Sent ChatData)
  | .done isDone usage finish _ => (sseStep (.done isDone usage finish : Event F')).1
  | .error body _ => (sseStep (.error body : Event F')).1
  | .dies _ => []

/-- The tokens of the prompt, and the finish reason if any. -/
def Close.heard : Close F' → UInt64 × Option Text
  | .done _ usage finish _ => (usage.promptTokens, some (finish.getD "stop".toList))
  | .error _ _ | .dies _ => (0, none)

theorem relaySse_sent {said : List (Event F')} (h : ∀ event ∈ said, ends event = false)
    (close : Close F') :
    (relaySse (close.session said)).sent =
      .head :: (said.flatMap fun event => (sseStep event).1) ++ close.sent := by
  have hgoes := Shim.sse_goes h
  cases close with
  | done isDone usage finish behind =>
    have hrun := Loop.run_append hgoes (.done isDone usage finish :: behind.events) behind.ending
    rw [relaySse, Close.session, hrun]
    rfl
  | error body behind =>
    have hrun := Loop.run_append hgoes (.error body :: behind.events) behind.ending
    rw [relaySse, Close.session, hrun]
    rfl
  | dies ending =>
    have hrun := Loop.run_of_goes hgoes ending
    rw [relaySse, Close.session, hrun]
    cases ending <;> rfl

/-- The end of the lines. -/
theorem run_close (hcalm : Calm g) (hfloats : g.floats.Lawful) (s : Generating)
    (hprompt : s.promptTokens = 0) (hfinish : s.finishReason = none) (close : Close F') :
    ∃ looked stopped, (generateLoop g).run s
        (close.sent.flatMap (sentLines g.floats id model)) .closed =
      ([], .broke { s with
        promptTokens := close.heard.1
        finishReason := close.heard.2
        looked
        stopped }) := by
  have hmark : ∀ t : Generating, (generateLoop g).run t
      (sentLines g.floats id model (.event .done)) .closed =
        ([], .broke { t with looked := t.looked + 1, stopped := true }) :=
    fun t => Loop.run_break (lineStep_mark hcalm t) [['\n']] .closed
  cases close with
  | done isDone usage finish behind =>
    have hgoes := goes_json id model hcalm hfloats s
      (.finish (finish.getD "stop".toList) usage) rfl
    rw [chunkStep_finish] at hgoes
    refine ⟨s.looked + 1 + 1 + 1, true, ?_⟩
    rw [Close.sent, sseStep, List.flatMap_cons, List.flatMap_singleton, Loop.run_append hgoes,
      hmark]
    rfl
  | error body behind =>
    have hgoes := goes_json id model hcalm hfloats s
      (.error body.code body.message) rfl
    rw [chunkStep_error] at hgoes
    refine ⟨s.looked + 1 + 1 + 1, true, ?_⟩
    rw [Close.sent, sseStep, List.flatMap_cons, List.flatMap_singleton, Loop.run_append hgoes,
      hmark, Close.heard, ← hprompt, ← hfinish]
    rfl
  | dies ending =>
    refine ⟨s.looked, s.stopped, ?_⟩
    rw [Close.heard, ← hprompt, ← hfinish, Close.sent, List.flatMap_nil]
    rfl

end Runs

/-- After the loop of a calm request the flag makes no difference. -/
theorem lastEvents_atEnd {g : Generation D F J} (hcalm : Calm g) (s : Generating) :
    (lastEvents g (atEnd g s) : List (BackendEvent F)) = lastEvents g s := by
  unfold atEnd
  rw [hcalm.quiet]
  split <;> rfl

theorem failure_none {g : Generation D F J} (hcalm : Calm g) (s : Generating) :
    Remote.failure g s = none := by
  unfold Remote.failure
  cases htransfer : g.transfer with
  | none => rfl
  | some transfer => simp [hcalm.well transfer htransfer]

/-- **The reply gets across.** Whatever the daemon behind says in a turn and however the turn
    ends, the daemon in front is told the same text, but for empty pieces and unless it gave
    tools; then the same calls that came singly; and then that the turn is done, also where
    it failed or died. -/
theorem reply_across {g : Generation D F J} (hcalm : Calm g) (hfloats : g.floats.Lawful)
    (id model : Text) {said : List (Event F')} (hquiet : ∀ event ∈ said, ends event = false)
    (hspoken : ∀ event ∈ said, Spoken event) (close : Close F') :
    generate g (readLines (streamText g.floats id model (relaySse (close.session said)).sent))
        .closed =
      (toldOf g (piecesOf said) ++ callEvents g (singlesOf said) ++
        [.done g.reqId ⟨close.heard.1, .ofNat (piecesOf said).length, 0, 0⟩
          (some (if singlesOf said = [] then close.heard.2.getD "stop".toList
            else "tool_call".toList))], .ok ()) := by
  have hlast : ∀ s ∈ close.sent, OneLine s := by
    cases close with
    | done isDone usage finish behind => exact oneLine_sseStep (.done _ _ _) trivial
    | error body behind => exact oneLine_sseStep (.error body) trivial
    | dies ending => exact List.forall_mem_nil _
  have hlines : readLines (streamText g.floats id model (relaySse (close.session said)).sent) =
      said.flatMap (linesOf g.floats id model) ++
        close.sent.flatMap (sentLines g.floats id model) := by
    rw [relaySse_sent hquiet, readLines_sent hfloats]
    · simp only [List.cons_append, List.flatMap_cons, List.flatMap_append, List.flatMap_assoc]
      rfl
    · rw [List.cons_append, List.forall_mem_cons, List.forall_mem_append,
        List.forall_mem_flatMap]
      exact ⟨trivial, fun event hevent => oneLine_sseStep event (hspoken event hevent), hlast⟩
  obtain ⟨looked, hrun⟩ := run_events id model hcalm hfloats .new hquiet
    (close.sent.flatMap (sentLines g.floats id model))
  obtain ⟨looked', stopped, hclose⟩ := run_close id model hcalm hfloats
    (taken .new said looked) rfl rfl close
  rw [hclose] at hrun
  rw [hlines, generate, hrun]
  simp only [failure_none hcalm, lastEvents_atEnd hcalm]
  have hemitted : (taken .new said looked).emitted = .ofNat (piecesOf said).length :=
    UInt64.zero_add _
  have hcollected : (taken .new said looked).collected = singlesOf said :=
    List.nil_append _
  simp only [lastEvents, hemitted, hcollected, List.append_nil, List.append_assoc]
  by_cases hsingles : singlesOf said = []
  · rw [if_pos hsingles, if_pos hsingles]
  · rw [if_neg hsingles, if_neg hsingles, Option.getD_some]

/-- A request without tools. -/
def asking : Generation Empty Unit Unit :=
  ⟨Audit.noFloats, fun _ => (), 7, [], true, [], fun _ => false, some ⟨true, []⟩⟩

/-- A turn that has begun. -/
def begun : List (Event Unit) :=
  [.token "hi".toList none, .notice "evicted".toList [], .token [] none]

def refusal : Close Unit := .error ⟨"internal".toList, []⟩ ⟨[], .closed⟩

/-- The daemon behind fails, and the daemon in front is told that the turn is done. -/
theorem failed_across :
    (generate asking (readLines (streamText asking.floats [] []
      (relaySse (refusal.session begun)).sent)) .closed : List (BackendEvent Unit) × _) =
        ([.token 7 "hi".toList none, .done 7 ⟨0, 1, 0, 0⟩ (some "stop".toList)], .ok ()) :=
  reply_across ⟨fun _ => rfl, by rintro _ ⟨⟩; rfl⟩ Audit.noFloats_lawful [] []
    (by decide) (by simp [begun, Spoken]) refusal

end AiDaemon.Chained
