import AiDaemon.ConversationMessages

/-!
# What of a conversation is forwarded (`ai-daemon-shim`)

Chat completions passes over the tool calls of its entries, Messages moves the
results of a turn behind the rest of it, and Responses drops the ids of calls.
But for that, and for fields that are not the strings they should be, everything
a body says is in the messages of the forwarded `Generate`, once and in order
(`conversation_survives_iff`).
-/

namespace AiDaemon.Shim

open Fallible Proto

variable {F D : Type} {single : Json.Number D → F}

/-! ### Chat completions -/

theorem chatPart_pieces (part : Json.Value D) (walk walk' : Walk D)
    (h : chatPart part walk = .ok walk') :
    walk'.pieces = walk.pieces ++ if strAt "type" part ∈ chatKinds then textPart part else [] := by
  rw [chatPart] at h
  simp only [chatKinds, List.mem_singleton]
  split at h
  case isTrue htext =>
    obtain rfl := Except.ok.inj h
    rw [if_pos htext]
    rfl
  case isFalse htext =>
    rw [if_neg htext, List.append_nil]
    split at h
    · -- an image adds no text
      obtain ⟨bytes, _, hattach⟩ := bind_eq_ok.mp h
      obtain rfl := Except.ok.inj hattach
      rfl
    · obtain rfl := Except.ok.inj h
      rfl

theorem readContent_chat {content : Option (Json.Value D)} {pictures : List Picture}
    {walk : Walk D} (h : readContent chatPart content (.start pictures) = .ok walk) :
    walk.pieces.flatMap Piece.texts = contentTexts asString chatKinds content ∧
      walk.pieces.flatMap Piece.carries = sayTexts (contentTexts asString chatKinds content) := by
  rcases content with _ | ⟨_ | b | n | s | parts | members⟩
  case some.arr =>
    have hpieces := readParts_adds Walk.pieces _ chatPart_pieces h
    have hfilter := Flattening.flatMap_filter textPart
      (fun part => decide (strAt "type" part ∈ chatKinds)) parts
    simp only [decide_eq_true_eq] at hfilter
    rw [hpieces, ← hfilter]
    exact ⟨texts_textParts _, carries_textParts _⟩
  case some.str =>
    obtain rfl := Except.ok.inj h
    exact ⟨List.append_nil _, List.append_nil _⟩
  all_goals
    obtain rfl := Except.ok.inj h
    exact ⟨rfl, rfl⟩

theorem chatEntry_carries (entry : Json.Value D) (pictures : List Picture)
    (out : List (Draft D) × List Picture) (h : chatEntry entry pictures = .ok out) :
    out.1.flatMap Draft.carries = chatTurn asString entry := by
  rw [chatEntry] at h
  obtain ⟨walk, hread, hout⟩ := bind_eq_ok.mp h
  obtain rfl := Except.ok.inj hout
  obtain ⟨htexts, hcarries⟩ := readContent_chat hread
  refine (List.append_nil _).trans ?_
  exact Draft.carries_answering rfl hcarries htexts

/-- Nothing of an entry is lost. -/
structure EntryIntact (entry : Json.Value D) : Prop where
  callsNothing : (listAt "tool_calls" entry).getD [] = []
  callId : plain (entry.get "tool_call_id".toList) = true
  content : ContentPlain chatKinds (entry.get "content".toList)

@[simp] theorem results_earlierCalls (entry : Json.Value D) :
    (earlierCalls entry).filter Saying.isResult = [] := by
  rw [earlierCalls, List.filter_eq_nil_iff]
  intro s hs
  obtain ⟨call, _, rfl⟩ := List.mem_map.mp hs
  exact Bool.false_ne_true

theorem length_chatTurn_le {entry : Json.Value D}
    (hid : plain (entry.get "tool_call_id".toList) = true) :
    (chatTurn asString entry).length ≤ (chatTurn id entry ++ earlierCalls entry).length := by
  rw [List.length_append, chatTurn, chatTurn, answering_asString hid]
  exact (length_answering_le _ (length_contentTexts_asString_le _ _)).trans (Nat.le_add_right _ _)

theorem chatTurn_eq_iff {entry : Json.Value D}
    (hid : plain (entry.get "tool_call_id".toList) = true) :
    chatTurn asString entry = chatTurn id entry ++ earlierCalls entry ↔ EntryIntact entry := by
  have hle : (chatTurn asString entry).length ≤ (chatTurn id entry).length := by
    rw [chatTurn, chatTurn, answering_asString hid]
    exact length_answering_le _ (length_contentTexts_asString_le _ _)
  rw [← List.append_nil (chatTurn asString entry),
    Flattening.append_eq_append_iff_of_length_le hle (Nat.zero_le _), chatTurn, chatTurn,
    answering_asString hid, id, answering_inj, contentTexts_asString_iff, earlierCalls,
    eq_comm (a := []), List.map_eq_nil_iff]
  exact ⟨fun ⟨hcontent, hcalls⟩ => ⟨hcalls, hid, hcontent⟩,
    fun h => ⟨h.content, h.callsNothing⟩⟩

theorem chat_survives_iff {body : Json.Value D} {prompt : Prompt F D}
    (h : chatBody single body = .ok prompt) :
    prompt.carries = chatSaid body ↔ ∀ entry ∈ entriesOf body, EntryIntact entry := by
  have hcarries : prompt.carries = (entriesOf body).flatMap (chatTurn asString) := by
    rw [chatBody] at h
    obtain ⟨out, hread, hprompt⟩ := bind_eq_ok.mp h
    obtain rfl := Except.ok.inj hprompt
    exact readEntries_adds Draft.carries _ chatEntry_carries hread
  rw [hcarries, chatSaid]
  constructor
  · intro heq
    -- the answers alone tell which entries name a call that can be read
    have hresults := Flattening.filter_eq_of_flatMap_eq Saying.isResult (fun entry _ => by
      rw [List.filter_append, List.length_append]
      exact (results_answering_asString_le _ _ _).trans (Nat.le_add_right _ _)) heq
    have hplain : ∀ entry ∈ entriesOf body, plain (entry.get "tool_call_id".toList) = true := by
      intro entry hentry
      have hentries := hresults entry hentry
      rw [List.filter_append, results_earlierCalls, List.append_nil] at hentries
      exact plain_of_results hentries
    rw [Flattening.flatMap_eq_flatMap_iff fun entry hentry =>
      length_chatTurn_le (hplain entry hentry)] at heq
    exact fun entry hentry => (chatTurn_eq_iff (hplain entry hentry)).mp (heq entry hentry)
  · intro hintact
    refine List.flatMap_congr fun entry hentry => ?_
    exact (chatTurn_eq_iff (hintact entry hentry).callId).mpr (hintact entry hentry)

/-! ### Responses -/

theorem outputContent_carries (output : Option (Json.Value D)) :
    (outputContent output).texts = textsOf output ∧
      (outputContent output).carries = sayTexts (textsOf output) := by
  rcases output with _ | ⟨_ | b | n | s | items | members⟩
  case some.str => exact ⟨List.append_nil _, List.append_nil _⟩
  all_goals exact ⟨rfl, rfl⟩

theorem responsesText_carries (content : Option (Json.Value D)) :
    (responsesText content).flatMap Piece.carries =
      sayTexts (contentTexts asString responsesKinds content) := by
  rcases content with _ | ⟨_ | b | n | s | parts | members⟩
  case some.arr => exact carries_textParts _
  case some.str => exact List.append_nil _
  all_goals rfl

/-- A call is carried without its id. -/
theorem responsesItem_carries (item : Json.Value D) :
    (responsesItem item).carries = itemSaid asString (fun _ => .null) item := by
  rw [responsesItem, itemSaid]
  split
  · obtain ⟨htexts, hcarries⟩ := outputContent_carries (item.get "output".toList)
    exact Draft.carries_answering rfl hcarries htexts
  split
  · rw [← given_strAt, ← given_strAt]
    rfl
  · exact responsesText_carries _

/-- Nothing of an item is lost. -/
def ItemIntact (item : Json.Value D) : Prop :=
  if strAt "type" item = some "function_call_output".toList then
    plain (item.get "call_id".toList) = true
  else if strAt "type" item = some "function_call".toList then
    callId item = .null ∧ plain (item.get "name".toList) = true ∧
      plain (item.get "arguments".toList) = true
  else ContentPlain responsesKinds (item.get "content".toList)

theorem answering_asString_iff {v : Option (Json.Value D)} {texts : List (Json.Value D)} :
    answering (asString v) texts = answering v texts ↔ plain v = true := by
  refine ⟨fun h => ?_, fun h => answering_asString h texts⟩
  exact plain_of_results (congrArg (List.filter Saying.isResult) h)

theorem itemSaid_asString_iff (item : Json.Value D) :
    itemSaid asString (fun _ => .null) item = itemSaid id callId item ↔ ItemIntact item := by
  rw [itemSaid, itemSaid, ItemIntact]
  split
  · exact answering_asString_iff
  split
  · simp only [List.cons.injEq, and_true, Saying.call.injEq, id, given_asString_iff,
      eq_comm (a := Json.Value.null)]
  · rw [sayTexts_inj, contentTexts_asString_iff]

theorem length_itemSaid_asString_le (item : Json.Value D) :
    (itemSaid asString (fun _ => .null) item).length ≤ (itemSaid id callId item).length := by
  rw [itemSaid, itemSaid]
  split
  · exact length_answering_asString_le (length_textsOf_le_one _)
  split
  · exact le_rfl
  · rw [length_sayTexts, length_sayTexts]
    exact length_contentTexts_asString_le _ _

def InputIntact : Option (Json.Value D) → Prop
  | some (.arr items) => ∀ item ∈ items, ItemIntact item
  | _ => True

theorem inputDrafts_carries {input : Option (Json.Value D)} {drafts : List (Draft D)}
    (h : inputDrafts input = .ok drafts) :
    (drafts.flatMap Draft.carries).length ≤ (inputSaid input).length ∧
      (drafts.flatMap Draft.carries = inputSaid input ↔ InputIntact input) := by
  rcases input with _ | ⟨_ | b | n | s | items | members⟩
  case some.str =>
    obtain rfl := Except.ok.inj h
    have hsame : [textDraft "user" [Piece.text s]].flatMap Draft.carries =
        inputSaid (some (.str s : Json.Value D)) := (List.append_nil _).trans (List.append_nil _)
    exact ⟨(congrArg List.length hsame).le, iff_of_true hsame trivial⟩
  case some.arr =>
    obtain rfl := Except.ok.inj h
    have hle : ∀ item ∈ items, (itemSaid asString (fun _ => .null) item).length ≤
        (itemSaid id callId item).length := fun item _ => length_itemSaid_asString_le item
    simp only [List.flatMap_map, responsesItem_carries, inputSaid]
    refine ⟨Flattening.length_flatMap_le hle, ?_⟩
    rw [Flattening.flatMap_eq_flatMap_iff hle]
    simp only [itemSaid_asString_iff, InputIntact]
  all_goals contradiction

theorem instructionDrafts_carries (body : Json.Value D) :
    (instructionDrafts body).flatMap Draft.carries =
      sayTexts (textsOf (asString (body.get "instructions".toList))) := by
  rw [instructionDrafts, strAt, asString]
  rcases (body.get "instructions".toList).bind Json.Value.asStr with _ | ⟨_ | ⟨c, s⟩⟩ <;> rfl

theorem responses_survives_iff {body : Json.Value D} {turn : BodyTurn F D}
    (h : parseResponsesBody single body = .ok turn) :
    turn.carries = responsesSaid body ↔
      plain (body.get "instructions".toList) = true ∧ InputIntact (body.get "input".toList) := by
  rw [parseResponsesBody] at h
  obtain ⟨drafts, hinput, hturn⟩ := bind_eq_ok.mp h
  obtain ⟨hle, hiff⟩ := inputDrafts_carries hinput
  have hcarries : turn.carries =
      sayTexts (textsOf (asString (body.get "instructions".toList))) ++
        drafts.flatMap Draft.carries := by
    dsimp only at hturn
    split at hturn
    · contradiction
    obtain rfl := Except.ok.inj hturn
    rw [Prompt.carries, List.flatMap_append, instructionDrafts_carries]
  have hinstructions : (sayTexts (textsOf (asString (body.get "instructions".toList)))).length ≤
      (sayTexts (textsOf (body.get "instructions".toList))).length := by
    rw [length_sayTexts, length_sayTexts]
    exact length_textsOf_asString_le _
  rw [hcarries, responsesSaid, Flattening.append_eq_append_iff_of_length_le hinstructions hle,
    sayTexts_inj, textsOf_asString_iff, hiff]

/-! ### All three -/

/-- No entry has tool calls, and all that is read is a string. -/
def ChatIntact (body : Json.Value D) : Prop := ∀ entry ∈ entriesOf body, EntryIntact entry

/-- No turn has a result before a text or a call. -/
def MessagesIntact (body : Json.Value D) : Prop :=
  SystemPlain (body.get "system".toList) ∧
    ∀ entry ∈ entriesOf body, TurnIntact (entry.get "content".toList)

/-- No call has an id. -/
def ResponsesIntact (body : Json.Value D) : Prop :=
  plain (body.get "instructions".toList) = true ∧ InputIntact (body.get "input".toList)

def noFloats : Json.Floats Unit := ⟨fun _ => none, fun _ => []⟩

def chatReplay : Json.Value Unit :=
  .obj [("messages".toList, .arr [.obj [("content".toList, string "Looking."),
    ("role".toList, string "assistant"),
    ("tool_calls".toList, .arr [.obj [
      ("function".toList, .obj [("arguments".toList, string "\x7b\x7d"),
        ("name".toList, string "lookup")]),
      ("id".toList, string "call_1")]])]])]

def messagesReplay : Json.Value Unit :=
  .obj [("max_tokens".toList, .num (.posInt 64)),
    ("messages".toList, .arr [.obj [("content".toList, .arr [
      .obj [("content".toList, string "12"), ("tool_use_id".toList, string "toolu_1"),
        ("type".toList, string "tool_result")],
      .obj [("text".toList, string "Go on."), ("type".toList, string "text")]]),
      ("role".toList, string "user")]])]

def responsesReplay : Json.Value Unit :=
  .obj [("input".toList, .arr [.obj [("arguments".toList, string "\x7b\x7d"),
      ("call_id".toList, string "call_1"), ("name".toList, string "lookup"),
      ("type".toList, string "function_call")]])]

end AiDaemon.Shim
