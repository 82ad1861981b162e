import AiDaemon.Conversation

/-!
# The conversation of a Messages body (`ai-daemon-shim`: `parse_messages_body`)

A turn becomes one message with its texts and calls, and behind it one message
for each of its tool results.  So a turn is kept as it was when no result of it
stands before a text or a call (`BlocksInOrder`).
-/

namespace AiDaemon.Shim

open Fallible Proto

variable {F D : Type} {floats : Json.Floats D} {debug : Text → Text}
  {single : Json.Number D → F}

/-- A part that renders as nothing has nothing to say. -/
theorem Piece.carries_of_render_nil {piece : Piece D} (h : piece.render floats = []) :
    piece.carries = [] := by
  cases piece with
  | text s =>
    obtain rfl : s = [] := h
    rfl
  | newline => contradiction
  | toolCall id name input => exact absurd (List.append_eq_nil_iff.mp h).2 (by decide)
  | invocation name args => exact absurd (List.append_eq_nil_iff.mp h).2 (by decide)

theorem carries_of_renderAll_nil {pieces : List (Piece D)} (h : renderAll floats pieces = []) :
    pieces.flatMap Piece.carries = [] := by
  rw [renderAll, List.flatMap_eq_nil_iff] at h
  rw [List.flatMap_eq_nil_iff]
  exact fun piece hpiece => Piece.carries_of_render_nil (h piece hpiece)

theorem blockTexts_pieces (blocks : List (Json.Value D)) :
    (blockTexts blocks).map Piece.text = blocks.flatMap (textPart : _ → List (Piece D)) := by
  rw [blockTexts, List.filterMap_eq_flatMap_toList, List.map_flatMap]
  refine List.flatMap_congr fun block _ => ?_
  rw [textPart]
  cases strAt "text" block <;> rfl

theorem texts_joined (blocks : List (Json.Value D)) :
    (joined (blockTexts blocks)).flatMap Piece.texts = partTexts asString blocks := by
  rw [joined, Flattening.flatMap_intersperse rfl, blockTexts_pieces, texts_textParts]

theorem carries_joined (blocks : List (Json.Value D)) :
    (joined (blockTexts blocks)).flatMap Piece.carries = sayTexts (partTexts asString blocks) := by
  rw [joined, Flattening.flatMap_intersperse rfl, blockTexts_pieces, carries_textParts]

theorem systemDrafts_carries (system : Option (Json.Value D)) :
    (systemDrafts floats system).flatMap Draft.carries =
      sayTexts (systemTexts asString system) := by
  rcases system with _ | ⟨_ | b | n | s | blocks | members⟩
  case some.str =>
    rcases s with _ | ⟨c, s⟩ <;> rfl
  case some.arr =>
    simp only [systemDrafts, systemTexts]
    rw [← carries_joined]
    split
    · exact List.append_nil _
    · rename_i hempty
      rw [carries_of_renderAll_nil (not_not.mp hempty)]
      rfl
  all_goals rfl

theorem texts_resultContent (content : Option (Json.Value D)) :
    (resultContent content).texts = resultTexts asString content := by
  rcases content with _ | ⟨_ | b | n | s | blocks | members⟩
  case some.arr => exact texts_joined blocks
  case some.str => exact List.append_nil _
  all_goals rfl

theorem resultDraft_carries (part : Json.Value D) :
    (resultDraft part).carries = [.result (given (asString (part.get "tool_use_id".toList)))
      (resultTexts asString (part.get "content".toList))] := by
  rw [Draft.carries, resultDraft]
  simp only [given_strAt, texts_resultContent]

theorem toolUse_carries (part : Json.Value D) :
    (toolUse part).carries = [.call (given (asString (part.get "id".toList)))
      (given (asString (part.get "name".toList)))
      (given (some ((part.get "input".toList).getD (.obj []))))] := by
  rw [toolUse, Piece.carries, given_strAt, given_strAt]

/-! What a block says, by its type. -/

theorem blockSaid_text (field : Option (Json.Value D) → Option (Json.Value D))
    {part : Json.Value D} (h : strAt "type" part = some "text".toList) :
    blockSaid field part = sayTexts (textsOf (field (part.get "text".toList))) := by
  rw [blockSaid, if_pos h]

theorem blockSaid_result (field : Option (Json.Value D) → Option (Json.Value D))
    {part : Json.Value D} (h : strAt "type" part = some "tool_result".toList) :
    blockSaid field part = [.result (given (field (part.get "tool_use_id".toList)))
      (resultTexts field (part.get "content".toList))] := by
  rw [blockSaid, h, if_neg (by decide), if_pos rfl]

theorem blockSaid_toolUse (field : Option (Json.Value D) → Option (Json.Value D))
    {part : Json.Value D} (h : strAt "type" part = some "tool_use".toList) :
    blockSaid field part = [.call (given (field (part.get "id".toList)))
      (given (field (part.get "name".toList)))
      (given (some ((part.get "input".toList).getD (.obj []))))] := by
  rw [blockSaid, h, if_neg (by decide), if_neg (by decide), if_pos rfl]

theorem blockSaid_other (field : Option (Json.Value D) → Option (Json.Value D))
    {part : Json.Value D} (htext : strAt "type" part ≠ some "text".toList)
    (hresult : strAt "type" part ≠ some "tool_result".toList)
    (huse : strAt "type" part ≠ some "tool_use".toList) : blockSaid field part = [] := by
  rw [blockSaid, if_neg htext, if_neg hresult, if_neg huse]

/-- What a block adds to the turn, and to its results. -/
theorem messagesPart_carries (part : Json.Value D) (walk walk' : Walk D)
    (h : messagesPart floats debug part walk = .ok walk') :
    walk'.pieces.flatMap Piece.carries = walk.pieces.flatMap Piece.carries ++
        (blockSaid asString part).filter (fun s => !s.isResult) ∧
      walk'.toolResults.flatMap Draft.carries = walk.toolResults.flatMap Draft.carries ++
        (blockSaid asString part).filter Saying.isResult := by
  rw [messagesPart] at h
  split at h
  case isTrue htext =>
    obtain rfl := Except.ok.inj h
    rw [blockSaid_text asString htext, others_sayTexts, results_sayTexts, List.append_nil]
    refine ⟨?_, rfl⟩
    rw [← carries_textPart]
    exact List.flatMap_append
  split at h
  case isTrue _ himage =>
    obtain ⟨source, _, hattach⟩ := bind_eq_ok.mp h
    obtain rfl := Except.ok.inj hattach
    rw [blockSaid_other asString (by rw [himage]; decide) (by rw [himage]; decide)
      (by rw [himage]; decide)]
    exact ⟨(List.append_nil _).symm, (List.append_nil _).symm⟩
  split at h
  case isTrue _ _ hresult =>
    obtain rfl := Except.ok.inj h
    rw [blockSaid_result asString hresult, ← resultDraft_carries]
    refine ⟨?_, ?_⟩
    · rw [resultDraft_carries]
      exact (List.append_nil _).symm
    · rw [Walk.result, List.flatMap_append, List.flatMap_singleton]
      rw [resultDraft_carries]
      rfl
  split at h
  case isTrue _ _ _ huse =>
    obtain rfl := Except.ok.inj h
    rw [blockSaid_toolUse asString huse, ← toolUse_carries]
    refine ⟨?_, ?_⟩
    · rw [toolUse_carries, Walk.push, List.flatMap_append]
      split
      · rw [List.flatMap_cons, List.flatMap_singleton, toolUse_carries]
        rfl
      · rw [List.flatMap_singleton, toolUse_carries]
        rfl
    · rw [toolUse_carries]
      exact (List.append_nil _).symm
  case isFalse htext himage hresult huse =>
    obtain rfl := Except.ok.inj h
    rw [blockSaid_other asString htext hresult huse]
    exact ⟨(List.append_nil _).symm, (List.append_nil _).symm⟩

theorem turn_carries (role : Text) (walk : Walk D) :
    (walk.turn floats role).flatMap Draft.carries =
      walk.pieces.flatMap Piece.carries ++ walk.toolResults.flatMap Draft.carries := by
  rw [Walk.turn, List.flatMap_append]
  congr 1
  split
  · exact List.append_nil _
  · rename_i hempty
    rw [not_or, not_not] at hempty
    exact (carries_of_renderAll_nil hempty.1).symm

/-- What is read of content: its results come behind the rest. -/
def contentRead : Option (Json.Value D) → List (Saying D)
  | some (.str s) => sayTexts (textsOf (some (.str s)))
  | some (.arr parts) =>
    (parts.flatMap (blockSaid asString)).filter (fun s => !s.isResult) ++
      (parts.flatMap (blockSaid asString)).filter Saying.isResult
  | _ => []

theorem readContent_messages {content : Option (Json.Value D)} {pictures : List Picture}
    {walk : Walk D}
    (h : readContent (messagesPart floats debug) content (.start pictures) = .ok walk) :
    walk.pieces.flatMap Piece.carries ++ walk.toolResults.flatMap Draft.carries =
      contentRead content := by
  rcases content with _ | ⟨_ | b | n | s | parts | members⟩
  case some.arr =>
    have hpieces := readParts_adds (fun walk => walk.pieces.flatMap Piece.carries) _
      (fun part walk walk' h => (messagesPart_carries part walk walk' h).1) h
    have hresults := readParts_adds (fun walk => walk.toolResults.flatMap Draft.carries) _
      (fun part walk walk' h => (messagesPart_carries part walk walk' h).2) h
    rw [contentRead, List.filter_flatMap, List.filter_flatMap, hpieces, hresults]
    rfl
  case some.str =>
    obtain rfl := Except.ok.inj h
    exact (List.append_nil _).trans (List.append_nil _)
  all_goals
    obtain rfl := Except.ok.inj h
    rfl

theorem messagesEntry_carries (entry : Json.Value D) (pictures : List Picture)
    (out : List (Draft D) × List Picture)
    (h : messagesEntry floats debug entry pictures = .ok out) :
    out.1.flatMap Draft.carries = contentRead (entry.get "content".toList) := by
  rw [messagesEntry] at h
  obtain ⟨walk, hread, hout⟩ := bind_eq_ok.mp h
  obtain rfl := Except.ok.inj hout
  rw [turn_carries]
  exact readContent_messages hread

/-! ### Turns in order -/

def ResultPlain : Option (Json.Value D) → Prop
  | some (.arr blocks) => PartsPlain blocks
  | _ => True

/-- The fields of a block can be read. -/
def BlockPlain (part : Json.Value D) : Prop :=
  if strAt "type" part = some "text".toList then plain (part.get "text".toList) = true
  else if strAt "type" part = some "tool_result".toList then
    plain (part.get "tool_use_id".toList) = true ∧ ResultPlain (part.get "content".toList)
  else if strAt "type" part = some "tool_use".toList then
    plain (part.get "id".toList) = true ∧ plain (part.get "name".toList) = true
  else True

/-- The block goes into the turn itself. -/
def Speaks (part : Json.Value D) : Prop :=
  strAt "type" part = some "tool_use".toList ∨
    strAt "type" part = some "text".toList ∧ given (part.get "text".toList) ≠ .null

def Answers (part : Json.Value D) : Prop := strAt "type" part = some "tool_result".toList

theorem resultTexts_asString_iff (content : Option (Json.Value D)) :
    resultTexts asString content = resultTexts id content ↔ ResultPlain content := by
  rcases content with _ | ⟨_ | b | n | s | blocks | members⟩
  case some.arr => exact partTexts_asString_iff _
  all_goals simp [resultTexts, ResultPlain]

theorem blockSaid_asString_iff (part : Json.Value D) :
    blockSaid asString part = blockSaid id part ↔ BlockPlain part := by
  simp only [blockSaid, BlockPlain]
  split
  · rw [sayTexts_inj, id, textsOf_asString_iff]
  split
  · simp only [List.cons.injEq, and_true, Saying.result.injEq, resultTexts_asString_iff, id,
      given_asString_iff]
  split
  · simp only [List.cons.injEq, and_true, Saying.call.injEq, id, given_asString_iff]
  · simp only

theorem length_textsOf_le_one (v : Option (Json.Value D)) : (textsOf v).length ≤ 1 := by
  rw [textsOf]
  split <;> simp

theorem length_blockSaid_le_one (field : Option (Json.Value D) → Option (Json.Value D))
    (part : Json.Value D) : (blockSaid field part).length ≤ 1 := by
  rw [blockSaid]
  split
  · rw [length_sayTexts]
    exact length_textsOf_le_one _
  split
  · exact le_rfl
  split
  · exact le_rfl
  · exact Nat.zero_le 1

theorem length_blockSaid_asString_le (part : Json.Value D) :
    (blockSaid asString part).length ≤ (blockSaid id part).length := by
  simp only [blockSaid]
  split
  · rw [length_sayTexts, length_sayTexts]
    exact length_textsOf_asString_le _
  split
  · exact le_rfl
  split <;> exact le_rfl

/-! A block says things of one kind. -/

theorem filters_blockSaid_of_answers (field : Option (Json.Value D) → Option (Json.Value D))
    {part : Json.Value D} (h : Answers part) :
    (blockSaid field part).filter Saying.isResult = blockSaid field part ∧
      (blockSaid field part).filter (fun s => !s.isResult) = [] := by
  rw [blockSaid_result field h]
  exact ⟨rfl, rfl⟩

theorem filters_blockSaid_of_not_answers (field : Option (Json.Value D) → Option (Json.Value D))
    {part : Json.Value D} (h : ¬ Answers part) :
    (blockSaid field part).filter Saying.isResult = [] ∧
      (blockSaid field part).filter (fun s => !s.isResult) = blockSaid field part := by
  have hresult : strAt "type" part ≠ some "tool_result".toList := h
  rw [blockSaid, if_neg hresult]
  split
  · exact ⟨results_sayTexts _, others_sayTexts _⟩
  split <;> exact ⟨rfl, rfl⟩

theorem length_filters_blockSaid_le (part : Json.Value D) :
    ((blockSaid asString part).filter Saying.isResult).length ≤
        ((blockSaid id part).filter Saying.isResult).length ∧
      ((blockSaid asString part).filter (fun s => !s.isResult)).length ≤
        ((blockSaid id part).filter fun s => !s.isResult).length := by
  have hle := length_blockSaid_asString_le part
  by_cases hanswers : Answers part
  · obtain ⟨hresults, hothers⟩ := filters_blockSaid_of_answers asString hanswers
    obtain ⟨hresults', hothers'⟩ := filters_blockSaid_of_answers id hanswers
    rw [hresults, hothers, hresults', hothers']
    exact ⟨hle, le_rfl⟩
  · obtain ⟨hresults, hothers⟩ := filters_blockSaid_of_not_answers asString hanswers
    obtain ⟨hresults', hothers'⟩ := filters_blockSaid_of_not_answers id hanswers
    rw [hresults, hothers, hresults', hothers']
    exact ⟨le_rfl, hle⟩

theorem blockSaid_eq_of_filters {part : Json.Value D}
    (hresults : (blockSaid asString part).filter Saying.isResult =
      (blockSaid id part).filter Saying.isResult)
    (hothers : (blockSaid asString part).filter (fun s => !s.isResult) =
      (blockSaid id part).filter (fun s => !s.isResult)) :
    blockSaid asString part = blockSaid id part := by
  by_cases hanswers : Answers part
  · rw [← (filters_blockSaid_of_answers asString hanswers).1, hresults,
      (filters_blockSaid_of_answers id hanswers).1]
  · rw [← (filters_blockSaid_of_not_answers asString hanswers).2, hothers,
      (filters_blockSaid_of_not_answers id hanswers).2]

theorem textsOf_eq_nil_iff (v : Option (Json.Value D)) : textsOf v = [] ↔ given v = .null := by
  rw [textsOf]
  split
  · rename_i h
    simp [h]
  · rename_i h
    simpa using h

theorem forall_isResult_iff (part : Json.Value D) :
    (∀ s ∈ blockSaid id part, s.isResult = true) ↔ ¬ Speaks part := by
  by_cases htext : strAt "type" part = some "text".toList
  · have hno : strAt "type" part ≠ some "tool_use".toList := by rw [htext]; decide
    rw [blockSaid_text id htext, Speaks, or_iff_right hno, and_iff_right htext, not_not,
      ← textsOf_eq_nil_iff, id]
    constructor
    · intro h
      apply List.eq_nil_iff_forall_not_mem.mpr
      intro v hv
      exact absurd (h (.text v) (List.mem_map_of_mem hv)) Bool.false_ne_true
    · intro h s hs
      rw [h] at hs
      contradiction
  by_cases huse : strAt "type" part = some "tool_use".toList
  · rw [blockSaid_toolUse id huse]
    exact iff_of_false (fun h => Bool.false_ne_true (h _ (List.mem_singleton.mpr rfl)))
      (not_not_intro (Or.inl huse))
  · refine iff_of_true (fun s hs => ?_) fun h => h.elim huse fun ⟨h, _⟩ => htext h
    by_cases hanswers : Answers part
    · rw [← (filters_blockSaid_of_answers id hanswers).1] at hs
      exact (List.mem_filter.mp hs).2
    · rw [blockSaid_other id htext hanswers huse] at hs
      contradiction

/-- The answer of the one may stand before what the other has to say. -/
theorem results_before_iff (a b : Json.Value D) :
    (∀ s ∈ blockSaid id a, ∀ t ∈ blockSaid id b, s.isResult = true → t.isResult = true) ↔
      (Answers a → ¬ Speaks b) := by
  rw [← forall_isResult_iff]
  constructor
  · intro h hanswers t ht
    exact h _ (by rw [blockSaid_result id hanswers]; exact List.mem_singleton.mpr rfl) t ht rfl
  · intro h s hs t ht hresult
    by_cases hanswers : Answers a
    · exact h hanswers t ht
    · -- a block that is no result has none to say
      rw [← (filters_blockSaid_of_not_answers id hanswers).2] at hs
      simp [hresult] at hs

/-- The blocks can be read, and none that goes into the turn comes after a
    result. -/
structure BlocksInOrder (parts : List (Json.Value D)) : Prop where
  plain : ∀ part ∈ parts, BlockPlain part
  resultsLast : parts.Pairwise fun a b => Answers a → ¬ Speaks b

theorem pairwise_blocks_iff (parts : List (Json.Value D)) :
    ((parts.flatMap (blockSaid id)).Pairwise fun s t => s.isResult = true → t.isResult = true) ↔
      parts.Pairwise fun a b => Answers a → ¬ Speaks b := by
  have hsingle : ∀ part ∈ parts, (blockSaid id part).Pairwise
      fun s t => s.isResult = true → t.isResult = true := by
    intro part _
    rcases blockSaid id part, length_blockSaid_le_one id part with ⟨_ | ⟨s, _ | ⟨t, l⟩⟩, hle⟩
    · exact .nil
    · exact List.pairwise_singleton _ s
    · simp at hle
  rw [List.pairwise_flatMap, and_iff_right hsingle]
  simp only [results_before_iff]

theorem blocks_eq_iff (parts : List (Json.Value D)) :
    contentRead (some (.arr parts)) = contentSaid (some (.arr parts)) ↔ BlocksInOrder parts := by
  simp only [contentRead, contentSaid]
  constructor
  · intro h
    obtain ⟨hresults, hothers⟩ := Flattening.filter_eq_of_moved h
    simp only [List.filter_flatMap] at hresults hothers
    rw [Flattening.flatMap_eq_flatMap_iff fun part _ => (length_filters_blockSaid_le part).1]
      at hresults
    rw [Flattening.flatMap_eq_flatMap_iff fun part _ => (length_filters_blockSaid_le part).2]
      at hothers
    have hblocks : ∀ part ∈ parts, blockSaid asString part = blockSaid id part :=
      fun part hpart => blockSaid_eq_of_filters (hresults part hpart) (hothers part hpart)
    rw [List.flatMap_congr hblocks, Flattening.sorted_iff, pairwise_blocks_iff] at h
    exact ⟨fun part hpart => (blockSaid_asString_iff part).mp (hblocks part hpart), h⟩
  · intro h
    have heq : parts.flatMap (blockSaid asString) = parts.flatMap (blockSaid id) :=
      List.flatMap_congr fun part hpart => (blockSaid_asString_iff part).mpr (h.plain part hpart)
    rw [heq, Flattening.sorted_iff, pairwise_blocks_iff]
    exact h.resultsLast

/-- Nothing of a turn is lost, and nothing of it is moved. -/
def TurnIntact : Option (Json.Value D) → Prop
  | some (.arr parts) => BlocksInOrder parts
  | _ => True

theorem contentRead_iff (content : Option (Json.Value D)) :
    contentRead content = contentSaid content ↔ TurnIntact content := by
  rcases content with _ | ⟨_ | b | n | s | parts | members⟩
  case some.arr => exact blocks_eq_iff parts
  all_goals simp [contentRead, contentSaid, TurnIntact]

theorem length_contentRead_le (content : Option (Json.Value D)) :
    (contentRead content).length ≤ (contentSaid content).length := by
  rcases content with _ | ⟨_ | b | n | s | parts | members⟩
  case some.arr =>
    rw [contentRead, contentSaid, List.length_append, Nat.add_comm,
      ← List.length_eq_length_filter_add]
    exact Flattening.length_flatMap_le fun part _ => length_blockSaid_asString_le part
  all_goals exact le_rfl

def SystemPlain : Option (Json.Value D) → Prop
  | some (.arr blocks) => PartsPlain blocks
  | _ => True

theorem systemTexts_asString_iff (system : Option (Json.Value D)) :
    systemTexts asString system = systemTexts id system ↔ SystemPlain system := by
  rcases system with _ | ⟨_ | b | n | s | blocks | members⟩
  case some.arr => exact partTexts_asString_iff _
  all_goals simp [systemTexts, SystemPlain]

theorem length_systemTexts_asString_le (system : Option (Json.Value D)) :
    (systemTexts asString system).length ≤ (systemTexts id system).length := by
  rcases system with _ | ⟨_ | b | n | s | blocks | members⟩
  case some.arr => exact length_partTexts_asString_le _
  all_goals exact le_rfl

theorem messages_survives_iff {body : Json.Value D} {turn : BodyTurn F D}
    (h : parseMessagesBody floats debug single body = .ok turn) :
    turn.carries = messagesSaid body ↔
      SystemPlain (body.get "system".toList) ∧
        ∀ entry ∈ entriesOf body, TurnIntact (entry.get "content".toList) := by
  have hcarries : turn.carries = sayTexts (systemTexts asString (body.get "system".toList)) ++
      (entriesOf body).flatMap fun entry => contentRead (entry.get "content".toList) := by
    rw [parseMessagesBody] at h
    split at h
    · contradiction
    obtain ⟨out, hread, hturn⟩ := bind_eq_ok.mp h
    obtain rfl := Except.ok.inj hturn
    rw [Prompt.carries, List.flatMap_append, systemDrafts_carries,
      readEntries_adds Draft.carries _ messagesEntry_carries hread]
  have hsystem : (sayTexts (systemTexts asString (body.get "system".toList))).length ≤
      (sayTexts (systemTexts id (body.get "system".toList))).length := by
    rw [length_sayTexts, length_sayTexts]
    exact length_systemTexts_asString_le _
  have hentry : ∀ entry ∈ entriesOf body, (contentRead (entry.get "content".toList)).length ≤
      (turnSaid entry).length := fun entry _ => length_contentRead_le _
  rw [hcarries, messagesSaid, Flattening.append_eq_append_iff_of_length_le hsystem
    (Flattening.length_flatMap_le hentry), Flattening.flatMap_eq_flatMap_iff hentry, sayTexts_inj,
    systemTexts_asString_iff]
  simp only [turnSaid, contentRead_iff]

end AiDaemon.Shim
