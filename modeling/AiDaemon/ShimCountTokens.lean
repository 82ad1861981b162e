import AiDaemon.ConversationKept

/-!
# What `count_tokens` counts (`main.rs`: `count_tokens`, `parse_messages_body`)

The text that goes to the tokenizer is put together by a walk of its own over the
body, beside the one that puts the forwarded messages together.  It takes the
`text` of every block, whatever its type, and nothing else of a block.
-/

namespace AiDaemon.Shim

open Proto Fallible

variable {F D : Type}

/-! ### The counted text -/

/-- `push_str` of the `text` of a block, if it has one. -/
def pushText (text : Text) (block : Json.Value D) : Text := text ++ (strAt "text" block).getD []

/-- A string, or a list of blocks. -/
def pushContent (text : Text) : Option (Json.Value D) → Text
  | some (.str s) => text ++ s
  | some (.arr blocks) => blocks.foldl pushText text
  | _ => text

/-- The text that `count_tokens` builds. -/
def countedText (body : Json.Value D) : Text :=
  (entriesOf body).foldl (fun text entry => pushContent text (entry.get "content".toList))
    (pushContent [] (body.get "system".toList))

/-- The request it writes. -/
def countRequest (body : Json.Value D) : Request F (Json.Value D) := .tokenize (countedText body)

/-! ### The forwarded text -/

variable (floats : Json.Floats D)

/-- The piece of text of a part. A line break between two parts is none. -/
def Piece.wording : Piece D → List Text
  | .newline => []
  | .text s => [s]
  | .toolCall id name input => [Piece.render floats (.toolCall id name input)]
  | .invocation name args => [Piece.render floats (.invocation name args : Piece D)]

def Content.wording : Content D → List Text
  | .pieces parts => parts.flatMap (Piece.wording floats)
  | .json v => [Json.write floats v]

/-- Every piece of text of the forwarded messages. -/
def Prompt.wording (prompt : Prompt F D) : List Text :=
  prompt.drafts.flatMap fun draft => draft.content.wording floats

/-- Every piece of text that would be sent occurs in what is counted. -/
def Counted (body : Json.Value D) (turn : BodyTurn F D) : Prop :=
  ∀ piece ∈ turn.wording floats, piece <:+: countedText body

/-! ### What a body says -/

/-- A string, or the texts of the blocks that have one. -/
def plainTexts : Option (Json.Value D) → List Text
  | some (.str s) => [s]
  | some (.arr blocks) => blockTexts blocks
  | _ => []

/-- The system text and the texts of the blocks, in order. -/
def spokenTexts (body : Json.Value D) : List Text :=
  plainTexts (body.get "system".toList) ++
    (entriesOf body).flatMap fun entry => plainTexts (entry.get "content".toList)

/-- The blocks of a turn. -/
def blocksOf (entry : Json.Value D) : List (Json.Value D) := (listAt "content" entry).getD []

/-- The text of a text block. -/
def textWording (block : Json.Value D) : List Text :=
  if strAt "type" block = some "text".toList then (strAt "text" block).toList else []

/-- The call of a block that replays one. -/
def callWording (block : Json.Value D) : List Text :=
  if strAt "type" block = some "tool_use".toList then (toolUse block).wording floats else []

/-- The content of a tool result. -/
def resultWording (block : Json.Value D) : List Text :=
  if strAt "type" block = some "tool_result".toList then
    (resultContent (block.get "content".toList)).wording floats
  else []

/-- What a turn says, its results behind the rest. -/
def turnWording : Option (Json.Value D) → List Text
  | some (.str s) => [s]
  | some (.arr blocks) =>
    blocks.flatMap (fun block => textWording block ++ callWording floats block) ++
      blocks.flatMap (resultWording floats)
  | _ => []

/-- Every replayed call and every result of a body also stands, word for word,
    in its system text and its blocks' texts run together. -/
def ToolsSpoken (body : Json.Value D) : Prop :=
  ∀ entry ∈ entriesOf body, ∀ block ∈ blocksOf entry,
    ∀ piece ∈ callWording floats block ++ resultWording floats block,
      piece <:+: (spokenTexts body).flatten

/-! ### The count -/

theorem foldl_pushText (blocks : List (Json.Value D)) (text : Text) :
    blocks.foldl pushText text = text ++ (blockTexts blocks).flatten := by
  induction blocks generalizing text with
  | nil => exact (List.append_nil _).symm
  | cons block blocks ih =>
    rw [List.foldl_cons, ih, pushText, List.append_assoc, blockTexts, blockTexts]
    rcases h : strAt "text" block with _ | s
    · rw [List.filterMap_cons_none h]
      rfl
    · rw [List.filterMap_cons_some h]
      rfl

theorem pushContent_eq (text : Text) (content : Option (Json.Value D)) :
    pushContent text content = text ++ (plainTexts content).flatten := by
  rcases content with _ | ⟨_ | b | n | s | blocks | members⟩
  case some.arr => exact foldl_pushText blocks text
  case some.str => rw [pushContent, plainTexts, List.flatten_singleton]
  all_goals exact (List.append_nil _).symm

theorem countedText_eq (body : Json.Value D) : countedText body = (spokenTexts body).flatten := by
  have hentries : ∀ (entries : List (Json.Value D)) (text : Text),
      entries.foldl (fun text entry => pushContent text (entry.get "content".toList)) text =
        text ++ (entries.flatMap fun entry => plainTexts (entry.get "content".toList)).flatten := by
    intro entries
    induction entries with
    | nil => exact fun text => (List.append_nil _).symm
    | cons entry entries ih =>
      intro text
      rw [List.foldl_cons, ih, pushContent_eq, List.flatMap_cons, List.flatten_append,
        List.append_assoc]
  rw [countedText, hentries, pushContent_eq, spokenTexts, List.flatten_append, List.nil_append]

/-! ### The pieces of the forwarded messages -/

variable {floats} {debug : Text → Text} {single : Json.Number D → F}

/-- The pieces that are not blank. -/
def written (pieces : List Text) : List Text := pieces.filter fun piece => piece ≠ []

@[simp] theorem written_append (l r : List Text) : written (l ++ r) = written l ++ written r :=
  List.filter_append ..

theorem written_flatMap {α : Type} (f : α → List Text) (l : List α) :
    written (l.flatMap f) = l.flatMap fun x => written (f x) :=
  List.filter_flatMap ..

theorem mem_written {piece : Text} {pieces : List Text} :
    piece ∈ written pieces ↔ piece ∈ pieces ∧ piece ≠ [] := by
  simp [written]

theorem Piece.written_of_render_nil {piece : Piece D} (h : piece.render floats = []) :
    written (piece.wording floats) = [] := by
  cases piece with
  | text s =>
    obtain rfl : s = [] := h
    rfl
  | newline => rfl
  | toolCall id name input => simp [wording, written, h]
  | invocation name args => simp [wording, written, h]

theorem written_of_renderAll_nil {pieces : List (Piece D)} (h : renderAll floats pieces = []) :
    written (pieces.flatMap (Piece.wording floats)) = [] := by
  rw [renderAll, List.flatMap_eq_nil_iff] at h
  rw [written_flatMap, List.flatMap_eq_nil_iff]
  exact fun piece hpiece => Piece.written_of_render_nil (h piece hpiece)

theorem wording_joined (texts : List Text) :
    (joined texts : List (Piece D)).flatMap (Piece.wording floats) = texts := by
  rw [joined, Flattening.flatMap_intersperse rfl, List.flatMap_map]
  exact List.flatMap_singleton' texts

theorem wording_textPart (part : Json.Value D) :
    (textPart part).flatMap (Piece.wording floats) = (strAt "text" part).toList := by
  rw [flatMap_textPart]
  cases strAt "text" part <;> rfl

theorem systemDrafts_wording (system : Option (Json.Value D)) :
    written ((systemDrafts floats system).flatMap fun draft => draft.content.wording floats) =
      written (plainTexts system) := by
  rcases system with _ | ⟨_ | b | n | s | blocks | members⟩
  case some.str =>
    rcases s with _ | ⟨c, s⟩ <;> rfl
  case some.arr =>
    simp only [systemDrafts, plainTexts]
    split
    · rw [List.flatMap_singleton]
      exact congrArg written (wording_joined _)
    · rename_i hempty
      have hblank := written_of_renderAll_nil (not_not.mp hempty)
      rw [wording_joined] at hblank
      rw [hblank]
      rfl
  all_goals rfl

/-- What a block adds to the turn, and to its results. -/
theorem messagesPart_wording (part : Json.Value D) (walk walk' : Walk D)
    (h : messagesPart floats debug part walk = .ok walk') :
    walk'.pieces.flatMap (Piece.wording floats) = walk.pieces.flatMap (Piece.wording floats) ++
        (textWording part ++ callWording floats part) ∧
      walk'.toolResults.flatMap (fun draft => draft.content.wording floats) =
        walk.toolResults.flatMap (fun draft => draft.content.wording floats) ++
          resultWording floats part := by
  rw [textWording, callWording, resultWording]
  rw [messagesPart] at h
  split at h
  case isTrue htext =>
    obtain rfl := Except.ok.inj h
    rw [if_pos htext, htext, if_neg (by decide), if_neg (by decide), List.append_nil]
    refine ⟨?_, (List.append_nil _).symm⟩
    rw [Walk.push, List.flatMap_append, wording_textPart]
  rename_i htext
  split at h
  case isTrue himage =>
    obtain ⟨source, _, hattach⟩ := bind_eq_ok.mp h
    obtain rfl := Except.ok.inj hattach
    rw [himage, if_neg (by decide), if_neg (by decide), if_neg (by decide)]
    exact ⟨(List.append_nil _).symm, (List.append_nil _).symm⟩
  split at h
  case isTrue hresult =>
    obtain rfl := Except.ok.inj h
    rw [hresult, if_neg (by decide), if_neg (by decide), if_pos rfl]
    exact ⟨(List.append_nil _).symm, by simp [Walk.result, resultDraft]⟩
  rename_i hresult
  split at h
  case isTrue huse =>
    rw [huse, if_neg (by decide), if_pos rfl, if_neg (by decide)]
    obtain rfl := Except.ok.inj h
    refine ⟨?_, (List.append_nil _).symm⟩
    rw [Walk.push, List.flatMap_append]
    split
    · rfl
    · rw [List.flatMap_singleton]
      rfl
  case isFalse huse =>
    obtain rfl := Except.ok.inj h
    rw [if_neg htext, if_neg huse, if_neg hresult]
    exact ⟨(List.append_nil _).symm, (List.append_nil _).symm⟩

theorem turn_wording (role : Text) (walk : Walk D) :
    written ((walk.turn floats role).flatMap fun draft => draft.content.wording floats) =
      written (walk.pieces.flatMap (Piece.wording floats) ++
        walk.toolResults.flatMap fun draft => draft.content.wording floats) := by
  rw [Walk.turn, List.flatMap_append, written_append, written_append]
  congr 1
  split
  · rw [List.flatMap_singleton]
    rfl
  · rename_i hempty
    rw [not_or, not_not] at hempty
    exact (written_of_renderAll_nil hempty.1).symm

theorem readContent_wording {content : Option (Json.Value D)} {pictures : List Picture}
    {walk : Walk D}
    (h : readContent (messagesPart floats debug) content (.start pictures) = .ok walk) :
    walk.pieces.flatMap (Piece.wording floats) ++
        walk.toolResults.flatMap (fun draft => draft.content.wording floats) =
      turnWording floats content := by
  rcases content with _ | ⟨_ | b | n | s | parts | members⟩
  case some.arr =>
    have hpieces := readParts_adds (fun walk => walk.pieces.flatMap (Piece.wording floats)) _
      (fun part walk walk' h => (messagesPart_wording part walk walk' h).1) h
    have hresults := readParts_adds
      (fun walk => walk.toolResults.flatMap fun draft => draft.content.wording floats) _
      (fun part walk walk' h => (messagesPart_wording part walk walk' h).2) h
    rw [hpieces, hresults]
    rfl
  all_goals
    obtain rfl := Except.ok.inj h
    rfl

theorem messagesEntry_wording (entry : Json.Value D) (pictures : List Picture)
    (out : List (Draft D) × List Picture)
    (h : messagesEntry floats debug entry pictures = .ok out) :
    (out.1.flatMap fun draft => written (draft.content.wording floats)) =
      written (turnWording floats (entry.get "content".toList)) := by
  rw [messagesEntry] at h
  obtain ⟨walk, hread, hout⟩ := bind_eq_ok.mp h
  obtain rfl := Except.ok.inj hout
  rw [← written_flatMap, turn_wording, readContent_wording hread]

/-- The pieces of the forwarded messages are those of the body, blank ones apart. -/
theorem written_wording {body : Json.Value D} {turn : BodyTurn F D}
    (h : parseMessagesBody floats debug single body = .ok turn) :
    written (turn.wording floats) = written (plainTexts (body.get "system".toList)) ++
      (entriesOf body).flatMap fun entry =>
        written (turnWording floats (entry.get "content".toList)) := by
  rw [parseMessagesBody] at h
  split at h
  · contradiction
  obtain ⟨out, hread, hturn⟩ := bind_eq_ok.mp h
  obtain rfl := Except.ok.inj hturn
  rw [Prompt.wording, List.flatMap_append, written_append, systemDrafts_wording, written_flatMap,
    readEntries_adds _ _ messagesEntry_wording hread]

/-! ### Which pieces are counted -/

theorem isInfix_spoken {body : Json.Value D} {piece : Text} (h : piece ∈ spokenTexts body) :
    piece <:+: countedText body := by
  rw [countedText_eq]
  exact List.infix_of_mem_flatten h

theorem mem_blockTexts {blocks : List (Json.Value D)} {block : Json.Value D} {piece : Text}
    (hblock : block ∈ blocks) (hpiece : piece ∈ textWording block) : piece ∈ blockTexts blocks := by
  rw [textWording] at hpiece
  split at hpiece
  · exact List.mem_filterMap.2 ⟨block, hblock, Option.mem_toList.1 hpiece⟩
  · simp at hpiece

/-- A piece of a turn is text of its own, or comes from a tool block. -/
theorem mem_turnWording {content : Option (Json.Value D)} {piece : Text}
    (h : piece ∈ turnWording floats content) :
    piece ∈ plainTexts content ∨ ∃ block ∈ (content.bind Json.Value.asArray).getD [],
      piece ∈ callWording floats block ++ resultWording floats block := by
  rcases content with _ | ⟨_ | b | n | s | blocks | members⟩
  case some.str => exact .inl h
  case some.arr =>
    rcases List.mem_append.1 h with hturn | hresult
    · obtain ⟨block, hblock, hpiece⟩ := List.mem_flatMap.1 hturn
      rcases List.mem_append.1 hpiece with htext | hcall
      · exact .inl (mem_blockTexts hblock htext)
      · exact .inr ⟨block, hblock, List.mem_append_left _ hcall⟩
    · obtain ⟨block, hblock, hpiece⟩ := List.mem_flatMap.1 hresult
      exact .inr ⟨block, hblock, List.mem_append_right _ hpiece⟩
  all_goals exact absurd h List.not_mem_nil

theorem mem_turnWording_of_tool {content : Option (Json.Value D)} {block : Json.Value D}
    {piece : Text} (hblock : block ∈ (content.bind Json.Value.asArray).getD [])
    (hpiece : piece ∈ callWording floats block ++ resultWording floats block) :
    piece ∈ turnWording floats content := by
  rcases content with _ | ⟨_ | b | n | s | blocks | members⟩
  case some.arr =>
    rcases List.mem_append.1 hpiece with hcall | hresult
    · apply List.mem_append_left
      exact List.mem_flatMap.2 ⟨block, hblock, List.mem_append_right _ hcall⟩
    · apply List.mem_append_right
      exact List.mem_flatMap.2 ⟨block, hblock, hresult⟩
  all_goals exact absurd hblock List.not_mem_nil

theorem toolsSpoken_of_counted {body : Json.Value D} {turn : BodyTurn F D}
    (h : parseMessagesBody floats debug single body = .ok turn)
    (hcounted : Counted floats body turn) : ToolsSpoken floats body := by
  intro entry hentry block hblock piece hpiece
  rcases eq_or_ne piece [] with rfl | hne
  · exact List.nil_infix
  · have hturn : piece ∈ turnWording floats (entry.get "content".toList) :=
      mem_turnWording_of_tool hblock hpiece
    have hwritten : piece ∈ written (turn.wording floats) := by
      rw [written_wording h]
      apply List.mem_append_right
      exact List.mem_flatMap.2 ⟨entry, hentry, mem_written.2 ⟨hturn, hne⟩⟩
    rw [← countedText_eq]
    exact hcounted piece (mem_written.1 hwritten).1

theorem counted_of_toolsSpoken {body : Json.Value D} {turn : BodyTurn F D}
    (h : parseMessagesBody floats debug single body = .ok turn)
    (hspoken : ToolsSpoken floats body) : Counted floats body turn := by
  intro piece hpiece
  rcases eq_or_ne piece [] with rfl | hne
  · exact List.nil_infix
  have hwritten := mem_written.2 ⟨hpiece, hne⟩
  rw [written_wording h] at hwritten
  rcases List.mem_append.1 hwritten with hsystem | hentries
  · exact isInfix_spoken (List.mem_append_left _ (mem_written.1 hsystem).1)
  · obtain ⟨entry, hentry, hturn⟩ := List.mem_flatMap.1 hentries
    rcases mem_turnWording (mem_written.1 hturn).1 with hplain | ⟨block, hblock, htool⟩
    · apply isInfix_spoken
      apply List.mem_append_right
      exact List.mem_flatMap.2 ⟨entry, hentry, hplain⟩
    · rw [countedText_eq]
      exact hspoken entry hentry block hblock piece htool

/-- Every piece that would be sent is counted, if and only if what the tool blocks
    bring is written out in the texts as well. -/
theorem counted_iff (floats : Json.Floats D) (debug : Text → Text) (single : Json.Number D → F)
    (body : Json.Value D) (turn : BodyTurn F D)
    (h : parseMessagesBody floats debug single body = .ok turn) :
    Counted floats body turn ↔ ToolsSpoken floats body :=
  ⟨toolsSpoken_of_counted h, counted_of_toolsSpoken h⟩

/-- A body without tool blocks is counted whole. -/
theorem toolsSpoken_of_no_tools {body : Json.Value D}
    (h : ∀ entry ∈ entriesOf body, ∀ block ∈ blocksOf entry,
      strAt "type" block ≠ some "tool_use".toList ∧
        strAt "type" block ≠ some "tool_result".toList) : ToolsSpoken floats body := by
  intro entry hentry block hblock piece hpiece
  obtain ⟨huse, hresult⟩ := h entry hentry block hblock
  rw [callWording, resultWording, if_neg huse, if_neg hresult] at hpiece
  exact absurd hpiece List.not_mem_nil

theorem messagesReplay_counted_iff : ∃ turn : BodyTurn Unit Unit,
    parseMessagesBody noFloats id (fun _ => ()) messagesReplay = .ok turn ∧
      (Counted noFloats messagesReplay turn ↔ ToolsSpoken noFloats messagesReplay) :=
  ⟨_, rfl, counted_iff noFloats id (fun _ => ()) messagesReplay _ rfl⟩

/-- The result is sent and not counted. -/
theorem result_uncounted : countedText messagesReplay = "Go on.".toList ∧
    ∃ turn : BodyTurn Unit Unit,
      parseMessagesBody noFloats id (fun _ => ()) messagesReplay = .ok turn ∧
        "12".toList ∈ turn.wording noFloats ∧ ¬ Counted noFloats messagesReplay turn := by
  refine ⟨rfl, _, rfl, ?_, fun hcounted => ?_⟩
  · decide
  · have hoccurs : "12".toList <:+: countedText messagesReplay := hcounted _ (by decide)
    exact absurd hoccurs (by decide)

end AiDaemon.Shim
