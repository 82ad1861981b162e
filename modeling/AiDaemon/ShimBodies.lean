import AiDaemon.ShimResponses

/-!
# Request bodies (`ai-daemon-shim`: `chat`, `parse_messages_body`, `parse_responses_body`)

What a route makes of the JSON a client posted: the messages of the `Generate`
it forwards, and before it one `Attach` for every image of the body.

A message is kept as the parts its text was put together from (`Draft`), and
what is forwarded is `Draft.message`.  The parts tell where a piece of the text
came from, which the text alone does not.

A write to the session's socket that fails ends the request, so it is left out
here, as is what was written before a body turned out to be refused.  `debug` is
`{:?}` of a string, `single` is `as_f64` and the cast to `f32`.
-/

namespace AiDaemon.Shim

open Proto

variable {F D : Type}

/-! ### Fields -/

/-- `get(key).and_then(as_str)`. -/
def strAt (key : String) (v : Json.Value D) : Option Text :=
  (v.get key.toList).bind Json.Value.asStr

/-- `get(key).and_then(as_array)`. -/
def listAt (key : String) (v : Json.Value D) : Option (List (Json.Value D)) :=
  (v.get key.toList).bind Json.Value.asArray

/-- `get(key).and_then(as_u64)`. -/
def u64At (key : String) (v : Json.Value D) : Option UInt64 :=
  (v.get key.toList).bind Json.Value.asU64

def asBool : Json.Value D → Option Bool
  | .bool b => some b
  | _ => none

def asObject : Json.Value D → Option (List (Text × Json.Value D))
  | .obj members => some members
  | _ => none

/-- `as_f64` and the cast. -/
def asSingle (single : Json.Number D → F) : Json.Value D → Option F
  | .num n => some (single n)
  | _ => none

def singleAt (single : Json.Number D → F) (key : String) (v : Json.Value D) : Option F :=
  (v.get key.toList).bind (asSingle single)

/-- A list of strings; what is no string in it is passed over. -/
def stringsAt (key : String) (v : Json.Value D) : Option (List Text) :=
  (listAt key v).map (List.filterMap Json.Value.asStr)

def streamOf (body : Json.Value D) : Bool :=
  ((body.get "stream".toList).bind asBool).getD false

def modelOf (body : Json.Value D) : Text := (strAt "model" body).getD "default".toList

/-! ### Base64 -/

/-- The six bits a byte stands for. -/
def sextet (byte : UInt8) : Option UInt8 :=
  if 65 ≤ byte ∧ byte ≤ 90 then some (byte - 65)
  else if 97 ≤ byte ∧ byte ≤ 122 then some (byte - 97 + 26)
  else if 48 ≤ byte ∧ byte ≤ 57 then some (byte - 48 + 52)
  else if byte = 43 ∨ byte = 45 then some 62
  else if byte = 47 ∨ byte = 95 then some 63
  else none

/-- `{other:#04x}`. -/
def hexByte (byte : UInt8) : Text :=
  ['0', 'x', (byte.toNat / 16).digitChar, (byte.toNat % 16).digitChar]

/-- The loop of `base64_decode`. The accumulator loses its high bits. -/
def base64Loop : List UInt8 → UInt32 → Nat → List UInt8 → Except Text (List UInt8)
  | [], _, _, out => .ok out
  | byte :: bytes, accumulator, bits, out =>
    match sextet byte with
    | some value =>
      let accumulator := (accumulator <<< 6) ||| value.toUInt32
      if 8 ≤ bits + 6 then
        let bits := bits + 6 - 8
        base64Loop bytes accumulator bits (out ++ [(accumulator >>> UInt32.ofNat bits).toUInt8])
      else base64Loop bytes accumulator (bits + 6) out
    | none =>
      if byte = 61 then .ok out
      else if byte = 10 ∨ byte = 13 ∨ byte = 32 ∨ byte = 9 then
        base64Loop bytes accumulator bits out
      else .error ("invalid base64 byte ".toList ++ hexByte byte)

/-- `base64_decode`. -/
def base64Decode (text : Text) : Except Text (List UInt8) :=
  base64Loop (text.flatMap String.utf8EncodeChar) 0 0 []

/-- `decode_data_url`. -/
def decodeDataUrl (url : Text) : Except Text (List UInt8) :=
  match "data:".toList.isPrefixOf? url with
  | none =>
    .error "only data: URLs are accepted; this shim never fetches a remote URL".toList
  | some rest =>
    match rest.dropWhile (fun c => c ≠ ',') with
    | [] => .error "malformed data: URL".toList
    | _ :: payload =>
      if ";base64".toList <:+: rest.takeWhile (fun c => c ≠ ',') then base64Decode payload
      else .error "only base64 data: URLs are accepted".toList

/-! ### Messages in parts -/

/-- A part of a message's text. -/
inductive Piece (D : Type) where
  | text (s : Text)
  | newline
  | toolCall (id name : Text) (input : Json.Value D)
  | invocation (name args : Text)

variable (floats : Json.Floats D)

def Piece.render : Piece D → Text
  | .text s => s
  | .newline => ['\n']
  | .toolCall id name input =>
    "\x7b\"tool_call\":\x7b\"id\":\"".toList ++ id ++ "\",\"name\":\"".toList ++ name ++
      "\",\"arguments\":".toList ++ Json.write floats input ++ "\x7d\x7d".toList
  | .invocation name args => name ++ ['('] ++ args ++ [')']

def renderAll (pieces : List (Piece D)) : Text := pieces.flatMap (Piece.render floats)

/-- `join("\n")`. -/
def joined (texts : List Text) : List (Piece D) :=
  (texts.map Piece.text).intersperse .newline

/-- The whole text of a message: parts, or a value as JSON. -/
inductive Content (D : Type) where
  | pieces (parts : List (Piece D))
  | json (v : Json.Value D)

def Content.render : Content D → Text
  | .pieces parts => renderAll floats parts
  | .json v => Json.write floats v

/-- A message, with its text in parts. -/
structure Draft (D : Type) where
  role : Text
  content : Content D
  attachments : List Text
  toolCallId : Option Text

def Draft.message (draft : Draft D) : Message :=
  ⟨draft.role, draft.content.render floats, draft.attachments, draft.toolCallId⟩

/-- A message that is text only. -/
def textDraft (role : String) (pieces : List (Piece D)) : Draft D :=
  ⟨role.toList, .pieces pieces, [], none⟩

/-- An image of the body, as it is attached to the session. -/
structure Picture where
  id : Text
  encoded : Text
  bytes : List UInt8

/-- The request that goes before its bytes. -/
def Picture.request (picture : Picture) : Request F (Json.Value D) :=
  .attach picture.id .image { AttachMeta.default with encoded := some picture.encoded }
    (UInt64.ofNat picture.bytes.length)

/-- What a body asks of the session. -/
structure Prompt (F D : Type) where
  drafts : List (Draft D)
  pictures : List Picture
  tools : Option (List (ToolSchema (Json.Value D)))
  params : Params F

def Prompt.messages (prompt : Prompt F D) : List Message :=
  prompt.drafts.map (Draft.message floats)

/-- The forwarded `Request::Generate`. -/
def Prompt.generate (prompt : Prompt F D) : Request F (Json.Value D) :=
  .generate (prompt.messages floats) true (some prompt.params) none prompt.tools

/-- `AnthropicTurn`, and `ResponsesTurn`. -/
structure BodyTurn (F D : Type) extends Prompt F D where
  stream : Bool
  model : Text

/-! ### Entries with content -/

/-- The state of the loop over the parts of an entry. The pictures are those of
    the entries before it too: `attachment_index` is how many they are. -/
structure Walk (D : Type) where
  pieces : List (Piece D)
  attachments : List Text
  toolResults : List (Draft D)
  pictures : List Picture

def Walk.start (pictures : List Picture) : Walk D := ⟨[], [], [], pictures⟩

def Walk.push (walk : Walk D) (pieces : List (Piece D)) : Walk D :=
  { walk with pieces := walk.pieces ++ pieces }

def Walk.attach (walk : Walk D) (encoded : Text) (bytes : List UInt8) : Walk D :=
  let id := "img".toList ++ Text.ofNat (walk.pictures.length + 1)
  { walk with
    attachments := walk.attachments ++ [id]
    pictures := walk.pictures ++ [⟨id, encoded, bytes⟩] }

def Walk.result (walk : Walk D) (draft : Draft D) : Walk D :=
  { walk with toolResults := walk.toolResults ++ [draft] }

/-- The loop over parts. -/
def readParts (readPart : Json.Value D → Walk D → Except Text (Walk D)) :
    List (Json.Value D) → Walk D → Except Text (Walk D)
  | [], walk => .ok walk
  | part :: parts, walk => do
    let walk ← readPart part walk
    readParts readPart parts walk

/-- Content is a string or an array of parts. -/
def readContent (readPart : Json.Value D → Walk D → Except Text (Walk D))
    (content : Option (Json.Value D)) (walk : Walk D) : Except Text (Walk D) :=
  match content with
  | some (.str s) => .ok (walk.push [.text s])
  | some (.arr parts) => readParts readPart parts walk
  | _ => .ok walk

/-- The loop over entries. -/
def readEntries
    (readEntry : Json.Value D → List Picture → Except Text (List (Draft D) × List Picture)) :
    List (Json.Value D) → List Picture → Except Text (List (Draft D) × List Picture)
  | [], pictures => .ok ([], pictures)
  | entry :: entries, pictures => do
    let (drafts, pictures) ← readEntry entry pictures
    let (more, pictures) ← readEntries readEntry entries pictures
    .ok (drafts ++ more, pictures)

def roleOf (entry : Json.Value D) : Text := (strAt "role" entry).getD "user".toList

def entriesOf (body : Json.Value D) : List (Json.Value D) := (listAt "messages" body).getD []

/-- A part that is text. -/
def textPart (part : Json.Value D) : List (Piece D) :=
  ((strAt "text" part).map Piece.text).toList

/-! ### Chat completions -/

def chatPart (part : Json.Value D) (walk : Walk D) : Except Text (Walk D) :=
  if strAt "type" part = some "text".toList then .ok (walk.push (textPart part))
  else if strAt "type" part = some "image_url".toList then do
    let bytes ← decodeDataUrl (((part.get "image_url".toList).bind (strAt "url")).getD [])
    .ok (walk.attach "image/png".toList bytes)
  else .ok walk

def chatEntry (entry : Json.Value D) (pictures : List Picture) :
    Except Text (List (Draft D) × List Picture) := do
  let walk ← readContent chatPart (entry.get "content".toList) (.start pictures)
  .ok ([⟨roleOf entry, .pieces walk.pieces, walk.attachments, strAt "tool_call_id" entry⟩],
    walk.pictures)

def chatTool (entry : Json.Value D) : Option (ToolSchema (Json.Value D)) := do
  let function ← entry.get "function".toList
  let name ← strAt "name" function
  some ⟨name, (strAt "description" function).getD [],
    (function.get "parameters".toList).getD (object [("type", string "object")])⟩

def chatParams (single : Json.Number D → F) (body : Json.Value D) : Params F where
  temperature := singleAt single "temperature" body
  topP := singleAt single "top_p" body
  seed := u64At "seed" body
  maxTokens := (((body.get "max_tokens".toList).or
    (body.get "max_completion_tokens".toList)).bind Json.Value.asU64).map UInt64.toUInt32
  stop := stringsAt "stop" body
  topK := none
  minP := none
  repeatPenalty := none
  logitBias := (((body.get "logit_bias".toList).bind asObject).map fun members =>
    Cbor.BTreeMap.ofEntries (members.filterMap fun (token, bias) => do
      let token ← token.parseU32
      let bias ← asSingle single bias
      some (UInt32.ofNat token, bias))).getD .empty
  logprobs := ((u64At "top_logprobs" body).map UInt64.toUInt32).or
    (((body.get "logprobs".toList).bind asBool).bind fun on => if on then some 1 else none)

/-- What `chat` makes of a body. An error is answered with 400. -/
def chatBody (single : Json.Number D → F) (body : Json.Value D) : Except Text (Prompt F D) := do
  let (drafts, pictures) ← readEntries chatEntry (entriesOf body) []
  .ok ⟨drafts, pictures, (listAt "tools" body).map (List.filterMap chatTool),
    chatParams single body⟩

/-! ### Messages -/

/-- The texts of the blocks that have one. -/
def blockTexts (blocks : List (Json.Value D)) : List Text := blocks.filterMap (strAt "text")

/-- The `system` field. -/
def systemDrafts (system : Option (Json.Value D)) : List (Draft D) :=
  match system with
  | some (.str s) => if s ≠ [] then [textDraft "system" [.text s]] else []
  | some (.arr blocks) =>
    if renderAll floats (joined (blockTexts blocks) : List (Piece D)) ≠ [] then
      [textDraft "system" (joined (blockTexts blocks))]
    else []
  | _ => []

/-- The bytes of an image block, and what they are. -/
def imageSource (debug : Text → Text) (part : Json.Value D) :
    Except Text (Text × List UInt8) := do
  match part.get "source".toList with
  | none => .error "image block has no source".toList
  | some source =>
    match strAt "type" source with
    | none => .error "image source has no type".toList
    | some kind =>
      if kind = "base64".toList then
        match strAt "data" source with
        | none => .error "image source has no data".toList
        | some data =>
          let bytes ← base64Decode data
          .ok ((strAt "media_type" source).getD "image/png".toList, bytes)
      else
        .error ("image source ".toList ++ debug kind ++ (" is not accepted; send base64. " ++
          "This shim never fetches a URL a prompt named.").toList)

/-- The content of a tool result. -/
def resultContent : Option (Json.Value D) → Content D
  | some (.str s) => .pieces [.text s]
  | some (.arr blocks) => .pieces (joined (blockTexts blocks))
  | some other => .json other
  | none => .pieces []

def resultDraft (part : Json.Value D) : Draft D :=
  ⟨"tool".toList, resultContent (part.get "content".toList), [],
    some ((strAt "tool_use_id" part).getD [])⟩

/-- The assistant's own earlier call. -/
def toolUse (part : Json.Value D) : Piece D :=
  .toolCall ((strAt "id" part).getD []) ((strAt "name" part).getD [])
    ((part.get "input".toList).getD (.obj []))

def messagesPart (debug : Text → Text) (part : Json.Value D) (walk : Walk D) :
    Except Text (Walk D) :=
  if strAt "type" part = some "text".toList then .ok (walk.push (textPart part))
  else if strAt "type" part = some "image".toList then do
    let (media, bytes) ← imageSource debug part
    .ok (walk.attach media bytes)
  else if strAt "type" part = some "tool_result".toList then .ok (walk.result (resultDraft part))
  else if strAt "type" part = some "tool_use".toList then
    .ok (walk.push
      (if renderAll floats walk.pieces ≠ [] then [.newline, toolUse part] else [toolUse part]))
  else .ok walk

/-- The turn itself, if there is anything in it, and then its results. -/
def Walk.turn (role : Text) (walk : Walk D) : List (Draft D) :=
  (if renderAll floats walk.pieces ≠ [] ∨ walk.attachments ≠ [] then
    [⟨role, .pieces walk.pieces, walk.attachments, none⟩]
  else []) ++ walk.toolResults

def messagesEntry (debug : Text → Text) (entry : Json.Value D) (pictures : List Picture) :
    Except Text (List (Draft D) × List Picture) := do
  let walk ← readContent (messagesPart floats debug) (entry.get "content".toList)
    (.start pictures)
  .ok (walk.turn floats (roleOf entry), walk.pictures)

def messagesTool (entry : Json.Value D) : Option (ToolSchema (Json.Value D)) := do
  let name ← strAt "name" entry
  some ⟨name, (strAt "description" entry).getD [],
    (entry.get "input_schema".toList).getD (object [("type", string "object")])⟩

def messagesParams (single : Json.Number D → F) (maxTokens : UInt32) (body : Json.Value D) :
    Params F :=
  { Params.default with
    temperature := singleAt single "temperature" body
    topP := singleAt single "top_p" body
    topK := (u64At "top_k" body).map UInt64.toUInt32
    maxTokens := some maxTokens
    stop := stringsAt "stop_sequences" body }

/-- `parse_messages_body`. -/
def parseMessagesBody (debug : Text → Text) (single : Json.Number D → F)
    (body : Json.Value D) : Except Text (BodyTurn F D) :=
  match u64At "max_tokens" body with
  | none => .error "max_tokens is required".toList
  | some maxTokens => do
    let (drafts, pictures) ← readEntries (messagesEntry floats debug) (entriesOf body) []
    .ok {
      drafts := systemDrafts floats (body.get "system".toList) ++ drafts
      pictures := pictures
      tools := (listAt "tools" body).map (List.filterMap messagesTool)
      params := messagesParams single maxTokens.toUInt32 body
      stream := streamOf body
      model := modelOf body }

/-! ### Responses -/

/-- The kinds of part whose text counts. -/
def responsesKinds : List (Option Text) :=
  [some "input_text".toList, some "output_text".toList, some "text".toList, none]

/-- `responses_text`. -/
def responsesText (content : Option (Json.Value D)) : List (Piece D) :=
  match content with
  | some (.str s) => [.text s]
  | some (.arr parts) =>
    (parts.filter fun part => strAt "type" part ∈ responsesKinds).flatMap textPart
  | _ => []

/-- The content of a tool result that has come back. -/
def outputContent : Option (Json.Value D) → Content D
  | some (.str s) => .pieces [.text s]
  | some other => .json other
  | none => .pieces []

def responsesItem (item : Json.Value D) : Draft D :=
  if strAt "type" item = some "function_call_output".toList then
    ⟨"tool".toList, outputContent (item.get "output".toList), [], strAt "call_id" item⟩
  else if strAt "type" item = some "function_call".toList then
    textDraft "assistant"
      [.invocation ((strAt "name" item).getD []) ((strAt "arguments" item).getD [])]
  else ⟨roleOf item, .pieces (responsesText (item.get "content".toList)), [], none⟩

/-- The `instructions` field. -/
def instructionDrafts (body : Json.Value D) : List (Draft D) :=
  match strAt "instructions" body with
  | some text => if text ≠ [] then [textDraft "system" [.text text]] else []
  | none => []

def inputDrafts (input : Option (Json.Value D)) : Except Text (List (Draft D)) :=
  match input with
  | some (.str s) => .ok [textDraft "user" [.text s]]
  | some (.arr items) => .ok (items.map responsesItem)
  | _ => .error "input is required".toList

def responsesTool (tool : Json.Value D) : Option (ToolSchema (Json.Value D)) :=
  if ((strAt "type" tool).map fun kind => decide (kind = "function".toList)).getD true then
    some ⟨(strAt "name" tool).getD [], (strAt "description" tool).getD [],
      (tool.get "parameters".toList).getD .null⟩
  else none

def responsesParams (single : Json.Number D → F) (body : Json.Value D) : Params F :=
  { Params.default with
    temperature := singleAt single "temperature" body
    topP := singleAt single "top_p" body
    maxTokens := (u64At "max_output_tokens" body).map UInt64.toUInt32 }

/-- `parse_responses_body`. -/
def parseResponsesBody (single : Json.Number D → F) (body : Json.Value D) :
    Except Text (BodyTurn F D) := do
  let input ← inputDrafts (body.get "input".toList)
  let drafts := instructionDrafts body ++ input
  if drafts.all fun draft => draft.role = "system".toList then
    .error "input contained no user or tool message".toList
  else
    .ok {
      drafts := drafts
      pictures := []
      tools := ((listAt "tools" body).map (List.filterMap responsesTool)).filter
        fun tools => !tools.isEmpty
      params := responsesParams single body
      stream := streamOf body
      model := modelOf body }

end AiDaemon.Shim
