import AiDaemon.Fallible
import AiDaemon.Flattening
import AiDaemon.ShimBodies

/-!
# Conversations (`ai-daemon-shim`)

A body holds a conversation: texts, results of tool calls, earlier tool calls.
`chatSaid`, `messagesSaid` and `responsesSaid` list what a body of each route
says, in the order of its turns and blocks, and `Draft.carries` lists what a
forwarded message has of it.  The conversation survives when the two lists are
equal (`Prompt.Keeps`): all of it is there, once, in order.

Fields are compared as the JSON they are.  The parsers read them with `as_str`,
so one that holds anything but a string is lost (`plain`).
-/

namespace AiDaemon.Shim

open Fallible Proto

variable {F D : Type} {floats : Json.Floats D}

/-! ### What is said -/

inductive Saying (D : Type) where
  | text (v : Json.Value D)
  | result (call : Json.Value D) (texts : List (Json.Value D))
  | call (id name arguments : Json.Value D)

def Saying.isResult : Saying D → Bool
  | .result _ _ => true
  | _ => false

@[simp] theorem isResult_text (v : Json.Value D) : (Saying.text v).isResult = false := rfl

@[simp] theorem isResult_result (call : Json.Value D) (texts : List (Json.Value D)) :
    (Saying.result call texts).isResult = true := rfl

@[simp] theorem isResult_call (id name arguments : Json.Value D) :
    (Saying.call id name arguments).isResult = false := rfl

/-- What a field says. One that is absent, `null` or the empty string says
    nothing. -/
def given : Option (Json.Value D) → Json.Value D
  | none => .null
  | some (.str []) => .null
  | some v => v

/-- A field as `as_str` reads it. -/
def asString (v : Option (Json.Value D)) : Option (Json.Value D) :=
  (v.bind Json.Value.asStr).map .str

/-- A field that a parser does not have to be a string to be read: it is
    absent or `null` then. -/
def plain : Option (Json.Value D) → Bool
  | none | some .null | some (.str _) => true
  | _ => false

/-- The text of a field, unless it says nothing. -/
def textsOf (v : Option (Json.Value D)) : List (Json.Value D) :=
  match given v with
  | .null => []
  | v => [v]

def sayTexts (texts : List (Json.Value D)) : List (Saying D) := texts.map .text

/-- A text that answers a call, if it names one. -/
def answering (call : Option (Json.Value D)) (texts : List (Json.Value D)) : List (Saying D) :=
  match call with
  | none | some .null => sayTexts texts
  | call => [.result (given call) texts]

/-! ### In a message -/

def Piece.texts : Piece D → List (Json.Value D)
  | .text s => textsOf (some (.str s))
  | _ => []

def Piece.carries : Piece D → List (Saying D)
  | .text s => sayTexts (textsOf (some (.str s)))
  | .newline => []
  | .toolCall id name input =>
    [.call (given (some (.str id))) (given (some (.str name))) (given (some input))]
  | .invocation name args =>
    [.call .null (given (some (.str name))) (given (some (.str args)))]

def Content.texts : Content D → List (Json.Value D)
  | .pieces parts => parts.flatMap Piece.texts
  | .json v => textsOf (some v)

def Content.carries : Content D → List (Saying D)
  | .pieces parts => parts.flatMap Piece.carries
  | .json v => sayTexts (textsOf (some v))

def Draft.carries (draft : Draft D) : List (Saying D) :=
  match draft.toolCallId with
  | none => draft.content.carries
  | some id => [.result (given (some (.str id))) draft.content.texts]

def Prompt.carries (prompt : Prompt F D) : List (Saying D) := prompt.drafts.flatMap Draft.carries

/-- The text has what the value says in it, as a string or as JSON. -/
def Shows (floats : Json.Floats D) (text : Text) : Json.Value D → Prop
  | .null => True
  | .str s => s <:+: text ∨ Json.write floats (.str s) <:+: text
  | v => Json.write floats v <:+: text

def Saying.In (floats : Json.Floats D) (message : Message) : Saying D → Prop
  | .text v => Shows floats message.content v
  | .result answered texts =>
    (∃ id, message.toolCallId = some id ∧ answered = given (some (.str id))) ∧
      ∀ v ∈ texts, Shows floats message.content v
  | .call id name arguments =>
    Shows floats message.content id ∧ Shows floats message.content name ∧
      Shows floats message.content arguments

/-- All that is said, and nothing else, is in the forwarded messages, each thing
    once and in order. -/
structure Prompt.Keeps (floats : Json.Floats D) (prompt : Prompt F D) (said : List (Saying D)) :
    Prop where
  carries : prompt.carries = said
  shown : ∀ draft ∈ prompt.drafts, ∀ s ∈ draft.carries, s.In floats (draft.message floats)

/-! ### In a body -/

section Body

-- How a field is read: as it is (`id`), or with `as_str` (`asString`).
variable (field : Option (Json.Value D) → Option (Json.Value D))

/-- The texts of the parts that have one. -/
def partTexts (parts : List (Json.Value D)) : List (Json.Value D) :=
  parts.flatMap fun part => textsOf (field (part.get "text".toList))

/-- The texts of content: a string, or parts of which some kinds are text. -/
def contentTexts (kinds : List (Option Text)) : Option (Json.Value D) → List (Json.Value D)
  | some (.str s) => textsOf (some (.str s))
  | some (.arr parts) => partTexts field (parts.filter fun part => strAt "type" part ∈ kinds)
  | _ => []

def chatKinds : List (Option Text) := [some "text".toList]

/-- The content of an entry, and the call it answers. -/
def chatTurn (entry : Json.Value D) : List (Saying D) :=
  answering (field (entry.get "tool_call_id".toList))
    (contentTexts field chatKinds (entry.get "content".toList))

def systemTexts : Option (Json.Value D) → List (Json.Value D)
  | some (.str s) => textsOf (some (.str s))
  | some (.arr blocks) => partTexts field blocks
  | _ => []

def resultTexts : Option (Json.Value D) → List (Json.Value D)
  | some (.arr blocks) => partTexts field blocks
  | content => textsOf content

/-- A block of a turn. A call without an input has an empty one. -/
def blockSaid (part : Json.Value D) : List (Saying D) :=
  if strAt "type" part = some "text".toList then sayTexts (textsOf (field (part.get "text".toList)))
  else if strAt "type" part = some "tool_result".toList then
    [.result (given (field (part.get "tool_use_id".toList)))
      (resultTexts field (part.get "content".toList))]
  else if strAt "type" part = some "tool_use".toList then
    [.call (given (field (part.get "id".toList))) (given (field (part.get "name".toList)))
      (given (some ((part.get "input".toList).getD (.obj []))))]
  else []

/-- An item of the input, with what is known of the id of a call. -/
def itemSaid (call : Json.Value D → Json.Value D) (item : Json.Value D) : List (Saying D) :=
  if strAt "type" item = some "function_call_output".toList then
    answering (field (item.get "call_id".toList)) (textsOf (item.get "output".toList))
  else if strAt "type" item = some "function_call".toList then
    [.call (call item) (given (field (item.get "name".toList)))
      (given (field (item.get "arguments".toList)))]
  else sayTexts (contentTexts field responsesKinds (item.get "content".toList))

end Body

/-- An earlier call of an entry. -/
def earlierCall (call : Json.Value D) : Saying D :=
  .call (given (call.get "id".toList))
    (given ((call.get "function".toList).bind (Json.Value.get "name".toList)))
    (given ((call.get "function".toList).bind (Json.Value.get "arguments".toList)))

def earlierCalls (entry : Json.Value D) : List (Saying D) :=
  ((listAt "tool_calls" entry).getD []).map earlierCall

/-- What a body says to chat completions. -/
def chatSaid (body : Json.Value D) : List (Saying D) :=
  (entriesOf body).flatMap fun entry => chatTurn id entry ++ earlierCalls entry

def contentSaid : Option (Json.Value D) → List (Saying D)
  | some (.str s) => sayTexts (textsOf (some (.str s)))
  | some (.arr parts) => parts.flatMap (blockSaid id)
  | _ => []

def turnSaid (entry : Json.Value D) : List (Saying D) := contentSaid (entry.get "content".toList)

/-- What a body says to Messages. -/
def messagesSaid (body : Json.Value D) : List (Saying D) :=
  sayTexts (systemTexts id (body.get "system".toList)) ++ (entriesOf body).flatMap turnSaid

def callId (item : Json.Value D) : Json.Value D := given (item.get "call_id".toList)

def inputSaid : Option (Json.Value D) → List (Saying D)
  | some (.str s) => sayTexts (textsOf (some (.str s)))
  | some (.arr items) => items.flatMap (itemSaid id callId)
  | _ => []

/-- What a body says to Responses. -/
def responsesSaid (body : Json.Value D) : List (Saying D) :=
  sayTexts (textsOf (body.get "instructions".toList)) ++ inputSaid (body.get "input".toList)

/-! ### Fields -/

theorem given_asString_iff (v : Option (Json.Value D)) :
    given (asString v) = given v ↔ plain v = true := by
  rcases v with _ | ⟨_ | b | n | _ | items | members⟩ <;>
    simp [asString, given, plain, Json.Value.asStr]

theorem textsOf_asString_iff (v : Option (Json.Value D)) :
    textsOf (asString v) = textsOf v ↔ plain v = true := by
  rcases v with _ | ⟨_ | b | n | ⟨_ | ⟨c, s⟩⟩ | items | members⟩ <;>
    simp [asString, textsOf, given, plain, Json.Value.asStr]

theorem length_textsOf_asString_le (v : Option (Json.Value D)) :
    (textsOf (asString v)).length ≤ (textsOf v).length := by
  rcases v with _ | ⟨_ | b | n | ⟨_ | ⟨c, s⟩⟩ | items | members⟩ <;>
    simp [asString, textsOf, given, Json.Value.asStr]

theorem given_strAt (key : String) (v : Json.Value D) :
    given (some (.str ((strAt key v).getD []))) = given (asString (v.get key.toList)) := by
  rw [strAt, asString]
  cases (v.get key.toList).bind Json.Value.asStr <;> rfl

theorem sayTexts_inj {l r : List (Json.Value D)} : sayTexts l = sayTexts r ↔ l = r :=
  (List.map_injective_iff.mpr fun _ _ h => Saying.text.inj h).eq_iff

@[simp] theorem length_sayTexts (texts : List (Json.Value D)) :
    (sayTexts texts).length = texts.length := List.length_map _

@[simp] theorem results_sayTexts (texts : List (Json.Value D)) :
    (sayTexts texts).filter Saying.isResult = [] := by
  simp [sayTexts]

@[simp] theorem others_sayTexts (texts : List (Json.Value D)) :
    (sayTexts texts).filter (fun s => !s.isResult) = sayTexts texts := by
  simp [sayTexts]

theorem mem_textsOf {v : Json.Value D} {w : Option (Json.Value D)} (h : v ∈ textsOf w) :
    v = given w := by
  rw [textsOf] at h
  split at h
  · contradiction
  · exact List.mem_singleton.mp h

/-! ### In the text of a message -/

theorem shows_str {s text : Text} (h : s <:+: text) :
    Shows floats text (given (some (.str s))) := by
  rcases s with _ | ⟨c, s⟩
  · exact trivial
  · exact Or.inl h

theorem shows_write {v : Json.Value D} {text : Text} (h : Json.write floats v <:+: text) :
    Shows floats text (given (some v)) := by
  rcases v with _ | b | n | ⟨_ | ⟨c, s⟩⟩ | items | members
  case str.cons => exact Or.inr h
  case null => exact trivial
  case str.nil => exact trivial
  all_goals exact h

theorem fields_infix (a id b name c input d : Text) :
    id <:+: a ++ id ++ b ++ name ++ c ++ input ++ d ∧
      name <:+: a ++ id ++ b ++ name ++ c ++ input ++ d ∧
      input <:+: a ++ id ++ b ++ name ++ c ++ input ++ d :=
  ⟨⟨a, b ++ name ++ c ++ input ++ d, by simp only [List.append_assoc]⟩,
    ⟨a ++ id ++ b, c ++ input ++ d, by simp only [List.append_assoc]⟩,
    ⟨a ++ id ++ b ++ name ++ c, d, by simp only [List.append_assoc]⟩⟩

theorem render_toolCall (floats : Json.Floats D) (id name : Text) (input : Json.Value D) :
    ∃ a b c d, (Piece.toolCall id name input).render floats =
      a ++ id ++ b ++ name ++ c ++ Json.write floats input ++ d :=
  ⟨_, _, _, _, rfl⟩

theorem render_invocation (name args : Text) :
    (Piece.invocation name args : Piece D).render floats = name ++ ['('] ++ args ++ [')'] := rfl

/-- What a piece carries can be seen in its text. -/
theorem Piece.carries_shown {piece : Piece D} {message : Message}
    (hrender : piece.render floats <:+: message.content) :
    ∀ s ∈ piece.carries, s.In floats message := by
  cases piece with
  | text s =>
    intro said hsaid
    obtain ⟨v, hv, rfl⟩ := List.mem_map.mp hsaid
    obtain rfl := mem_textsOf hv
    exact shows_str (s := s) hrender
  | newline => exact fun _ h => absurd h List.not_mem_nil
  | toolCall id name input =>
    rw [Piece.carries, List.forall_mem_singleton]
    obtain ⟨a, b, c, d, htext⟩ := render_toolCall floats id name input
    rw [htext] at hrender
    obtain ⟨hid, hname, hinput⟩ := fields_infix a id b name c (Json.write floats input) d
    exact ⟨shows_str (hid.trans hrender), shows_str (hname.trans hrender),
      shows_write (hinput.trans hrender)⟩
  | invocation name args =>
    rw [Piece.carries, List.forall_mem_singleton]
    rw [render_invocation] at hrender
    have hname : name <:+: name ++ ['('] ++ args ++ [')'] :=
      ⟨[], ['('] ++ args ++ [')'], by simp only [List.append_assoc, List.nil_append]⟩
    have hargs : args <:+: name ++ ['('] ++ args ++ [')'] := ⟨name ++ ['('], [')'], rfl⟩
    exact ⟨trivial, shows_str (hname.trans hrender), shows_str (hargs.trans hrender)⟩

theorem render_isInfix (floats : Json.Floats D) {pieces : List (Piece D)} {piece : Piece D}
    (h : piece ∈ pieces) :
    piece.render floats <:+: renderAll floats pieces := by
  obtain ⟨before, after, rfl⟩ := List.append_of_mem h
  rw [renderAll, List.flatMap_append, List.flatMap_cons, ← List.append_assoc]
  exact ⟨_, _, rfl⟩

theorem Content.texts_shown {content : Content D} :
    ∀ v ∈ content.texts, Shows floats (content.render floats) v := by
  intro v hv
  cases content with
  | pieces parts =>
    obtain ⟨piece, hpiece, hv⟩ := List.mem_flatMap.mp hv
    cases piece with
    | text s =>
      obtain rfl := mem_textsOf hv
      exact shows_str (render_isInfix floats hpiece)
    | newline | toolCall | invocation => contradiction
  | json w =>
    obtain rfl := mem_textsOf hv
    exact shows_write (List.infix_refl _)

/-- All that a draft carries is in the message it becomes. -/
theorem Draft.carries_shown (draft : Draft D) :
    ∀ s ∈ draft.carries, s.In floats (draft.message floats) := by
  rw [Draft.carries]
  split
  · intro s hs
    rcases hcontent : draft.content with parts | v
    · rw [hcontent] at hs
      obtain ⟨piece, hpiece, hs⟩ := List.mem_flatMap.mp hs
      refine Piece.carries_shown ?_ s hs
      rw [Draft.message, hcontent]
      exact render_isInfix floats hpiece
    · rw [hcontent] at hs
      obtain ⟨w, hw, rfl⟩ := List.mem_map.mp hs
      obtain rfl := mem_textsOf hw
      refine shows_write ?_
      rw [Draft.message, hcontent]
      exact List.infix_refl _
  · rename_i id hid
    rw [List.forall_mem_singleton]
    exact ⟨⟨id, hid, rfl⟩, Content.texts_shown⟩

theorem Prompt.keeps_iff (floats : Json.Floats D) {prompt : Prompt F D} {said : List (Saying D)} :
    prompt.Keeps floats said ↔ prompt.carries = said :=
  ⟨fun h => h.carries, fun h => ⟨h, fun draft _ => draft.carries_shown⟩⟩

/-! ### Parts -/

/-- The parts with a text that is counted can be read. -/
def PartsPlain (parts : List (Json.Value D)) : Prop :=
  ∀ part ∈ parts, plain (part.get "text".toList) = true

theorem partTexts_asString_iff (parts : List (Json.Value D)) :
    partTexts asString parts = partTexts id parts ↔ PartsPlain parts := by
  simp only [partTexts, id]
  rw [Flattening.flatMap_eq_flatMap_iff fun part _ => length_textsOf_asString_le _]
  simp only [textsOf_asString_iff, PartsPlain]

theorem length_partTexts_asString_le (parts : List (Json.Value D)) :
    (partTexts asString parts).length ≤ (partTexts id parts).length :=
  Flattening.length_flatMap_le fun _ _ => length_textsOf_asString_le _

/-- What of some content is text can be read. -/
def ContentPlain (kinds : List (Option Text)) : Option (Json.Value D) → Prop
  | some (.arr parts) => PartsPlain (parts.filter fun part => strAt "type" part ∈ kinds)
  | _ => True

theorem contentTexts_asString_iff (kinds : List (Option Text)) (content : Option (Json.Value D)) :
    contentTexts asString kinds content = contentTexts id kinds content ↔
      ContentPlain kinds content := by
  rcases content with _ | ⟨_ | b | n | s | parts | members⟩
  case some.arr => exact partTexts_asString_iff _
  all_goals simp [contentTexts, ContentPlain]

theorem length_contentTexts_asString_le (kinds : List (Option Text))
    (content : Option (Json.Value D)) :
    (contentTexts asString kinds content).length ≤ (contentTexts id kinds content).length := by
  rcases content with _ | ⟨_ | b | n | s | parts | members⟩
  case some.arr => exact length_partTexts_asString_le _
  all_goals exact le_rfl

/-- The text of a part as it goes into a message. -/
theorem flatMap_textPart {β : Type} (f : Piece D → List β) (part : Json.Value D) :
    (textPart part).flatMap f = ((strAt "text" part).map fun s => f (.text s)).getD [] := by
  rw [textPart]
  cases strAt "text" part <;> simp

theorem texts_textPart (part : Json.Value D) :
    (textPart part).flatMap Piece.texts = textsOf (asString (part.get "text".toList)) := by
  rw [flatMap_textPart, asString, strAt]
  cases (part.get "text".toList).bind Json.Value.asStr <;> rfl

theorem carries_textPart (part : Json.Value D) :
    (textPart part).flatMap Piece.carries =
      sayTexts (textsOf (asString (part.get "text".toList))) := by
  rw [flatMap_textPart, asString, strAt]
  cases (part.get "text".toList).bind Json.Value.asStr <;> rfl

theorem texts_textParts (parts : List (Json.Value D)) :
    (parts.flatMap textPart).flatMap Piece.texts = partTexts asString parts := by
  simp only [List.flatMap_assoc, texts_textPart, partTexts]

theorem carries_textParts (parts : List (Json.Value D)) :
    (parts.flatMap textPart).flatMap Piece.carries = sayTexts (partTexts asString parts) := by
  simp only [List.flatMap_assoc, carries_textPart, partTexts, sayTexts, List.map_flatMap]

/-! ### Answers -/

theorem answering_asString {v : Option (Json.Value D)} (h : plain v = true)
    (texts : List (Json.Value D)) : answering (asString v) texts = answering v texts := by
  rcases v with _ | ⟨_ | b | n | _ | items | members⟩ <;>
    simp_all [asString, answering, plain, Json.Value.asStr]

theorem answering_inj {call : Option (Json.Value D)} {texts texts' : List (Json.Value D)} :
    answering call texts = answering call texts' ↔ texts = texts' := by
  rcases call with _ | ⟨_ | b | n | s | items | members⟩ <;> simp [answering, sayTexts_inj]

theorem length_answering_le (call : Option (Json.Value D)) {texts texts' : List (Json.Value D)}
    (h : texts.length ≤ texts'.length) :
    (answering call texts).length ≤ (answering call texts').length := by
  rcases call with _ | ⟨_ | b | n | s | items | members⟩ <;> simp [answering, h]

/-- An answer whose call cannot be read is one less. -/
theorem results_answering_asString_le (v : Option (Json.Value D))
    (texts texts' : List (Json.Value D)) :
    ((answering (asString v) texts).filter Saying.isResult).length ≤
      ((answering v texts').filter Saying.isResult).length := by
  rcases v with _ | ⟨_ | b | n | s | items | members⟩ <;>
    simp [asString, answering, List.filter, Json.Value.asStr]

/-- But it is no shorter a list, where there is one text at most. -/
theorem length_answering_asString_le {v : Option (Json.Value D)} {texts : List (Json.Value D)}
    (h : texts.length ≤ 1) :
    (answering (asString v) texts).length ≤ (answering v texts).length := by
  rcases v with _ | ⟨_ | b | n | s | items | members⟩ <;>
    simp [asString, answering, h, Json.Value.asStr]

theorem plain_of_results {v : Option (Json.Value D)} {texts texts' : List (Json.Value D)}
    (h : (answering (asString v) texts).filter Saying.isResult =
      (answering v texts').filter Saying.isResult) : plain v = true := by
  rcases v with _ | ⟨_ | b | n | s | items | members⟩ <;>
    simp_all [asString, answering, plain, Json.Value.asStr]

theorem Draft.carries_answering {draft : Draft D} {key : String} {v : Json.Value D}
    {texts : List (Json.Value D)} (hid : draft.toolCallId = strAt key v)
    (hcarries : draft.content.carries = sayTexts texts) (htexts : draft.content.texts = texts) :
    draft.carries = answering (asString (v.get key.toList)) texts := by
  rw [Draft.carries, hid, strAt, asString, hcarries, htexts]
  cases (v.get key.toList).bind Json.Value.asStr <;> rfl

/-! ### Loops -/

/-- What a step adds to what is observed, the loop adds for each part. -/
theorem readParts_adds {β : Type} (o : Walk D → List β) (f : Json.Value D → List β)
    {readPart : Json.Value D → Walk D → Except Text (Walk D)}
    (hstep : ∀ part walk walk', readPart part walk = .ok walk' → o walk' = o walk ++ f part)
    {parts : List (Json.Value D)} {walk walk' : Walk D}
    (h : readParts readPart parts walk = .ok walk') : o walk' = o walk ++ parts.flatMap f := by
  induction parts generalizing walk with
  | nil =>
    obtain rfl := Except.ok.inj h
    exact (List.append_nil _).symm
  | cons part parts ih =>
    rw [readParts] at h
    obtain ⟨next, hread, hrest⟩ := bind_eq_ok.mp h
    rw [ih hrest, hstep part walk next hread, List.flatMap_cons, List.append_assoc]

/-- The same for what is observed of the drafts of an entry. -/
theorem readEntries_adds {β : Type} (o : Draft D → List β) (f : Json.Value D → List β)
    {readEntry : Json.Value D → List Picture → Except Text (List (Draft D) × List Picture)}
    (hentry : ∀ entry pictures out, readEntry entry pictures = .ok out →
      out.1.flatMap o = f entry)
    {entries : List (Json.Value D)} {pictures : List Picture} {out : List (Draft D) × List Picture}
    (h : readEntries readEntry entries pictures = .ok out) :
    out.1.flatMap o = entries.flatMap f := by
  induction entries generalizing pictures out with
  | nil =>
    obtain rfl := Except.ok.inj h
    rfl
  | cons entry entries ih =>
    rw [readEntries] at h
    obtain ⟨first, hread, hrest⟩ := bind_eq_ok.mp h
    obtain ⟨more, hmore, hout⟩ := bind_eq_ok.mp hrest
    obtain rfl := Except.ok.inj hout
    rw [List.flatMap_append, hentry entry pictures first hread, ih hmore, List.flatMap_cons]

end AiDaemon.Shim
