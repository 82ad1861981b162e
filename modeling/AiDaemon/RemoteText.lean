import AiDaemon.RemoteHeard

/-!
# Text from a model that was offered tools

Whether the text of a reply goes out is decided by what was offered, delta by delta, before
anybody knows if the model will call anything.  So a model that was offered tools and
answers in words is not heard: the daemon is told how many pieces of text there were, and
gets none of them (`text_survives_iff`).
-/

namespace AiDaemon.Remote

open Proto Relay Json

variable {F D J : Type}

/-! ### What is to be shown -/

def tokenIn : BackendEvent F → Text
  | .token _ tok _ => tok
  | _ => []

/-- The text of all the tokens among some events. -/
def textSent (events : List (BackendEvent F)) : Text := events.flatMap tokenIn

/-- The content of the delta in a line. -/
def contentIn (floats : Floats D) (line : Text) : Text :=
  ((choiceIn floats line).bind contentOf).getD []

/-- A reply, however it ends, in which no delta has tool calls. -/
structure TextReply (g : Generation D F J) where
  lines : List Text
  ending : Ending Text
  noCalls : ∀ line ∈ heard g 0 lines, toolCallsIn g.floats line = none

section Reply

variable (g : Generation D F J) (reply : TextReply g)

/-- What was streamed, delta by delta. -/
def TextReply.deltas : List Text := (heard g 0 reply.lines).map (contentIn g.floats)

/-- How many deltas had content. -/
def TextReply.count : Nat := (reply.deltas g).countP fun delta => delta ≠ []

/-- What is sent to the daemon. -/
def TextReply.sent : List (BackendEvent F) := (generate g reply.lines reply.ending).1

/-- The daemon is sent the text that was streamed, and told its number of deltas. -/
structure Survives : Prop where
  text : textSent (reply.sent g) = (reply.deltas g).flatten
  counted : ∀ reqId usage reason, BackendEvent.done reqId usage reason ∈ reply.sent g →
    usage.completionTokens.toNat = reply.count g

end Reply

/-! ### Tokens -/

section Tokens

variable (g : Generation D F J)

theorem textSent_append (a b : List (BackendEvent F)) :
    textSent (a ++ b) = textSent a ++ textSent b := List.flatMap_append

/-- Text goes out while no tools are offered. -/
theorem textSent_sentFor (line : Text) :
    textSent (sentFor g line) = if g.tools.isEmpty then textIn g.floats line else [] := by
  unfold sentFor
  by_cases htools : g.tools.isEmpty = true
  · by_cases htext : textIn g.floats line = []
    · simp [htools, htext, textSent]
    · simp [htools, htext, textSent, tokenIn]
  · simp [htools, textSent]

theorem textSent_lines (lines : List Text) :
    textSent (lines.flatMap (sentFor g)) =
      if g.tools.isEmpty then lines.flatMap (textIn g.floats) else [] := by
  induction lines with
  | nil => simp [textSent]
  | cons line lines ih =>
    rw [List.flatMap_cons, textSent_append, textSent_sentFor, ih]
    cases g.tools.isEmpty <;> simp

theorem callEvents_cases (calls : List ToolCall) :
    callEvents g calls = [] ∨ callEvents g calls = [.toolCalls g.reqId calls] ∨
      ∃ call, callEvents g calls = [.toolCall g.reqId call] := by
  cases calls with
  | nil => exact Or.inl rfl
  | cons call calls =>
    by_cases hseveral : calls ≠ [] ∧ g.parallelTools = true
    · exact Or.inr (Or.inl (if_pos hseveral))
    · exact Or.inr (Or.inr ⟨call, if_neg hseveral⟩)

theorem textSent_callEvents (calls : List ToolCall) : textSent (callEvents g calls) = [] := by
  rcases callEvents_cases g calls with h | h | ⟨call, h⟩
  · rw [h]
    rfl
  · rw [h]
    rfl
  · rw [h]
    rfl

theorem done_not_sentFor {lines : List Text} {reqId : UInt64} {usage : Usage}
    {reason : Option Text} :
    BackendEvent.done reqId usage reason ∉ lines.flatMap (sentFor g) := by
  intro hdone
  obtain ⟨line, -, hin⟩ := List.mem_flatMap.mp hdone
  unfold sentFor at hin
  split at hin
  · cases List.mem_singleton.mp hin
  · cases hin

theorem done_not_callEvents {calls : List ToolCall} {reqId : UInt64} {usage : Usage}
    {reason : Option Text} : BackendEvent.done reqId usage reason ∉ callEvents g calls := by
  rcases callEvents_cases g calls with h | h | ⟨call, h⟩
  · rw [h]
    exact List.not_mem_nil
  · rw [h, List.mem_singleton]
    rintro ⟨⟩
  · rw [h, List.mem_singleton]
    rintro ⟨⟩

end Tokens

/-! ### Replies -/

section Reply

variable {g : Generation D F J} (reply : TextReply g)

theorem textIn_of_noCalls {floats : Floats D} {line : Text} (h : toolCallsIn floats line = none) :
    textIn floats line = contentIn floats line := by
  unfold textIn
  rw [h]
  rfl

theorem TextReply.flatMap_textIn :
    (heard g 0 reply.lines).flatMap (textIn g.floats) = (reply.deltas g).flatten := by
  unfold TextReply.deltas
  rw [← List.flatMap_def]
  apply List.flatMap_congr
  intro line hline
  exact textIn_of_noCalls (reply.noCalls line hline)

theorem TextReply.countText_eq : countText g.floats (heard g 0 reply.lines) = reply.count g := by
  unfold countText TextReply.count TextReply.deltas
  rw [List.countP_map]
  apply List.countP_congr
  intro line hline
  rw [textIn_of_noCalls (reply.noCalls line hline)]
  rfl

/-- What was streamed is what goes out, unless tools were offered. -/
theorem TextReply.textSent_eq :
    textSent (reply.sent g) =
      if g.tools.isEmpty then (reply.deltas g).flatten else [] := by
  have hlines := textSent_lines g (heard g 0 reply.lines)
  rw [reply.flatMap_textIn] at hlines
  unfold TextReply.sent
  rcases generate_heard g reply.lines reply.ending with ⟨-, e, hsent⟩ | ⟨-, reason, hsent⟩
  · rw [hsent]
    exact hlines
  · rw [hsent]
    dsimp only
    rw [textSent_append, textSent_append, hlines, textSent_callEvents]
    exact List.append_nil _

theorem TextReply.tokens_counted_iff :
    (∀ reqId usage reason, BackendEvent.done reqId usage reason ∈ reply.sent g →
        usage.completionTokens.toNat = reply.count g) ↔
      reply.count g < 2 ^ 64 ∨ Fails g reply.lines reply.ending := by
  unfold TextReply.sent
  rcases generate_heard g reply.lines reply.ending with ⟨hfails, e, hsent⟩ | ⟨hwell, reason, hsent⟩
  · rw [hsent]
    refine iff_of_true ?_ (Or.inr hfails)
    intro reqId usage reason hdone
    exact absurd hdone (done_not_sentFor g)
  · rw [hsent, or_iff_left hwell]
    have hcount : (usageOf g reply.lines).completionTokens.toNat = reply.count g % 2 ^ 64 := by
      rw [← reply.countText_eq]
      exact UInt64.toNat_ofNat'
    constructor
    · intro hcounted
      have hsame := hcounted g.reqId (usageOf g reply.lines) reason (by simp)
      rw [hcount] at hsame
      exact hsame ▸ Nat.mod_lt _ (by decide)
    · intro hlt reqId usage reason' hdone
      rcases List.mem_append.mp hdone with hin | hin
      · exact absurd hin (done_not_sentFor g)
      · rcases List.mem_append.mp hin with hin | hin
        · exact absurd hin (done_not_callEvents g)
        · cases List.mem_singleton.mp hin
          rw [hcount, Nat.mod_eq_of_lt hlt]

/-- A reply in words survives exactly when no tools were offered or it has no words, and its
    deltas can be counted or are not counted because the request fails. -/
theorem text_survives_iff (g : Generation D F J) (reply : TextReply g) :
    Survives g reply ↔
      (g.tools = [] ∨ (reply.deltas g).flatten = []) ∧
        (reply.count g < 2 ^ 64 ∨ Fails g reply.lines reply.ending) := by
  have htext : textSent (reply.sent g) = (reply.deltas g).flatten ↔
      g.tools = [] ∨ (reply.deltas g).flatten = [] := by
    rw [reply.textSent_eq, ← List.isEmpty_iff]
    cases g.tools.isEmpty with
    | true => simp
    | false =>
      simp only [Bool.false_eq_true, if_false, false_or]
      exact eq_comm
  rw [← htext, ← reply.tokens_counted_iff]
  exact ⟨fun h => ⟨h.text, h.counted⟩, fun h => ⟨h.1, h.2⟩⟩

end Reply

/-- One word from a model that could have called a tool. -/
def oneWord : TextReply oneTool where
  lines := ["data: \x7b\"choices\":[\x7b\"delta\":\x7b\"content\":\"Hi\"\x7d\x7d]\x7d\n".toList]
  ending := .closed
  noCalls := by decide +kernel

/-- The word is counted and not sent. -/
theorem one_word_lost :
    ¬ ∀ (g : Generation Empty Unit Unit) (reply : TextReply g), Survives g reply := by
  intro hall
  have htext := (hall oneTool oneWord).text
  revert htext
  decide +kernel

end AiDaemon.Remote
