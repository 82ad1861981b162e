import AiDaemon.RemoteCalls

/-!
# What is made of a whole reply (`ai-daemon-backend-remote`: `generate`)

`generate` hears the lines of a reply up to a cancel, `[DONE]` or the end.  Everything it
sends is a function of the lines that it has heard (`generate_heard`): the text goes out
line by line if no tools were offered, and after it, unless the transfer failed, the calls
and the end with what was counted.
-/

namespace AiDaemon.Remote

open Proto Relay Json

variable {F D J : Type}

/-! ### Lines -/

section Lines

variable (floats : Floats D)

def chunkIn (line : Text) : Option (Value D) := (payloadOf line).bind (fromStr floats)

def choiceIn (line : Text) : Option (Value D) := (chunkIn floats line).bind choiceOf

/-- The array of tool calls in a line. -/
def toolCallsIn (line : Text) : Option (List (Value D)) := (choiceIn floats line).bind toolCallsOf

/-- The text in a line. Next to tool calls there is none. -/
def textIn (line : Text) : Text :=
  match toolCallsIn floats line with
  | some _ => []
  | none => ((choiceIn floats line).bind contentOf).getD []

/-- A count of usage in a line. -/
def usageIn (field line : Text) : Option UInt64 :=
  (((chunkIn floats line).bind (Value.get "usage".toList)).bind (Value.get field)).bind Value.asU64

/-- The count that some lines report last. -/
def reported (field : Text) (lines : List Text) : Option UInt64 :=
  (lines.filterMap (usageIn floats field)).getLast?

/-- How many of the lines have text. -/
def countText (lines : List Text) : Nat := lines.countP fun line => textIn floats line ≠ []

end Lines

section Heard

variable (g : Generation D F J)

/-- The lines that are taken into account, when the flag has been looked at `n` times. -/
def heard : Nat → List Text → List Text
  | _, [] => []
  | n, line :: lines =>
    if g.cancelled n = true ∨ isDone line = true then [] else line :: heard (n + 1) lines

/-- What is sent for a line. -/
def sentFor (line : Text) : List (BackendEvent F) :=
  if g.tools.isEmpty = true ∧ textIn g.floats line ≠ [] then
    [.token g.reqId (textIn g.floats line)
      ((choiceIn g.floats line).bind (logprobsOf g.single))]
  else []

/-- The request fails: a read did before the end of the reply, or the transfer did and
    there was no cancel. -/
def Fails (lines : List Text) (ending : Ending Text) : Prop :=
  (heard g 0 lines = lines ∧ ∃ e, ending = .failed e) ∨
    ∃ transfer, g.transfer = some transfer ∧ transfer.success = false ∧
      g.cancelled ((heard g 0 lines).length + 1) = false

end Heard

/-! ### One line -/

section Steps

variable (g : Generation D F J)

theorem choiceStep_eq (s : Generating) (choice : Value D) :
    choiceStep g s choice =
      match toolCallsOf choice with
      | some calls => ([], { s with collected := collect g.reqId s.collected calls })
      | none =>
        (if g.tools.isEmpty = true ∧ (contentOf choice).getD [] ≠ [] then
            [.token g.reqId ((contentOf choice).getD []) (logprobsOf g.single choice)]
          else [],
          { s with
            emitted := s.emitted + if (contentOf choice).getD [] ≠ [] then 1 else 0 }) := by
  unfold choiceStep
  cases toolCallsOf choice with
  | some calls => rfl
  | none =>
    match contentOf choice with
    | none | some [] => simp
    | some (c :: tok) => simp

theorem noteUsage_eq (s : Generating) (chunk : Value D) :
    noteUsage s chunk =
      { s with promptTokens := (((chunk.get "usage".toList).bind
          (Value.get "prompt_tokens".toList)).bind Value.asU64).getD s.promptTokens } := by
  unfold noteUsage
  cases chunk.get "usage".toList with
  | none => rfl
  | some usage => rfl

theorem noteFinish_eq (s : Generating) (choice : Value D) :
    ∃ finishReason, noteFinish s choice = { s with finishReason := finishReason } := by
  unfold noteFinish
  split
  · exact ⟨_, rfl⟩
  · exact ⟨s.finishReason, rfl⟩

/-- What a line that is heard leads to, but for the finish reason. -/
def afterLine (s : Generating) (line : Text) (finishReason : Option Text) : Generating where
  emitted := s.emitted + if textIn g.floats line ≠ [] then 1 else 0
  promptTokens := (usageIn g.floats "prompt_tokens".toList line).getD s.promptTokens
  finishReason := finishReason
  collected := collect g.reqId s.collected (elementsIn g.floats line)
  looked := s.looked + 1
  stopped := s.stopped

/-- A line without a chunk does nothing. -/
theorem line_silent (s : Generating) {line : Text} (h : chunkIn g.floats line = none) :
    sentFor g line = [] ∧
      afterLine g s line s.finishReason = { s with looked := s.looked + 1 } := by
  have htext : textIn g.floats line = [] := by
    simp [textIn, toolCallsIn, choiceIn, h]
  have helements : elementsIn g.floats line = [] := by
    show ((chunkIn g.floats line).bind choiceOf |>.bind toolCallsOf).getD [] = []
    rw [h]
    rfl
  have husage : usageIn g.floats "prompt_tokens".toList line = none := by
    rw [usageIn, h]
    rfl
  constructor
  · simp [sentFor, htext]
  · unfold afterLine
    rw [husage, helements, if_neg (not_not_intro htext), UInt64.add_zero]
    rfl

theorem chunkStep_heard (s : Generating) {line : Text} {chunk : Value D}
    (h : chunkIn g.floats line = some chunk) :
    ∃ finishReason, chunkStep g { s with looked := s.looked + 1 } chunk =
      (sentFor g line, afterLine g s line finishReason) := by
  have hchoice : choiceIn g.floats line = choiceOf chunk := by
    rw [choiceIn, h]
    rfl
  have husage : usageIn g.floats "prompt_tokens".toList line =
      ((chunk.get "usage".toList).bind (Value.get "prompt_tokens".toList)).bind Value.asU64 := by
    rw [usageIn, h]
    rfl
  have helements : elementsIn g.floats line =
      ((choiceOf chunk).bind toolCallsOf).getD [] := by
    rw [← hchoice]
    rfl
  unfold chunkStep
  rw [noteUsage_eq, ← husage]
  dsimp only
  cases hnext : choiceOf chunk with
  | none =>
    refine ⟨s.finishReason, ?_⟩
    simp [sentFor, afterLine, textIn, toolCallsIn, hchoice, hnext, helements, collect]
  | some choice =>
    obtain ⟨finishReason, hfinish⟩ := noteFinish_eq
      { s with
        looked := s.looked + 1
        promptTokens := (usageIn g.floats "prompt_tokens".toList line).getD s.promptTokens }
      choice
    refine ⟨finishReason, ?_⟩
    dsimp only
    rw [hfinish, choiceStep_eq]
    cases hcalls : toolCallsOf choice with
    | some calls =>
      simp [sentFor, afterLine, textIn, toolCallsIn, hchoice, hnext, helements, hcalls]
    | none =>
      simp [sentFor, afterLine, textIn, toolCallsIn, hchoice, hnext, helements, hcalls, collect]

/-- What a line that is heard does. -/
theorem lineStep_heard (s : Generating) {line : Text} (hcancel : g.cancelled s.looked = false)
    (hdone : isDone line = false) :
    ∃ finishReason,
      lineStep g s line = (sentFor g line, .go (afterLine g s line finishReason)) := by
  unfold lineStep
  simp only [hcancel, Bool.false_eq_true, if_false]
  cases hpayload : payloadOf line with
  | none =>
    have hchunk : chunkIn g.floats line = none := by
      rw [chunkIn, hpayload]
      rfl
    obtain ⟨hsent, hafter⟩ := line_silent g s hchunk
    exact ⟨s.finishReason, by rw [hsent, hafter]⟩
  | some payload =>
    have hnot : payload ≠ "[DONE]".toList := by
      rintro rfl
      simp [isDone, hpayload] at hdone
    simp only [if_neg hnot]
    have hchunk : chunkIn g.floats line = fromStr g.floats payload := by
      rw [chunkIn, hpayload]
      rfl
    by_cases hempty : payload = []
    · subst hempty
      have hnone : fromStr g.floats ([] : Text) = none := rfl
      obtain ⟨hsent, hafter⟩ := line_silent g s (hchunk.trans hnone)
      exact ⟨s.finishReason, by rw [if_pos rfl, hsent, hafter]⟩
    · rw [if_neg hempty]
      cases hread : fromStr g.floats payload with
      | none =>
        obtain ⟨hsent, hafter⟩ := line_silent g s (hchunk.trans hread)
        exact ⟨s.finishReason, by rw [hsent, hafter]⟩
      | some chunk =>
        obtain ⟨finishReason, hstep⟩ := chunkStep_heard g s (hchunk.trans hread)
        exact ⟨finishReason, by simp only [hstep]⟩

/-- A line that is not heard ends the loop. -/
theorem lineStep_unheard (s : Generating) {line : Text}
    (h : g.cancelled s.looked = true ∨ isDone line = true) :
    ∃ finishReason, lineStep g s line = ([], .break
      { s with finishReason := finishReason, looked := s.looked + 1, stopped := true }) := by
  unfold lineStep
  by_cases hcancel : g.cancelled s.looked = true
  · exact ⟨some "cancelled".toList, by rw [if_pos hcancel]⟩
  · have hpayload : payloadOf line = some "[DONE]".toList :=
      of_decide_eq_true (h.resolve_left hcancel)
    refine ⟨s.finishReason, ?_⟩
    rw [if_neg hcancel, hpayload]
    exact if_pos rfl

end Steps

/-! ### Whole replies -/

section Runs

variable (g : Generation D F J)

/-- What the loop has counted and collected when it is over. -/
structure Counted (s : Generating) (lines : List Text) (last : Generating) : Prop where
  emitted : last.emitted = s.emitted + .ofNat (countText g.floats lines)
  promptTokens : last.promptTokens =
    (reported g.floats "prompt_tokens".toList lines).getD s.promptTokens
  collected : last.collected =
    collect g.reqId s.collected (lines.flatMap (elementsIn g.floats))
  looked : last.looked = s.looked + lines.length + 1

theorem reported_cons (floats : Floats D) (field line : Text) (lines : List Text) (n : UInt64) :
    (reported floats field lines).getD ((usageIn floats field line).getD n) =
      (reported floats field (line :: lines)).getD n := by
  unfold reported
  cases h : usageIn floats field line with
  | none => simp [h]
  | some m => simp [h, List.getLast?_cons]

theorem Counted.cons {s : Generating} {line : Text} {lines : List Text} {last : Generating}
    {finishReason : Option Text} (h : Counted g (afterLine g s line finishReason) lines last) :
    Counted g s (line :: lines) last where
  emitted := by
    rw [h.emitted, countText, countText, List.countP_cons]
    by_cases htext : textIn g.floats line = []
    · simp [afterLine, htext]
    · simp [afterLine, htext, UInt64.ofNat_add, UInt64.add_assoc, UInt64.add_comm]
  promptTokens := h.promptTokens.trans (reported_cons ..)
  collected := by
    rw [h.collected, List.flatMap_cons, collect_append]
    rfl
  looked := by
    rw [h.looked, List.length_cons]
    show s.looked + 1 + lines.length + 1 = s.looked + (lines.length + 1) + 1
    omega

/-- The loop sends what there is for the lines it hears, and counts them. -/
theorem run_heard (lines : List Text) (ending : Ending Text) {s : Generating}
    (hgoing : s.stopped = false) :
    (heard g s.looked lines = lines ∧ ∃ e, ending = .failed e ∧
        (generateLoop g).run s lines ending =
          ((heard g s.looked lines).flatMap (sentFor g), .failed e)) ∨
      (¬ (heard g s.looked lines = lines ∧ ∃ e, ending = .failed e) ∧ ∃ last,
        (generateLoop g).run s lines ending =
          ((heard g s.looked lines).flatMap (sentFor g), .broke last) ∧
        Counted g s (heard g s.looked lines) (atEnd g last)) := by
  induction lines generalizing s with
  | nil =>
    cases ending with
    | failed e => exact Or.inl ⟨rfl, e, rfl, rfl⟩
    | closed =>
      refine Or.inr ⟨?_, s, rfl, ?_⟩
      · rintro ⟨-, e, he⟩
        cases he
      · unfold atEnd
        rw [if_neg (by rw [hgoing]; exact Bool.false_ne_true)]
        split
        · exact ⟨(UInt64.add_zero _).symm, rfl, rfl, rfl⟩
        · exact ⟨(UInt64.add_zero _).symm, rfl, rfl, rfl⟩
  | cons line lines ih =>
    by_cases hends : g.cancelled s.looked = true ∨ isDone line = true
    · obtain ⟨finishReason, hstep⟩ := lineStep_unheard g s hends
      have hnone : heard g s.looked (line :: lines) = [] := if_pos hends
      rw [hnone]
      refine Or.inr ⟨?_, _, Loop.run_break hstep lines ending, ?_⟩
      · rintro ⟨hnil, -⟩
        cases hnil
      · exact ⟨(UInt64.add_zero _).symm, rfl, rfl, rfl⟩
    · have hcancel : g.cancelled s.looked = false := by simp_all
      have hdone : isDone line = false := by simp_all
      obtain ⟨finishReason, hstep⟩ := lineStep_heard g s hcancel hdone
      have hsome : heard g s.looked (line :: lines) =
          line :: heard g (s.looked + 1) lines := if_neg hends
      have hrun : ∀ out exit,
          (generateLoop g).run (afterLine g s line finishReason) lines ending = (out, exit) →
          (generateLoop g).run s (line :: lines) ending = (sentFor g line ++ out, exit) := by
        intro out exit hrest
        simp only [generateLoop] at hrest
        simp only [Loop.run, generateLoop, hstep, hrest, List.nil_append]
      have hnext : (afterLine g s line finishReason).looked = s.looked + 1 := rfl
      rw [hsome]
      rcases ih (s := afterLine g s line finishReason) hgoing with
        ⟨hall, e, he, hrest⟩ | ⟨hnot, last, hrest, hcounted⟩
      · rw [hnext] at hall hrest
        refine Or.inl ⟨by rw [hall], e, he, ?_⟩
        rw [hrun _ _ hrest, List.flatMap_cons]
      · rw [hnext] at hnot hrest hcounted
        refine Or.inr ⟨?_, last, ?_, hcounted.cons g⟩
        · rintro ⟨hall, hfailed⟩
          exact hnot ⟨(List.cons.inj hall).2, hfailed⟩
        · rw [hrun _ _ hrest, List.flatMap_cons]

/-- The usage at the end of a reply. -/
def usageOf (lines : List Text) : Usage where
  promptTokens := (reported g.floats "prompt_tokens".toList (heard g 0 lines)).getD 0
  completionTokens := .ofNat (countText g.floats (heard g 0 lines))
  attachmentTokens := 0
  mediaBytes := 0

/-- The calls of a reply. -/
def callsHeard (lines : List Text) : List ToolCall :=
  collect g.reqId [] ((heard g 0 lines).flatMap (elementsIn g.floats))

theorem failure_eq_none {last : Generating} :
    failure g last = none ↔ ¬ ∃ transfer, g.transfer = some transfer ∧ transfer.success = false ∧
      g.cancelled last.looked = false := by
  unfold failure
  cases g.transfer with
  | none => simp
  | some transfer => simp

/-- **What is sent for a reply**, whole or not. -/
theorem generate_heard (lines : List Text) (ending : Ending Text) :
    (Fails g lines ending ∧ ∃ e,
        generate g lines ending = ((heard g 0 lines).flatMap (sentFor g), .error e)) ∨
      (¬ Fails g lines ending ∧ ∃ reason, generate g lines ending =
        ((heard g 0 lines).flatMap (sentFor g) ++ (callEvents g (callsHeard g lines) ++
          [.done g.reqId (usageOf g lines) reason]), .ok ())) := by
  have hnew : Generating.new.looked = 0 := rfl
  rcases run_heard g lines ending (s := .new) rfl with
    ⟨hall, e, he, hrun⟩ | ⟨hnot, last, hrun, hcounted⟩
  · rw [hnew] at hall hrun
    exact Or.inl ⟨Or.inl ⟨hall, e, he⟩, e, by rw [generate, hrun]⟩
  · rw [hnew] at hnot hrun hcounted
    have hlooked : (atEnd g last).looked = (heard g 0 lines).length + 1 := by
      rw [hcounted.looked, hnew, Nat.zero_add]
    have hfails : failure g (atEnd g last) = none ↔ ¬ Fails g lines ending := by
      rw [failure_eq_none, hlooked]
      exact not_congr (or_iff_right hnot).symm
    cases hfailure : failure g (atEnd g last) with
    | some complaint =>
      have hfailed : Fails g lines ending := by
        by_contra hno
        rw [hfails.mpr hno] at hfailure
        cases hfailure
      exact Or.inl ⟨hfailed, complaint, by simp only [generate, hrun, hfailure]⟩
    | none =>
      refine Or.inr ⟨hfails.mp hfailure, ?_⟩
      have hcollected : (atEnd g last).collected = callsHeard g lines := hcounted.collected
      have husage : (⟨(atEnd g last).promptTokens, (atEnd g last).emitted, 0, 0⟩ : Usage) =
          usageOf g lines := by
        rw [hcounted.promptTokens, hcounted.emitted]
        exact congrArg (fun n => (⟨_, n, 0, 0⟩ : Usage)) (UInt64.zero_add _)
      simp only [generate, hrun, hfailure, lastEvents, hcollected, husage]
      exact ⟨_, rfl⟩

end Runs

end AiDaemon.Remote
