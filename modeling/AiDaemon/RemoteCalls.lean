import AiDaemon.Fragments
import AiDaemon.RemoteGenerate
import Mathlib.Algebra.Order.BigOperators.Group.List
import Mathlib.Algebra.Order.Group.Nat

/-!
# The calls of a remote reply

An endpoint sends a tool call in as many deltas as it likes: the first has the
id and the name, the rest of the arguments comes later under the index of the
call, and the calls may take turns.  `generate` takes each delta for a call of
its own and does not look at the index.  So the daemon is told of the calls that
were made exactly when each comes in one delta, its arguments with it, in the
order of the indexes (`remote_calls_kept_iff`).
-/

namespace AiDaemon.Remote

open Fragments Proto Relay Json

variable {F D J : Type}

/-! ### Calls in deltas -/

/-- The first delta of a call. It may have a start of the arguments. -/
structure Head where
  id : Text
  name : Text
  arguments : Option Text
deriving DecidableEq

abbrev Delta := Fragment Head Text

/-- The call that a client puts together. -/
def joined (head : Head) (pieces : List Text) : ToolCall :=
  ⟨head.id, head.name, head.arguments.getD [] ++ pieces.flatten⟩

def indexOf (call : Value D) : Option Nat :=
  ((call.get "index".toList).bind Value.asU64).map UInt64.toNat

/-- An element of `tool_calls` as a client reads it. -/
def readDelta (call : Value D) : Option Delta :=
  match indexOf call, idOf call with
  | some index, some id => (nameOf call).map fun name => .first index ⟨id, name, argumentsOf call⟩
  | some index, none => (argumentsOf call).map (.more index)
  | none, _ => none

def isDone (line : Text) : Bool := payloadOf line = some "[DONE]".toList

/-- The elements of `tool_calls` in a line. -/
def elementsIn (floats : Floats D) (line : Text) : List (Value D) :=
  ((((payloadOf line).bind (fromStr floats)).bind choiceOf).bind toolCallsOf).getD []

/-- Those of a reply. -/
def elementsOf (floats : Floats D) (lines : List Text) : List (Value D) :=
  (lines.takeWhile fun line => !isDone line).flatMap (elementsIn floats)

/-- A reply that makes these calls, split into deltas in any way. -/
structure Reply (floats : Floats D) (calls : List ToolCall) where
  lines : List Text
  deltas : List Delta
  reads : (elementsOf floats lines).map readDelta = deltas.map some
  splits : Splits joined calls deltas

/-- The delta has all of its call. -/
def isWhole : Delta → Bool
  | .first _ head => head.arguments.isSome
  | .more _ _ => false

/-- Each call is in one delta, and they come in the order of their indexes, but
    for calls that are the same. -/
structure Unsplit (calls : List ToolCall) (deltas : List Delta) : Prop where
  whole : ∀ delta ∈ deltas, isWhole delta = true
  inOrder : (deltas.map fun delta => calls[delta.index]?) = calls.map some

/-! ### What the daemon is told -/

def callsIn : BackendEvent F → List ToolCall
  | .toolCall _ call => [call]
  | .toolCalls _ calls => calls
  | _ => []

/-- The calls that the daemon is told of. -/
def callsOf (events : List (BackendEvent F)) : List ToolCall := events.flatMap callsIn

/-- Several calls are allowed, there is no cancel, and the transfer goes well. -/
def Generation.undisturbed (g : Generation D F J) : Generation D F J :=
  { g with
    parallelTools := true
    cancelled := fun _ => false
    transfer := g.transfer.map fun transfer => { transfer with success := true } }

/-- The calls that the daemon is told of after a reply. -/
def told (g : Generation D F J) (lines : List Text) : List ToolCall :=
  callsOf (generate g.undisturbed lines .closed).1

/-- They are those that were made, and the same as for any other reply that does
    not split them. -/
def KeepsCalls (g : Generation D F J) (calls : List ToolCall) (reply : Reply g.floats calls) :
    Prop :=
  told g reply.lines = calls ∧
    ∀ other : Reply g.floats calls, Unsplit calls other.deltas →
      told g reply.lines = told g other.lines

/-! ### Collecting -/

/-- What a first delta is read from. -/
theorem readDelta_first {call : Value D} {index : Nat} {head : Head}
    (h : readDelta call = some (.first index head)) :
    idOf call = some head.id ∧ nameOf call = some head.name ∧
      argumentsOf call = head.arguments := by
  unfold readDelta at h
  split at h
  · rename_i id hindex hid
    obtain ⟨name, hname, heq⟩ := Option.map_eq_some_iff.mp h
    cases heq
    exact ⟨hid, hname, rfl⟩
  · obtain ⟨piece, -, heq⟩ := Option.map_eq_some_iff.mp h
    cases heq
  · cases h

/-- The elements of a reply, one by one. -/
theorem Reply.forall₂_read {floats : Floats D} {calls : List ToolCall}
    (reply : Reply floats calls) :
    List.Forall₂ (fun element delta => readDelta element = some delta)
      (elementsOf floats reply.lines) reply.deltas := by
  have hsame : List.Forall₂ (· = ·) ((elementsOf floats reply.lines).map readDelta)
      (reply.deltas.map some) := by
    rw [reply.reads]
    exact List.forall₂_refl _
  exact List.forall₂_map_left_iff.mp (List.forall₂_map_right_iff.mp hsame)

theorem collect_append (reqId : UInt64) (collected : List ToolCall) (l r : List (Value D)) :
    collect reqId collected (l ++ r) = collect reqId (collect reqId collected l) r :=
  List.foldl_append

theorem length_collect (reqId : UInt64) (collected : List ToolCall) (calls : List (Value D)) :
    (collect reqId collected calls).length = collected.length + calls.length := by
  induction calls generalizing collected with
  | nil => rfl
  | cons call calls ih =>
    have hrest := ih (collected ++ [toolCallOf reqId collected.length call])
    simp only [collect, List.foldl_cons] at hrest ⊢
    rw [hrest, List.length_append, List.length_cons, List.length_cons, List.length_nil]
    omega

/-- The arguments do not depend on what was collected before. -/
theorem arguments_collect (reqId : UInt64) (collected : List ToolCall) (calls : List (Value D)) :
    (collect reqId collected calls).map ToolCall.arguments =
      collected.map ToolCall.arguments ++
        (calls.map argumentsOf).map fun arguments => arguments.getD "{}".toList := by
  induction calls generalizing collected with
  | nil => exact (List.append_nil _).symm
  | cons call calls ih =>
    have hrest := ih (collected ++ [toolCallOf reqId collected.length call])
    simp only [collect, List.foldl_cons] at hrest ⊢
    rw [hrest]
    simp [toolCallOf]

/-- Calls that come whole are collected as they are. -/
theorem collect_whole (reqId : UInt64) {made : List ToolCall} {elements : List (Value D)}
    {deltas : List Delta}
    (hreads : List.Forall₂ (fun element delta => readDelta element = some delta) elements deltas)
    (hwhole : ∀ delta ∈ deltas, isWhole delta = true ∧
      ∃ head, delta = .first delta.index head ∧ made[delta.index]? = some (joined head []))
    (collected : List ToolCall) :
    (collect reqId collected elements).map some =
      collected.map some ++ deltas.map fun delta => made[delta.index]? := by
  induction hreads generalizing collected with
  | nil => exact (List.append_nil _).symm
  | @cons element delta elements deltas hfirst _ ih =>
    obtain ⟨⟨hhas, head, hdelta, hmade⟩, hrest⟩ := List.forall_mem_cons.mp hwhole
    have hcall : toolCallOf reqId collected.length element = joined head [] := by
      rw [hdelta] at hfirst hhas
      obtain ⟨hid, hname, harguments⟩ := readDelta_first hfirst
      obtain ⟨arguments, hsome⟩ := Option.isSome_iff_exists.mp hhas
      simp [toolCallOf, joined, hid, hname, harguments, hsome]
    have hmore := ih hrest (collected ++ [toolCallOf reqId collected.length element])
    simp only [collect, List.foldl_cons] at hmore ⊢
    rw [hmore, hcall, List.map_cons, hmade]
    simp

/-! ### The loop -/

variable (g : Generation D F J)

theorem choiceStep_spec (s : Generating) (choice : Value D) :
    callsOf (choiceStep g s choice).1 = [] ∧
      (choiceStep g s choice).2.collected =
        collect g.reqId s.collected ((toolCallsOf choice).getD []) := by
  unfold choiceStep
  cases toolCallsOf choice with
  | some calls => exact ⟨rfl, rfl⟩
  | none =>
    match contentOf choice with
    | none | some [] => exact ⟨rfl, rfl⟩
    | some (c :: tok) =>
      refine ⟨?_, rfl⟩
      cases g.tools.isEmpty <;> rfl

theorem chunkStep_spec (s : Generating) (chunk : Value D) :
    callsOf (chunkStep g s chunk).1 = [] ∧
      (chunkStep g s chunk).2.collected =
        collect g.reqId s.collected (((choiceOf chunk).bind toolCallsOf).getD []) := by
  have husage : (noteUsage s chunk).collected = s.collected := by
    unfold noteUsage
    split <;> rfl
  unfold chunkStep
  cases choiceOf chunk with
  | none => exact ⟨rfl, husage⟩
  | some choice =>
    have hfinish : (noteFinish (noteUsage s chunk) choice).collected = s.collected := by
      unfold noteFinish
      split
      · exact husage
      · exact husage
    have hchoice := choiceStep_spec g (noteFinish (noteUsage s chunk) choice) choice
    rw [hfinish] at hchoice
    exact hchoice

theorem lineStep_done (s : Generating) {line : Text} (h : isDone line = true) :
    lineStep g.undisturbed s line =
      ([], .break { s with looked := s.looked + 1, stopped := true }) := by
  have hpayload : payloadOf line = some "[DONE]".toList := of_decide_eq_true h
  have hcancel : g.undisturbed.cancelled s.looked = false := rfl
  unfold lineStep
  rw [hcancel, hpayload]
  exact (if_neg Bool.false_ne_true).trans (if_pos rfl)

theorem lineStep_spec (s : Generating) {line : Text} (h : isDone line = false) :
    ∃ sent s', lineStep g.undisturbed s line = (sent, .go s') ∧ callsOf sent = [] ∧
      s'.collected = collect g.reqId s.collected (elementsIn g.floats line) := by
  have hcancel : g.undisturbed.cancelled s.looked = false := rfl
  unfold lineStep elementsIn
  simp only [hcancel]
  cases hpayload : payloadOf line with
  | none => exact ⟨_, _, rfl, rfl, rfl⟩
  | some payload =>
    have hnot : payload ≠ "[DONE]".toList := by
      rintro rfl
      simp [isDone, hpayload] at h
    have hfloats : g.undisturbed.floats = g.floats := rfl
    simp only [if_neg hnot, Option.bind_some, hfloats]
    by_cases hempty : payload = []
    · subst hempty
      have hnone : fromStr g.floats [] = none := rfl
      simp only [hnone]
      exact ⟨_, _, rfl, rfl, rfl⟩
    · cases hchunk : fromStr g.floats payload with
      | none =>
        simp only [if_neg hempty]
        exact ⟨_, _, rfl, rfl, rfl⟩
      | some chunk =>
        obtain ⟨hsent, hcollected⟩ :=
          chunkStep_spec g.undisturbed { s with looked := s.looked + 1 } chunk
        simp only [if_neg hempty]
        exact ⟨_, _, rfl, hsent, hcollected⟩

/-- The loop collects the elements of the reply. -/
theorem run_collects (lines : List Text) (s : Generating) :
    ∃ sent s', (generateLoop g.undisturbed).run s lines .closed = (sent, .broke s') ∧
      callsOf sent = [] ∧
      s'.collected = collect g.reqId s.collected (elementsOf g.floats lines) := by
  induction lines generalizing s with
  | nil => exact ⟨_, _, rfl, rfl, rfl⟩
  | cons line lines ih =>
    cases hdone : isDone line with
    | true =>
      refine ⟨_, _, Loop.run_break (lineStep_done g s hdone) lines .closed, rfl, ?_⟩
      simp [elementsOf, hdone, collect]
    | false =>
      obtain ⟨written, t, hstep, hwritten, hcollected⟩ := lineStep_spec g s hdone
      obtain ⟨sent, s', hrun, hsent, hlater⟩ := ih t
      refine ⟨written ++ sent, s', ?_, ?_, ?_⟩
      · simp only [generateLoop] at hrun
        simp only [Loop.run, generateLoop, hstep, hrun, List.nil_append]
      · have happend : callsOf (written ++ sent) = callsOf written ++ callsOf sent :=
          List.flatMap_append
        rw [happend, hwritten, hsent, List.nil_append]
      · have hthis : elementsOf g.floats (line :: lines) =
            elementsIn g.floats line ++ elementsOf g.floats lines := by
          simp [elementsOf, hdone]
        rw [hlater, hcollected, hthis, collect_append]

theorem callsOf_callEvents (calls : List ToolCall) :
    callsOf (callEvents g.undisturbed calls) = calls := by
  match calls with
  | [] => rfl
  | [call] => rfl
  | call :: next :: calls =>
    have hevents : callEvents g.undisturbed (call :: next :: calls) =
        [.toolCalls g.undisturbed.reqId (call :: next :: calls)] := by
      simp [callEvents, Generation.undisturbed]
    rw [hevents]
    exact List.append_nil _

/-- The daemon is told of every element as a call. -/
theorem told_eq (lines : List Text) :
    told g lines = collect g.reqId [] (elementsOf g.floats lines) := by
  obtain ⟨sent, s, hrun, hsent, hcollected⟩ := run_collects g lines .new
  have hkeeps : (atEnd g.undisturbed s).collected = s.collected := by
    unfold atEnd
    split_ifs <;> rfl
  have hwell : failure g.undisturbed (atEnd g.undisturbed s) = none := by
    unfold failure Generation.undisturbed
    cases g.transfer <;> rfl
  have hsplit : ∀ l r : List (BackendEvent F), callsOf (l ++ r) = callsOf l ++ callsOf r :=
    fun l r => List.flatMap_append
  rw [told, generate, hrun]
  simp only [hwell, hsplit, hsent, lastEvents, hkeeps, callsOf_callEvents, List.nil_append]
  rw [hcollected]
  exact List.append_nil _

/-! ### Whole calls -/

/-- A reply that leaves its calls whole. -/
theorem told_unsplit {calls : List ToolCall} (reply : Reply g.floats calls)
    (h : Unsplit calls reply.deltas) : told g reply.lines = calls := by
  have hlength : reply.deltas.length = calls.length := by
    simpa using congrArg List.length h.inOrder
  have hcollect := collect_whole g.reqId reply.forall₂_read
    (fun delta hdelta => ⟨h.whole delta hdelta, reply.splits.eq_first hlength hdelta⟩) []
  rw [← told_eq, h.inOrder, List.map_nil, List.nil_append] at hcollect
  exact (List.map_injective_iff.mpr (Option.some_injective _)) hcollect

/-- Texts that a default adds nothing to, in sum, were all there. -/
theorem isSome_of_perm {texts : List (Option Text)}
    (h : (texts.map fun text => text.getD "{}".toList).Perm (texts.map fun text => text.getD [])) :
    ∀ text ∈ texts, text.isSome = true := by
  by_contra hnot
  push Not at hnot
  obtain ⟨text, htext, hnone⟩ := hnot
  have hless : (texts.map fun text => (text.getD []).length).sum <
      (texts.map fun text => (text.getD "{}".toList).length).sum := by
    apply List.sum_lt_sum
    · intro text _
      cases text with
      | none => exact Nat.zero_le _
      | some text => exact le_rfl
    · refine ⟨text, htext, ?_⟩
      cases text with
      | none => decide
      | some text => cases hnone rfl
  have hsum := (h.map List.length).sum_nat
  rw [List.map_map, List.map_map] at hsum
  exact hless.ne' hsum

theorem arguments_made {calls : List ToolCall} {elements : List (Value D)} {deltas : List Delta}
    (hreads : List.Forall₂ (fun element delta => readDelta element = some delta) elements deltas)
    (hfirst : ∀ delta ∈ deltas, ∃ head, delta = .first delta.index head ∧
      calls[delta.index]? = some (joined head [])) :
    ((elements.map argumentsOf).map fun arguments => arguments.getD []) =
      (deltas.map fun delta => calls[delta.index]?).map
        fun call => (call.map ToolCall.arguments).getD [] := by
  induction hreads with
  | nil => rfl
  | @cons element delta elements deltas hreads _ ih =>
    obtain ⟨⟨head, hdelta, hmade⟩, hrest⟩ := List.forall_mem_cons.mp hfirst
    have harguments : argumentsOf element = head.arguments := by
      rw [hdelta] at hreads
      exact (readDelta_first hreads).2.2
    simp only [List.map_cons, ih hrest, harguments, hmade]
    simp [joined]

theorem whole_of_arguments {elements : List (Value D)} {deltas : List Delta}
    (hreads : List.Forall₂ (fun element delta => readDelta element = some delta) elements deltas)
    (hfirst : ∀ delta ∈ deltas, ∃ head, delta = .first delta.index head)
    (hsome : ∀ arguments ∈ elements.map argumentsOf, arguments.isSome = true) :
    ∀ delta ∈ deltas, isWhole delta = true := by
  induction hreads with
  | nil => simp
  | @cons element delta elements deltas hreads _ ih =>
    obtain ⟨⟨head, hdelta⟩, hrest⟩ := List.forall_mem_cons.mp hfirst
    obtain ⟨hthis, hmore⟩ := List.forall_mem_cons.mp hsome
    refine List.forall_mem_cons.mpr ⟨?_, ih hrest hmore⟩
    rw [hdelta] at hreads ⊢
    rw [(readDelta_first hreads).2.2] at hthis
    exact hthis

/-- A reply whose calls the daemon is told of has left them whole. -/
theorem unsplit_of_told {calls : List ToolCall} (reply : Reply g.floats calls)
    (h : told g reply.lines = calls) : Unsplit calls reply.deltas := by
  rw [told_eq] at h
  have hlength : reply.deltas.length = calls.length := by
    have hcollected := congrArg List.length h
    rw [length_collect, reply.forall₂_read.length_eq] at hcollected
    simpa using hcollected
  have hfirst : ∀ delta ∈ reply.deltas, ∃ head, delta = .first delta.index head ∧
      calls[delta.index]? = some (joined head []) :=
    fun delta hdelta => reply.splits.eq_first hlength hdelta
  -- The arguments told of are those that were made, in some order.
  have hperm := (reply.splits.perm hlength).map
    fun call => (call.map ToolCall.arguments).getD []
  rw [← arguments_made reply.forall₂_read hfirst] at hperm
  have hsame := arguments_collect g.reqId [] (elementsOf g.floats reply.lines)
  rw [h] at hsame
  have hmade : (calls.map some).map (fun call => (call.map ToolCall.arguments).getD []) =
      calls.map ToolCall.arguments := by
    rw [List.map_map]
    rfl
  rw [hmade, hsame, List.map_nil, List.nil_append] at hperm
  have hwhole := whole_of_arguments reply.forall₂_read
    (fun delta hdelta => (hfirst delta hdelta).imp fun head hhead => hhead.1)
    (isSome_of_perm hperm.symm)
  refine ⟨hwhole, ?_⟩
  have hcollect := collect_whole g.reqId reply.forall₂_read
    (fun delta hdelta => ⟨hwhole delta hdelta, hfirst delta hdelta⟩) []
  rw [h] at hcollect
  exact hcollect.symm

/-- **The calls do not depend on how they are chunked** exactly for replies that
    do not chunk them: each call in one delta, with its arguments, in order. -/
theorem remote_calls_kept_iff (calls : List ToolCall) (reply : Reply g.floats calls) :
    KeepsCalls g calls reply ↔ Unsplit calls reply.deltas := by
  constructor
  · rintro ⟨htold, -⟩
    exact unsplit_of_told g reply htold
  · intro hunsplit
    have htold := told_unsplit g reply hunsplit
    refine ⟨htold, ?_⟩
    intro other hother
    rw [htold, told_unsplit g other hother]

/-! ### A call in two deltas -/

def oneTool : Generation Empty Unit Unit where
  floats := ⟨fun _ => none, Empty.elim⟩
  single _ := ()
  reqId := 1
  tools := [⟨"f".toList, [], ()⟩]
  parallelTools := true
  baseUrl := "https://localhost/v1".toList
  cancelled _ := false
  transfer := some ⟨true, []⟩

/-- The name comes in one line and the arguments in the next. -/
def twoDeltas : Reply oneTool.floats [⟨"a".toList, "f".toList, "[]".toList⟩] where
  lines := [
    ("data: \x7b\"choices\":[\x7b\"delta\":\x7b\"tool_calls\":[\x7b\"index\":0,\"id\":\"a\"," ++
      "\"function\":\x7b\"name\":\"f\",\"arguments\":\"\"\x7d\x7d]\x7d\x7d]\x7d\n").toList,
    ("data: \x7b\"choices\":[\x7b\"delta\":\x7b\"tool_calls\":[\x7b\"index\":0," ++
      "\"function\":\x7b\"arguments\":\"[]\"\x7d\x7d]\x7d\x7d]\x7d\n").toList]
  deltas := [.first 0 ⟨"a".toList, "f".toList, some []⟩, .more 0 "[]".toList]
  reads := by decide +kernel
  splits := by
    refine ⟨by decide, ?_⟩
    intro i v hv
    cases i with
    | zero =>
      cases hv
      exact ⟨⟨"a".toList, "f".toList, some []⟩, ["[]".toList], by decide, rfl⟩
    | succ i => cases hv

/-- The daemon is told of two calls. -/
theorem two_deltas_two_calls : ¬ KeepsCalls oneTool _ twoDeltas := by
  rintro ⟨htold, -⟩
  rw [told_eq] at htold
  have hlength := congrArg List.length htold
  rw [length_collect, twoDeltas.forall₂_read.length_eq] at hlength
  cases hlength

end AiDaemon.Remote
